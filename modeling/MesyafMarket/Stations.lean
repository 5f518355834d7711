import MesyafMarket.EventLogGrowth
import MesyafMarket.Gateways

namespace MesyafMarket
open Relational Sockets DelivererJobService SessionService

-- The connection that a handler works for.
def Handler.client : Handler → Nat
  | customerConnection client _ | customerOnline client _ _ | customerContext client _ => client
  | customerSnapshot client _ _ | customerLastSeen client _ | customerOrders client _ _ => client
  | vendorConnection client _ | vendorOnline client _ _ | vendorProfile client _ | vendorJoin client _ _ => client
  | vendorContext client _ | vendorSnapshot client _ _ | vendorLastSeen client _ | vendorOrders client _ _ => client
  | eventsSince client _ _ | replay client _ => client
  | delivererConnection client _ | delivererProfile client _ | delivererLastSeen client _ _ => client
  | delivererEvents client _ _ _ _ | delivererMissed client _ _ _ | delivererOnline client _ _ _ _ => client
  | delivererContext client _ _ | delivererSnapshot client _ _ _ => client
  | disconnection client | offline client _ | flushing client _ => client
  | jobSubscribe client _ | subscribed client _ _ | heartbeat client | beating client _ => client
  | jobStart client _ | starting client _ _ | startingUnfiltered client _ => client
  | dropoffComplete client _ _ | completing client _ _ => client
  | locationUpdate client _ _ _ | tracking client _ _ _ | tracked client _ _ => client

-- What holds of the point that a handler goes on to, whatever process it calls.
def Next.Goes (P : Handler → Prop) : Next → Prop
  | finished => True
  | await x => P x
  | call _ x => ∀ p, P (x p)

def Next.handler (p : Nat) : Next → Option Handler
  | finished => none
  | await x => some x
  | call _ x => some (x p)

theorem goes_handler {next : Next} (goes : next.Goes P) (leads : next.handler p = some x) : P x := by
  cases next with
  | finished => cases leads
  | await => cases leads; exact goes
  | call => cases leads; exact goes p

-- After a segment its handler is where it goes on to, and the others where they were.
theorem go_found {st : Station} {segment : Segment} (found : (st.go h segment).handlers q = some x) :
    (q = h ∧ segment.next.handler st.market.spawned = some x) ∨ st.handlers q = some x := by
  have handlers : (st.go h segment).handlers =
      Function.update st.handlers h (segment.next.handler st.market.spawned) := by
    unfold Station.go
    split <;> rename_i goes <;> rw [goes] <;> rfl
  rw [handlers] at found
  by_cases hit : q = h
  · subst q; rw [Function.update_self] at found; exact .inl ⟨rfl,found⟩
  · rw [Function.update_of_ne hit] at found; exact .inr found

theorem go_handler {st : Station} {segment : Segment} :
    (st.go h segment).handlers h = segment.next.handler st.market.spawned := by
  unfold Station.go
  split <;> rename_i goes <;> rw [goes] <;> exact Function.update_self ..

theorem resume_move (env : Env) {st : Station} (found : st.handlers h = some x) (calls : x.call = none)
    (filtered : ∀ client jobId, x ≠ .startingUnfiltered client jobId) :
    st.move env (.resume h) = (st.go h (x.resume env st.market.db st.hub),(x.resume env st.market.db st.hub).emitted) := by
  simp only [Station.move,found,Station.resumed,calls]

theorem fail_move (env : Env) {st : Station} (found : st.handlers h = some x) :
    (st.move env (.fail h)).1 = st.go h (x.caught st.hub .infrastructure) := by
  simp only [Station.move,found]

theorem go_hub {st : Station} {segment : Segment} : (st.go h segment).hub = segment.hub := by
  unfold Station.go
  split <;> rfl

theorem caught_finished {x : Handler} : (x.caught hub e).next = .finished := by
  cases x <;> simp only [Handler.caught]
  all_goals split <;> rfl

theorem caught_evolves {x : Handler} : Evolves hub (x.caught hub e).hub := by
  cases x <;> simp only [Handler.caught]
  case eventsSince | replay =>
    split
    · exact .refl
    · exact .close .refl
  all_goals first | exact .close .refl | exact .refl

theorem resume_client {env : Env} {x : Handler} : (x.resume env v hub).next.Goes fun y => y.client = x.client := by
  cases x <;> simp only [Handler.resume]
  case dropoffComplete =>
    split
    · exact fun _ => rfl
    · rw [caught_finished]; trivial
  case disconnection =>
    split
    · split
      · exact fun _ => rfl
      · trivial
    · trivial
  all_goals (try split) <;> first | trivial | rfl | exact fun _ => rfl

theorem resume_evolves {env : Env} {x : Handler} : Evolves hub (x.resume env v hub).hub := by
  cases x <;> simp only [Handler.resume]
  case customerSnapshot | delivererSnapshot =>
    split
    · exact .join .refl
    · exact .refl
  case vendorJoin => exact .join (.identify .refl)
  case subscribed =>
    split
    · exact .join .refl
    · exact .refl
  case dropoffComplete =>
    split
    · exact .refl
    · exact caught_evolves
  case disconnection =>
    split
    · split <;> exact .refl
    · exact .refl
  all_goals (try split) <;> first | exact .refl | exact .close .refl

theorem answer_client {x : Handler} : (x.answer hub reply).next.Goes fun y => y.client = x.client := by
  unfold Handler.answer
  split
  · rw [caught_finished]; trivial
  · rfl
  · rfl
  · rfl
  · split
    · exact fun _ => rfl
    · trivial
  all_goals trivial

theorem answer_evolves {x : Handler} : Evolves hub (x.answer hub reply).hub := by
  unfold Handler.answer
  split
  · exact caught_evolves
  · exact .join (.identify .refl)
  · exact .refl
  · exact .join (.identify .refl)
  · split <;> exact .refl
  all_goals exact .refl

theorem evolves_length {hub hub' : Clients} (evolves : Evolves hub hub') (within : s < hub.clients.length) :
    s < hub'.clients.length := by
  obtain ⟨_,found,_⟩ := evolves_keeps evolves s _ (List.getElem?_eq_getElem within)
  exact (List.getElem?_eq_some_iff.mp found).1

theorem ongoing_startJobOfAnyoneTx : Follows Ongoing (startJobOfAnyoneTx j) := by
  refine ongoing_recording.after (confined_updateMany (by decide)) fun started => ?_
  split
  · refine ongoing_recording.after confined_select fun job => ?_
    split <;> exact follows_throw _
  · exact ongoing_recording.after (confined_updateMany (by decide)) fun _ => ongoing_recordEvent

-- The rows go on as the services and the clock take them.
inductive Later (v : Database) : Database → Prop where
  | ongoing (changed : Ongoing v v') : Later v v'
  | tick : Later v (v.tick ms)

theorem market_later (env : Env) (w : Market) (m : MarketMove) : Later w.db (w.move (market env) m).db := by
  have still : Later w.db w.db := .ongoing (.refl _)
  cases m with
  | step p i =>
    cases found : w.threads p with
    | none => simp only [World.move,found]; exact still
    | some x =>
      cases at_next : Proc.next env x with
      | query => rw [(step_query (i := i) found at_next).1]; exact still
      | input => rw [(step_input (i := i) found at_next).1]; exact still
      | add => rw [(step_add (i := i) found at_next).1]; exact still
      | emit => rw [(step_emit (i := i) found at_next).1]; exact still
      | done => rw [(step_done (i := i) found at_next).1]; exact still
      | tx body =>
        rcases step_tx (i := i) found at_next with ⟨y,db,ran,moved,_⟩ | ⟨e,moved,_⟩
        · rw [moved]; exact .ongoing (ongoing_commit at_next _ _ ran)
        · rw [moved]; exact still
  | work n => simp only [World.move]; split <;> exact still
  | duplicate n => simp only [World.move]; split <;> exact still
  | fail p => simp only [World.move]; split <;> exact still
  | tick ms => exact .tick
  | spawn | lose | stop => exact still

-- The process that a handler waits for is stepped, failed or stopped, or stays where it is.
theorem thread_moved (env : Env) (w : Market) (m : MarketMove) (within : p < w.spawned) :
    w.spawned ≤ (w.move (market env) m).spawned ∧
      ((w.move (market env) m).threads p = w.threads p ∨ (∃ i, m = .step p i) ∨ m = .fail p ∨ m = .stop p) := by
  have goto : ∀ q y, q ≠ p → (w.goto q y).threads p = w.threads p := by
    intro q y other
    simp only [World.goto,Function.update_of_ne (Ne.symm other)]
  cases m with
  | spawn x =>
    refine ⟨Nat.le_succ _,.inl ?_⟩
    simp only [World.move,World.start,Function.update_of_ne (Nat.ne_of_lt within)]
  | work n =>
    simp only [World.move]
    split
    · refine ⟨Nat.le_succ _,.inl ?_⟩
      simp only [World.start,Function.update_of_ne (Nat.ne_of_lt within)]
    · exact ⟨Nat.le_refl _,.inl rfl⟩
  | duplicate n => simp only [World.move]; split <;> exact ⟨Nat.le_refl _,.inl rfl⟩
  | lose | tick => exact ⟨Nat.le_refl _,.inl rfl⟩
  | step q i =>
    by_cases same : q = p
    · subst q
      refine ⟨?_,.inr (.inl ⟨i,rfl⟩)⟩
      simp only [World.move]
      split
      · unfold World.instr
        split
        · exact Nat.le_refl _
        · split <;> exact Nat.le_refl _
        all_goals exact Nat.le_refl _
      · exact Nat.le_refl _
    · simp only [World.move]
      split
      · unfold World.instr
        split
        · exact ⟨Nat.le_refl _,.inl (goto q _ same)⟩
        · split <;> exact ⟨Nat.le_refl _,.inl (goto q _ same)⟩
        · exact ⟨Nat.le_refl _,.inl (goto q _ same)⟩
        · exact ⟨Nat.le_refl _,.inl (goto q _ same)⟩
        · exact ⟨Nat.le_refl _,.inl (goto q _ same)⟩
        · exact ⟨Nat.le_refl _,.inl rfl⟩
      · exact ⟨Nat.le_refl _,.inl rfl⟩
  | fail q =>
    by_cases same : q = p
    · subst q
      refine ⟨?_,.inr (.inr (.inl rfl))⟩
      simp only [World.move]
      split <;> exact Nat.le_refl _
    · simp only [World.move]
      split
      · exact ⟨Nat.le_refl _,.inl (goto q _ same)⟩
      · exact ⟨Nat.le_refl _,.inl rfl⟩
  | stop q =>
    by_cases same : q = p
    · subst q; exact ⟨Nat.le_refl _,.inr (.inr (.inr rfl))⟩
    · refine ⟨Nat.le_refl _,.inl ?_⟩
      simp only [World.move,Function.update_of_ne (Ne.symm same)]

-- Everything that a handler sends, whichever way its awaits end.
inductive Handler.Emits : Handler → Emission → Prop where
  | customerContext : Emits (.customerSnapshot s customerId context)
      ⟨.client s,.customerContext customerId context⟩
  | vendorContext : Emits (.vendorSnapshot s vendorId orders) ⟨.client s,.vendorContext vendorId orders⟩
  | replay : Emits (.replay s missed) ⟨.client s,.eventsReplay missed⟩
  | delivererContext : Emits (.delivererSnapshot s delivererId missed context)
      ⟨.client s,.delivererContext delivererId context⟩
  | delivererReplay : Emits (.delivererSnapshot s delivererId missed context)
      ⟨.client s,.eventsReplay missed⟩
  | jobSubscribed : Emits (.subscribed s jobId none) ⟨.client s,.jobSubscribed jobId⟩
  | jobStarted : Emits (.starting s jobId p) ⟨.client s,.jobStarted jobId⟩
  | deliveryStarted : Emits (.starting s jobId p) ⟨.room .deliverer (.job jobId),.deliveryStarted jobId⟩
  | unfilteredStarted : Emits (.startingUnfiltered s jobId) ⟨.client s,.jobStarted jobId⟩
  | unfilteredDelivery : Emits (.startingUnfiltered s jobId) ⟨.room .deliverer (.job jobId),.deliveryStarted jobId⟩
  | dropoffCompleted : Emits (.completing s jobId p) ⟨.client s,.dropoffCompleted jobCompleted⟩
  | deliveryCompleted : Emits (.completing s jobId p) ⟨.room .deliverer (.job jobId),.deliveryCompleted jobId⟩
  | locationUpdate : Emits (.tracked s jobId loc) ⟨.room .deliverer (.job jobId),.locationUpdate loc.lat loc.lng now⟩
  | jobError : Emits x ⟨.client x.client,.jobError e⟩
  | dropoffError : Emits x ⟨.client x.client,.dropoffError e⟩

theorem caught_emits {x : Handler} (sent : one ∈ (x.caught hub e).emitted) : x.Emits one := by
  cases x <;> simp only [Handler.caught] at sent
  case eventsSince | replay => split at sent <;> cases sent
  case jobSubscribe | subscribed | jobStart | starting | startingUnfiltered =>
    rw [List.mem_singleton.mp sent]; exact .jobError
  case dropoffComplete | completing => rw [List.mem_singleton.mp sent]; exact .dropoffError
  all_goals cases sent

theorem resume_emits {env : Env} {x : Handler} (sent : one ∈ (x.resume env v hub).emitted) : x.Emits one := by
  cases x <;> simp only [Handler.resume] at sent
  case tracked => rw [List.mem_singleton.mp sent]; exact .locationUpdate
  case customerSnapshot => rw [List.mem_singleton.mp sent]; exact .customerContext
  case vendorSnapshot => rw [List.mem_singleton.mp sent]; exact .vendorContext
  case replay =>
    split at sent
    · cases sent
    · rw [List.mem_singleton.mp sent]; exact .replay
  case delivererSnapshot =>
    rcases List.mem_cons.mp sent with same | missed
    · rw [same]; exact .delivererContext
    · split at missed
      · cases missed
      · rw [List.mem_singleton.mp missed]; exact .delivererReplay
  case subscribed =>
    split at sent
    · rw [List.mem_singleton.mp sent]; exact .jobSubscribed
    · rw [List.mem_singleton.mp sent]; exact .jobError
  case dropoffComplete =>
    split at sent
    · cases sent
    · exact caught_emits sent
  case disconnection =>
    split at sent
    · split at sent <;> cases sent
    · cases sent
  all_goals (try split at sent) <;> cases sent

theorem answer_emits {x : Handler} (sent : one ∈ (x.answer hub reply).emitted) : x.Emits one := by
  unfold Handler.answer at sent
  split at sent
  · exact caught_emits sent
  · cases sent
  · cases sent
  · cases sent
  · split at sent <;> cases sent
  · rcases List.mem_cons.mp sent with same | last
    · rw [same]; exact .jobStarted
    · rw [List.mem_singleton.mp last]; exact .deliveryStarted
  · rcases List.mem_cons.mp sent with same | last
    · rw [same]; exact .dropoffCompleted
    · rw [List.mem_singleton.mp last]; exact .deliveryCompleted
  · rw [List.mem_singleton.mp sent]; exact .dropoffCompleted
  · cases sent

inductive Station.Sends (st : Station) : Emission → Prop where
  | notice (note : Notice) : Sends st ⟨note.target,.notice note⟩
  | handler (found : st.handlers h = some x) (emits : x.Emits e) : Sends st e

theorem handler_sends {env : Env} {st : Station} (other : ∀ n, m ≠ .market n) (sent : e ∈ (st.move env m).2) :
    ∃ h x, st.handlers h = some x ∧ x.Emits e := by
  cases m with
  | market m => exact absurd rfl (other m)
  | connect | leave => cases sent
  | disconnect client =>
    simp only [Station.move] at sent
    split at sent <;> cases sent
  | message client m =>
    simp only [Station.move] at sent
    split at sent
    · split at sent <;> cases sent
    · cases sent
  | fail h =>
    simp only [Station.move] at sent
    split at sent
    · rename_i found
      exact ⟨h,_,found,caught_emits sent⟩
    · cases sent
  | resume h =>
    simp only [Station.move] at sent
    split at sent
    · rename_i found
      refine ⟨h,_,found,?_⟩
      unfold Station.resumed at sent
      split at sent
      · split at sent
        · exact answer_emits sent
        · cases sent
      · split at sent
        · split at sent
          · rcases List.mem_cons.mp sent with same | last
            · rw [same]; exact .unfilteredStarted
            · rw [List.mem_singleton.mp last]; exact .unfilteredDelivery
          · dsimp only at sent
            exact caught_emits sent
        · exact resume_emits sent
    · cases sent

theorem sends_of_move {env : Env} {st : Station} (sent : e ∈ (st.move env m).2) : st.Sends e := by
  by_cases market : ∃ n, m = .market n
  · obtain ⟨n,rfl⟩ := market
    simp only [Station.move,Station.notices] at sent
    split at sent
    · split at sent
      · split at sent
        · rw [List.mem_singleton.mp sent]; exact .notice _
        · cases sent
      · cases sent
    · cases sent
  · obtain ⟨h,x,found,emits⟩ := handler_sends (fun n same => market ⟨n,same⟩) sent
    exact .handler found emits

-- Handlers work for connections there are.
def Station.Wired (st : Station) : Prop := ∀ h x, st.handlers h = some x → x.client < st.hub.clients.length

theorem wired_start {st : Station} (wired : st.Wired) (within : x.client < st.hub.clients.length) :
    (st.start x).Wired := by
  intro h y found
  rcases update_some found with ⟨_,rfl⟩ | ⟨_,before⟩
  · exact within
  · exact wired h y before

theorem wired_hub {st : Station} (wired : st.Wired) (evolves : Evolves st.hub hub) : {st with hub := hub}.Wired :=
  fun h x found => evolves_length evolves (wired h x found)

theorem wired_go {st : Station} {segment : Segment} (wired : st.Wired) (found : st.handlers h = some x)
    (evolves : Evolves st.hub segment.hub) (client : segment.next.Goes fun y => y.client = x.client) :
    (st.go h segment).Wired := by
  intro q y at_q
  rw [go_hub]
  rcases go_found at_q with ⟨_,leads⟩ | before
  · rw [goes_handler client leads]; exact evolves_length evolves (wired h x found)
  · exact evolves_length evolves (wired q y before)

theorem caught_goes {x : Handler} : (x.caught hub e).next.Goes P := by rw [caught_finished]; trivial

theorem wired_move {env : Env} {st : Station} (wired : st.Wired) (m : StationMove) : (st.move env m).1.Wired := by
  cases m with
  | market m => exact wired
  | connect space token =>
    refine wired_start (wired_hub wired (.accept .refl)) ?_
    have length : (st.hub.accept space ⟨none,none,none,none⟩).clients.length = st.hub.clients.length+1 := by
      simp [Hub.accept]
    cases space <;> exact lt_of_lt_of_eq (Nat.lt_succ_self _) length.symm
  | leave client => exact wired_hub wired (.close .refl)
  | disconnect client =>
    simp only [Station.move]
    split
    · rename_i closing
      refine wired_start (wired_hub wired (.notice .refl)) (evolves_length (.notice .refl) ?_)
      cases found : st.hub.clients[client]? with
      | none => rw [found] at closing; cases closing
      | some c => exact (List.getElem?_eq_some_iff.mp found).1
    · exact wired
  | message client m =>
    simp only [Station.move]
    split
    · rename_i c found
      have within : client < st.hub.clients.length := (List.getElem?_eq_some_iff.mp found).1
      split
      · rename_i x handles
        refine wired_start wired ?_
        split at handles
        · cases m <;> cases space : c.space <;> rw [space] at handles <;> cases handles <;> exact within
        · cases handles
      · exact wired
    · exact wired
  | fail h =>
    simp only [Station.move]
    split
    · rename_i x found
      exact wired_go wired found caught_evolves caught_goes
    · exact wired
  | resume h =>
    simp only [Station.move]
    split
    · rename_i x found
      unfold Station.resumed
      split
      · split
        · exact wired_go wired found answer_evolves answer_client
        · exact wired
      · split
        · split
          · rename_i db _
            have rows : {st with market := {st.market with db := db}}.Wired := wired
            dsimp only
            refine wired_go rows found answer_evolves ?_
            exact trivial
          · dsimp only
            exact wired_go wired found caught_evolves caught_goes
        · exact wired_go wired found resume_evolves resume_client
    · exact wired

theorem wired_run {st : Station} (env : Env) (wired : st.Wired) (moves : List StationMove) :
    (st.run env moves).1.Wired := by
  induction moves generalizing st with
  | nil => exact wired
  | cons m rest ih => exact ih (wired_move wired m)

theorem wired_reached {env : Env} {start st : Station} (opening : start.Opening)
    (path : Station.Reached env start st) : st.Wired := by
  induction path with
  | refl =>
    intro h x found
    rw [opening.handlers h] at found; cases found
  | step _ _ ih => exact wired_move ih _

theorem go_threads {st : Station} {segment : Segment} (found : (st.go h segment).market.threads p = some y) :
    st.market.threads p = some y ∨ ∃ x, segment.next = .call y x := by
  unfold Station.go at found
  split at found
  · exact .inl found
  · exact .inl found
  · rename_i service x goes
    rcases start_parts found with ⟨_,same⟩ | before
    · subst same; exact .inr ⟨x,goes⟩
    · exact .inl before

theorem move_evolves (env : Env) (st : Station) (m : StationMove) : Evolves st.hub (st.move env m).1.hub := by
  cases m with
  | market m => exact .refl
  | connect space token => exact .accept .refl
  | leave client => exact .close .refl
  | disconnect client =>
    simp only [Station.move]
    split
    · exact .notice .refl
    · exact .refl
  | message client m =>
    simp only [Station.move]
    split
    · split <;> exact .refl
    · exact .refl
  | fail h =>
    simp only [Station.move]
    split
    · rw [go_hub]; exact caught_evolves
    · exact .refl
  | resume h =>
    simp only [Station.move]
    split
    · unfold Station.resumed
      split
      · split
        · rw [go_hub]; exact answer_evolves
        · exact .refl
      · split
        · split
          · dsimp only; rw [go_hub]; exact answer_evolves
          · dsimp only; rw [go_hub]; exact caught_evolves
        · rw [go_hub]; exact resume_evolves
    · exact .refl

theorem run_evolves (env : Env) (st : Station) (moves : List StationMove) : Evolves st.hub (st.run env moves).1.hub := by
  induction moves generalizing st with
  | nil => exact .refl
  | cons m rest ih => exact (move_evolves env st m).trans (ih (st.move env m).1)

-- A handler stays where it is until it is resumed or its await fails.
theorem handler_kept (env : Env) {st : Station} {m : StationMove} (begun : h < st.started) (others : m ≠ .resume h ∧ m ≠ .fail h) :
    (st.move env m).1.handlers h = st.handlers h := by
  have starts : ∀ x, (st.start x).handlers h = st.handlers h := by
    intro x
    simp only [Station.start,Function.update_of_ne (Nat.ne_of_lt begun)]
  have goes : ∀ (st' : Station) q segment, q ≠ h → (st'.go q segment).handlers h = st'.handlers h := by
    intro st' q segment other
    unfold Station.go
    split <;> exact Function.update_of_ne (Ne.symm other) ..
  cases m with
  | market m => rfl
  | leave client => rfl
  | connect space token =>
    simp only [Station.move,Station.start,Function.update_of_ne (Nat.ne_of_lt begun)]
  | disconnect client =>
    simp only [Station.move]
    split
    · simp only [Station.start,Function.update_of_ne (Nat.ne_of_lt begun)]
    · rfl
  | message client m =>
    simp only [Station.move]
    split
    · split
      · exact starts _
      · rfl
    · rfl
  | fail q =>
    have other : q ≠ h := fun same => others.2 (by rw [same])
    simp only [Station.move]
    split
    · exact goes st q _ other
    · rfl
  | resume q =>
    have other : q ≠ h := fun same => others.1 (by rw [same])
    simp only [Station.move]
    split
    · unfold Station.resumed
      split
      · split
        · exact goes st q _ other
        · rfl
      · split
        · split
          · dsimp only; exact goes _ q _ other
          · dsimp only; exact goes st q _ other
        · exact goes st q _ other
    · rfl

theorem go_started {st : Station} {segment : Segment} : (st.go h segment).started = st.started := by
  unfold Station.go
  split <;> rfl

theorem started_grows (env : Env) (st : Station) (m : StationMove) : st.started ≤ (st.move env m).1.started := by
  cases m with
  | market | leave => exact Nat.le_refl _
  | connect => exact Nat.le_succ _
  | disconnect client =>
    simp only [Station.move]
    split
    · exact Nat.le_succ _
    · exact Nat.le_refl _
  | message client m =>
    simp only [Station.move]
    split
    · split
      · exact Nat.le_succ _
      · exact Nat.le_refl _
    · exact Nat.le_refl _
  | fail h =>
    simp only [Station.move]
    split
    · rw [go_started]
    · exact Nat.le_refl _
  | resume h =>
    simp only [Station.move]
    split
    · unfold Station.resumed
      split
      · split
        · rw [go_started]
        · exact Nat.le_refl _
      · split
        · split <;> (dsimp only; rw [go_started])
        · rw [go_started]
    · exact Nat.le_refl _

theorem station_append (env : Env) (st : Station) (xs ys : List StationMove) :
    st.run env (xs ++ ys) = (((st.run env xs).1.run env ys).1,(st.run env xs).2 ++ ((st.run env xs).1.run env ys).2) := by
  induction xs generalizing st with
  | nil => rfl
  | cons m rest ih => simp only [List.cons_append,Station.run,ih,List.append_assoc]

theorem station_snoc (env : Env) (st : Station) (xs : List StationMove) (m : StationMove) :
    (st.run env (xs ++ [m])).1 = ((st.run env xs).1.move env m).1 := by
  rw [station_append]; rfl

-- Each emission of a run is made by one of its moves.
theorem mem_log {env : Env} {st : Station} {moves : List StationMove} : sent ∈ (st.run env moves).2 ↔
    ∃ xs m ys, moves = xs ++ m::ys ∧ ∃ e ∈ ((st.run env xs).1.move env m).2,
      sent = (e,e.recipients ((st.run env xs).1.move env m).1.hub) := by
  induction moves generalizing st with
  | nil => simp [Station.run]
  | cons m rest ih =>
    simp only [Station.run,List.mem_append,ih]
    constructor
    · rintro (first | ⟨xs,n,ys,split,made⟩)
      · obtain ⟨e,member,same⟩ := List.mem_map.mp first
        exact ⟨[],m,rest,rfl,e,member,same.symm⟩
      · exact ⟨m::xs,n,ys,by rw [split]; rfl,made⟩
    · rintro ⟨xs,n,ys,split,made⟩
      cases xs with
      | nil =>
        cases split
        obtain ⟨e,member,same⟩ := made
        exact .inl (List.mem_map.mpr ⟨e,member,same.symm⟩)
      | cons first xs =>
        cases split
        exact .inr ⟨xs,n,ys,rfl,made⟩

theorem go_rows {st : Station} {segment : Segment} : (st.go h segment).market.db = st.market.db := by
  unfold Station.go
  split <;> rfl

theorem station_later (env : Env) (st : Station) (m : StationMove) : Later st.market.db (st.move env m).1.market.db := by
  have still : Later st.market.db st.market.db := .ongoing (.refl _)
  cases m with
  | market m => exact market_later env st.market m
  | connect | leave => exact still
  | disconnect client => simp only [Station.move]; split <;> exact still
  | message client m =>
    simp only [Station.move]
    split
    · split <;> exact still
    · exact still
  | fail h =>
    simp only [Station.move]
    split
    · rw [go_rows]; exact still
    · exact still
  | resume h =>
    simp only [Station.move]
    split
    · unfold Station.resumed
      split
      · split
        · rw [go_rows]; exact still
        · exact still
      · split
        · split
          · rename_i db ran
            dsimp only
            rw [go_rows]
            exact .ongoing (ongoing_startJobOfAnyoneTx _ _ ran)
          · dsimp only
            rw [go_rows]; exact still
        · rw [go_rows]; exact still
    · exact still

-- Every station that a run reaches when each of its moves is allowed where it is made.
inductive Station.ReachedBy (env : Env) (may : Station → StationMove → Prop) (start : Station) : Station → Prop where
  | refl : ReachedBy env may start start
  | step (path : ReachedBy env may start st) (allowed : may st m) : ReachedBy env may start (st.move env m).1

-- The stations along a computed run, each with the move made there.
def Station.trace (env : Env) (st : Station) : List StationMove → List (Station × StationMove)
  | [] => []
  | m::rest => (st,m)::(st.move env m).1.trace env rest

theorem reachedBy_run {env : Env} {may : Station → StationMove → Prop} {start st : Station}
    (path : Station.ReachedBy env may start st) (moves : List StationMove)
    (allowed : ∀ made ∈ st.trace env moves, may made.1 made.2) : Station.ReachedBy env may start (st.run env moves).1 := by
  induction moves generalizing st with
  | nil => exact path
  | cons m rest ih =>
    have first := Station.ReachedBy.step path (allowed _ List.mem_cons_self)
    exact ih first fun made member => allowed made (List.mem_cons_of_mem _ member)

end MesyafMarket
