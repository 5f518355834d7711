import MesyafMarket.Stations

namespace MesyafMarket
open Relational Sockets DelivererJobService SessionService ReplayService VendorService EventLogService

-- Who is replayed ORDER events.
inductive Party where
  | customer | vendor
  deriving DecidableEq

def Party.space : Party → Space
  | customer => .customer
  | vendor => .vendor

def Party.role : Party → Role
  | customer => .customer
  | vendor => .vendor

def Party.owns (v : Database) (userId orderId : Nat) : Party → Bool
  | customer => (v.rows .order orderId).any fun o => o.customerId = userId
  | vendor => (v.rows .order orderId).any fun o => (v.rows .vendorProfile o.vendorId).any fun p => p.userId = userId

-- The ORDER events of the user's orders committed between two states, in commit order.
def missedEvents (party : Party) (userId : Nat) (left back : Database) : List (Nat × EventLog) :=
  back.matching .eventLog fun i (event : EventLog) =>
    left.seq .eventLog ≤ i ∧ event.entityType = .order ∧ party.owns back userId event.entityId

-- What an events.replay sends to a connection.
def Emission.replayTo (client : Nat) (e : Emission) : List (Nat × EventLog) :=
  match e.target,e.message with
  | .client s,.eventsReplay missed => if s = client then missed else []
  | _,_ => []

def replayed (client : Nat) (log : List (Emission × List Nat)) : List (Nat × EventLog) :=
  log.flatMap fun sent => sent.1.replayTo client

-- The missed events are in the replay, each once and in their order.
def Complete (missed replay : List (Nat × EventLog)) : Prop :=
  (replay.filter fun e => missed.any fun m => m.1 = e.1) = missed

-- At `t₀` the user came back: the entries from `n₀` to `n₁` were logged while they were away.
structure Absence where
  client : Nat
  userId : Nat
  n₀ : Nat
  n₁ : Nat
  t₀ : Nat

variable {A : Absence}

structure Absence.Elapsed (A : Absence) (v : Database) : Prop where
  clock : A.t₀ ≤ v.clock
  grown : A.n₁ ≤ v.seq .eventLog
  old : ∀ i event, A.n₀ ≤ i → i < A.n₁ → v.rows .eventLog i = some event → event.createdAt ≤ A.t₀

-- markOnline has overwritten the time of the disconnect.
def Absence.Seen (A : Absence) (v : Database) : Prop := ∃ seen, lastSeenAt v A.userId = some seen ∧ A.t₀ ≤ seen

def Absence.Owns (A : Absence) (vendorId : Nat) (v : Database) : Prop :=
  ∃ p, v.rows .vendorProfile vendorId = some p ∧ p.userId = A.userId

def Absence.Recent (A : Absence) (events : List (Nat × EventLog)) : Prop :=
  ∀ e ∈ events, ¬(A.n₀ ≤ e.1 ∧ e.1 < A.n₁)

-- The call of markOnline that a handler waits for.
structure Absence.Marking (A : Absence) (call : Nat) (w : Market) : Prop where
  started : call < w.spawned
  thread : w.threads call = none ∨ w.threads call = some (.markPresence .markOnline A.userId) ∨
    ∃ reply, w.threads call = some (.returned reply) ∧ ((∀ e, reply ≠ .thrown e) → A.Seen w.db)

-- What is known at each point of the handleConnection that follows the absence.
def Handler.Behind (A : Absence) (w : Market) : Handler → Prop
  | customerConnection _ token => token = .payload A.userId .customer
  | customerOnline _ customerId call => customerId = A.userId ∧ A.Marking call w
  | customerContext _ customerId | customerSnapshot _ customerId _ | customerLastSeen _ customerId =>
    customerId = A.userId ∧ A.Seen w.db
  | customerOrders _ _ since | vendorOrders _ _ since | eventsSince _ _ since => A.t₀ ≤ since
  | vendorConnection _ token => token = .payload A.userId .vendor
  | vendorOnline _ userId call => userId = A.userId ∧ A.Marking call w
  | vendorProfile _ userId => userId = A.userId ∧ A.Seen w.db
  | vendorJoin _ _ vendorId | vendorContext _ vendorId | vendorSnapshot _ vendorId _ | vendorLastSeen _ vendorId =>
    A.Owns vendorId w.db ∧ A.Seen w.db
  | replay _ missedEvents => A.Recent missedEvents
  | delivererConnection _ _ | delivererProfile _ _ | delivererLastSeen _ _ _ | delivererEvents _ _ _ _ _ => False
  | delivererMissed _ _ _ _ | delivererOnline _ _ _ _ _ | delivererContext _ _ _ | delivererSnapshot _ _ _ _ => False
  | _ => True

structure Absence.Behind (A : Absence) (st : Station) : Prop where
  elapsed : A.Elapsed st.market.db
  connected : A.client < st.hub.clients.length
  handlers : ∀ h x, st.handlers h = some x → x.client = A.client → x.Behind A st.market

theorem elapsed_later (elapsed : A.Elapsed v) (later : Later v v') : A.Elapsed v' := by
  cases later with
  | tick => exact ⟨Nat.le_trans elapsed.clock (Nat.le_add_right _ _),elapsed.grown,elapsed.old⟩
  | ongoing changed =>
    refine ⟨by rw [changed.clock]; exact elapsed.clock,Nat.le_trans elapsed.grown changed.grows,?_⟩
    intro i event above below found
    rw [changed.kept i (Nat.lt_of_lt_of_le below elapsed.grown)] at found
    exact elapsed.old i event above below found

theorem seen_later (elapsed : A.Elapsed v) (seen : A.Seen v) (later : Later v v') : A.Seen v' := by
  cases later with
  | tick => exact seen
  | ongoing changed =>
    obtain ⟨at_,known,above⟩ := seen
    obtain ⟨u,found,last⟩ := Option.bind_eq_some_iff.mp known
    obtain ⟨u',found',same | now⟩ := changed.seen A.userId u found
    · exact ⟨at_,by unfold lastSeenAt; rw [found',Option.bind_some,same]; exact last,above⟩
    · exact ⟨v.clock,by unfold lastSeenAt; rw [found',Option.bind_some,now],elapsed.clock⟩

theorem owns_later (owns : A.Owns vendorId v) (later : Later v v') : A.Owns vendorId v' := by
  cases later with
  | tick => exact owns
  | ongoing changed => unfold Absence.Owns; rw [changed.vendors]; exact owns

theorem marking_move {env : Env} {w : Market} (elapsed : A.Elapsed w.db) (marking : A.Marking call w) (m : MarketMove) :
    A.Marking call (w.move (market env) m) := by
  have later := market_later env w m
  obtain ⟨grown,moved⟩ := thread_moved env w m marking.started
  refine ⟨Nat.lt_of_lt_of_le marking.started grown,?_⟩
  rcases moved with same | ⟨i,rfl⟩ | rfl | rfl
  · rw [same]
    rcases marking.thread with none | waiting | ⟨reply,found,done⟩
    · exact .inl none
    · exact .inr (.inl waiting)
    · exact .inr (.inr ⟨reply,found,fun fine => seen_later elapsed (done fine) later⟩)
  · rcases marking.thread with none | waiting | ⟨reply,found,done⟩
    · left; simp only [World.move,none]
    · right; right
      have at_tx : Proc.next env (.markPresence .markOnline A.userId) = .tx _ := rfl
      rcases step_tx (i := i) waiting at_tx with ⟨y,db,ran,moved,_⟩ | ⟨e,moved,_⟩
      · obtain ⟨_,_,marked,ended⟩ := Tx.run_bind_ok.mp ran
        cases ended
        rw [moved]
        refine ⟨.done,Function.update_self ..,fun _ => ?_⟩
        obtain ⟨same,k,u,found,hit⟩ := update_parts marked
        obtain rfl : k = A.userId := by simpa using hit
        refine ⟨w.db.clock,?_,elapsed.clock⟩
        unfold lastSeenAt
        dsimp only
        rw [same,Db.apply_updates]
        simp [found,Presence.apply]
      · rw [moved]
        exact ⟨.thrown e,Function.update_self ..,fun fine => absurd rfl (fine e)⟩
    · right; right
      have at_end : Proc.next env (.returned reply) = .done := rfl
      rw [(step_done (i := i) found at_end).1]
      exact ⟨reply,found,done⟩
  · rcases marking.thread with none | waiting | ⟨reply,found,done⟩
    · left; simp only [World.move,none]
    · right; right
      simp only [World.move,waiting,World.goto,Function.update_self]
      exact ⟨_,rfl,fun fine => absurd rfl (fine _)⟩
    · right; right
      simp only [World.move,found,World.goto,Function.update_self]
      exact ⟨reply,rfl,done⟩
  · left; simp only [World.move,Function.update_self]

theorem behind_kept {w w' : Market} (elapsed : A.Elapsed w.db) (later : Later w.db w'.db)
    (marking : ∀ call, A.Marking call w → A.Marking call w') {x : Handler} (behind : x.Behind A w) :
    x.Behind A w' := by
  cases x with
  | customerConnection | vendorConnection | customerOrders | vendorOrders | eventsSince | replay => exact behind
  | customerOnline | vendorOnline => exact ⟨behind.1,marking _ behind.2⟩
  | customerContext | customerSnapshot | customerLastSeen | vendorProfile =>
    exact ⟨behind.1,seen_later elapsed behind.2 later⟩
  | vendorJoin | vendorContext | vendorSnapshot | vendorLastSeen =>
    exact ⟨owns_later behind.1 later,seen_later elapsed behind.2 later⟩
  | delivererConnection | delivererProfile | delivererLastSeen | delivererEvents => exact behind
  | delivererMissed | delivererOnline | delivererContext | delivererSnapshot => exact behind
  | _ => trivial

theorem behind_market {st : Station} {w : Market} (behind : A.Behind st) (later : Later st.market.db w.db)
    (marking : ∀ call, A.Marking call st.market → A.Marking call w) : A.Behind {st with market := w} :=
  ⟨elapsed_later behind.elapsed later,behind.connected,
    fun h x found same => behind_kept behind.elapsed later marking (behind.handlers h x found same)⟩

theorem behind_move (env : Env) {st : Station} (behind : A.Behind st) (m : MarketMove) :
    A.Behind {st with market := st.market.move (market env) m} :=
  behind_market behind (market_later env st.market m) fun _ marking => marking_move behind.elapsed marking m

theorem behind_rows {st : Station} (behind : A.Behind st) (changed : Ongoing st.market.db db) :
    A.Behind {st with market := {st.market with db := db}} := by
  have later : Later st.market.db db := .ongoing changed
  refine behind_market behind later ?_
  intro call marking
  refine ⟨marking.started,?_⟩
  rcases marking.thread with none | waiting | ⟨reply,found,done⟩
  · exact .inl none
  · exact .inr (.inl waiting)
  · exact .inr (.inr ⟨reply,found,fun fine => seen_later behind.elapsed (done fine) later⟩)

-- The same for the point a handler goes on to, its call included.
def Next.Behind (A : Absence) (w : Market) : Next → Prop
  | finished => True
  | await x => x.Behind A w
  | call service x => (x w.spawned).Behind A (w.start service)

theorem marking_start (w : Market) : A.Marking w.spawned (w.start (.markPresence .markOnline A.userId)) :=
  ⟨Nat.lt_succ_self _,.inr (.inl (Function.update_self ..))⟩

theorem recent_events (elapsed : A.Elapsed v) (late : A.t₀ ≤ since) :
    A.Recent (getEventsSince entityType orders since v) := by
  intro e member away
  have listed := (List.mem_insertionSort _).mp member
  obtain ⟨found,hit⟩ := v.mem_matching.mp listed
  have after := (of_decide_eq_true hit).2.2
  have before := elapsed.old e.1 e.2 away.1 away.2 found
  omega

theorem seen_since (seen : A.Seen v) (found : lastSeenAt v A.userId = some since) : A.t₀ ≤ since := by
  obtain ⟨at_,known,above⟩ := seen
  rw [found] at known
  cases known
  exact above

theorem seen_vendor (owns : A.Owns vendorId v) (seen : A.Seen v) (found : vendorLastSeenAt v vendorId = some since) :
    A.t₀ ≤ since := by
  obtain ⟨p,at_vendor,own⟩ := owns
  unfold vendorLastSeenAt at found
  rw [at_vendor,Option.bind_some,own] at found
  exact seen_since seen found

theorem profile_owns (found : getProfileByUserId v A.userId = some vendorId) : A.Owns vendorId v := by
  obtain ⟨entry,first,same⟩ := Option.map_eq_some_iff.mp found
  obtain ⟨at_vendor,hit⟩ := v.mem_matching.mp (List.mem_of_head? first)
  rw [← same]
  exact ⟨entry.2,at_vendor,(of_decide_eq_true hit).1⟩

theorem recent_nil : A.Recent [] := fun _ member => absurd member List.not_mem_nil

theorem resume_behind {env : Env} {w : Market} (elapsed : A.Elapsed w.db) {x : Handler} (behind : x.Behind A w) :
    (x.resume env w.db hub).next.Behind A w := by
  cases x <;> simp only [Handler.resume]
  case customerConnection client token =>
    cases behind
    exact ⟨rfl,marking_start w⟩
  case vendorConnection client token =>
    cases behind
    exact ⟨rfl,marking_start w⟩
  case customerContext | customerSnapshot => exact behind
  case customerLastSeen client customerId =>
    obtain ⟨rfl,seen⟩ := behind
    split
    · rename_i since found
      exact seen_since seen found
    · exact recent_nil
  case customerOrders =>
    split
    · exact recent_nil
    · exact behind
  case vendorProfile client userId =>
    obtain ⟨rfl,seen⟩ := behind
    split
    · rename_i vendorId found
      exact ⟨profile_owns found,seen⟩
    · trivial
  case vendorJoin | vendorContext | vendorSnapshot => exact behind
  case vendorLastSeen =>
    split
    · rename_i since found
      exact seen_vendor behind.1 behind.2 found
    · exact recent_nil
  case vendorOrders => exact behind
  case eventsSince => exact recent_events elapsed behind
  case replay => split <;> trivial
  case delivererConnection | delivererProfile | delivererLastSeen | delivererEvents => exact behind.elim
  case delivererMissed | delivererContext | delivererSnapshot => exact behind.elim
  case dropoffComplete =>
    split
    · trivial
    · rw [caught_finished]; trivial
  case disconnection =>
    split
    · split <;> trivial
    · trivial
  all_goals (try split) <;> trivial

theorem answer_behind {w : Market} {x : Handler} (calls : x.call = some call)
    (found : w.threads call = some (.returned reply)) (behind : x.Behind A w) :
    (x.answer hub reply).next.Behind A w := by
  have seen : ∀ reply', reply' = reply → (∀ e, reply' ≠ .thrown e) → A.Marking call w → A.Seen w.db := by
    intro reply' same fine marking
    subst reply'
    rcases marking.thread with none | waiting | ⟨other,at_call,done⟩
    · rw [none] at found; cases found
    · rw [waiting] at found; cases found
    · rw [at_call] at found
      cases found
      exact done fine
  unfold Handler.answer
  split
  · rw [caught_finished]; trivial
  · rename_i client customerId p fine
    cases calls
    exact ⟨behind.1,seen _ rfl fine behind.2⟩
  · rename_i client userId p fine
    cases calls
    exact ⟨behind.1,seen _ rfl fine behind.2⟩
  · exact behind.elim
  · split <;> trivial
  all_goals trivial

theorem behind_start {st : Station} {x : Handler} (behind : A.Behind st) (begins : x.client = A.client → x.Behind A st.market) :
    A.Behind (st.start x) := by
  refine ⟨behind.elapsed,behind.connected,?_⟩
  intro h y found same
  rcases update_some found with ⟨_,rfl⟩ | ⟨_,before⟩
  · exact begins same
  · exact behind.handlers h y before same

theorem behind_hub {st : Station} (behind : A.Behind st) (evolves : Evolves st.hub hub) :
    A.Behind {st with hub := hub} :=
  ⟨behind.elapsed,evolves_length evolves behind.connected,behind.handlers⟩

theorem behind_go (env : Env) {st : Station} {x : Handler} {segment : Segment} (behind : A.Behind st)
    (evolves : Evolves st.hub segment.hub) (client : segment.next.Goes fun y => y.client = x.client)
    (next : x.client = A.client → segment.next.Behind A st.market) : A.Behind (st.go h segment) := by
  obtain ⟨hub,emitted,goes⟩ := segment
  have kept := behind_hub behind evolves
  cases goes with
  | finished =>
    refine ⟨kept.elapsed,kept.connected,?_⟩
    intro q y found same
    by_cases hit : q = h
    · subst q; simp [Station.go] at found
    · simp only [Station.go,Function.update_of_ne hit] at found
      exact kept.handlers q y found same
  | await z =>
    refine ⟨kept.elapsed,kept.connected,?_⟩
    intro q y found same
    rcases update_some found with ⟨_,rfl⟩ | ⟨_,before⟩
    · exact next (client.symm.trans same)
    · exact kept.handlers q y before same
  | call service z =>
    have spawned := behind_move env kept (.spawn service)
    refine ⟨spawned.elapsed,spawned.connected,?_⟩
    intro q y found same
    rcases update_some found with ⟨_,rfl⟩ | ⟨_,before⟩
    · exact next ((client _).symm.trans same)
    · exact spawned.handlers q y before same

theorem behind_caught (env : Env) {st : Station} {x : Handler} (behind : A.Behind st) :
    A.Behind (st.go h (x.caught st.hub e)) := by
  have closed : (x.caught st.hub e).next.Behind A st.market := by rw [caught_finished]; trivial
  exact behind_go env (x := x) behind caught_evolves caught_goes fun _ => closed

theorem behind_resumed {env : Env} {st : Station} (behind : A.Behind st) (found : st.handlers h = some x) :
    A.Behind (st.resumed env h x).1 := by
  have own := behind.handlers h x found
  unfold Station.resumed
  split
  · rename_i call calls
    split
    · rename_i reply at_call
      exact behind_go env behind answer_evolves answer_client fun same => answer_behind calls at_call (own same)
    · exact behind
  · split
    · split
      · rename_i db ran
        have changed := behind_rows behind (ongoing_startJobOfAnyoneTx _ _ ran)
        dsimp only
        refine behind_go env changed answer_evolves answer_client fun _ => ?_
        exact trivial
      · dsimp only
        exact behind_caught env behind
    · exact behind_go env behind resume_evolves resume_client fun same => resume_behind behind.elapsed (own same)

theorem behind_station {env : Env} {st : Station} (behind : A.Behind st) (m : StationMove) :
    A.Behind (st.move env m).1 := by
  cases m with
  | market m => exact behind_move env behind m
  | connect space token =>
    refine behind_start (behind_hub behind (.accept .refl)) ?_
    intro same
    have fresh := behind.connected
    cases space <;> exact absurd same (Nat.ne_of_gt fresh)
  | leave client => exact behind_hub behind (.close .refl)
  | disconnect client =>
    simp only [Station.move]
    split
    · exact behind_start (behind_hub behind (.notice .refl)) fun _ => trivial
    · exact behind
  | message client m =>
    simp only [Station.move]
    split
    · split
      · rename_i c _ _ x handles
        refine behind_start behind fun _ => ?_
        split at handles
        · cases m <;> cases space : c.space <;> rw [space] at handles <;> cases handles <;> trivial
        · cases handles
      · exact behind
    · exact behind
  | resume h =>
    simp only [Station.move]
    split
    · rename_i x found
      exact behind_resumed behind found
    · exact behind
  | fail h =>
    simp only [Station.move]
    split
    · exact behind_caught env behind
    · exact behind

theorem recent_emission {st : Station} (behind : A.Behind st) (sends : st.Sends e) :
    A.Recent (e.replayTo A.client) := by
  cases sends with
  | notice note =>
    unfold Emission.replayTo
    split
    · rename_i replays
      cases replays
    · exact recent_nil
  | handler found emits =>
    cases emits with
    | replay =>
      unfold Emission.replayTo
      dsimp only
      split
      · rename_i same
        exact behind.handlers _ _ found same
      · exact recent_nil
    | delivererReplay =>
      unfold Emission.replayTo
      dsimp only
      split
      · rename_i same
        exact (behind.handlers _ _ found same).elim
      · exact recent_nil
    | _ => exact recent_nil

theorem recent_run (env : Env) {st : Station} (behind : A.Behind st) (moves : List StationMove) :
    A.Recent (replayed A.client (st.run env moves).2) := by
  induction moves generalizing st with
  | nil => exact recent_nil
  | cons m rest ih =>
    intro e member
    unfold replayed Station.run at member
    rw [List.flatMap_append] at member
    rcases List.mem_append.mp member with first | later
    · obtain ⟨sent,emitted,listed⟩ := List.mem_flatMap.mp first
      obtain ⟨emission,made,rfl⟩ := List.mem_map.mp emitted
      exact recent_emission behind (sends_of_move made) e listed
    · exact ih (behind_station behind m) e later

-- The entries from `n` on carry times up to now.
def Dated (n : Nat) (v : Database) : Prop :=
  ∀ i event, n ≤ i → v.rows .eventLog i = some event → event.createdAt ≤ v.clock

theorem dated_later (dated : Dated n v) (later : Later v v') : Dated n v' := by
  intro i event above found
  cases later with
  | tick => exact Nat.le_trans (dated i event above found) (Nat.le_add_right _ _)
  | ongoing changed =>
    rw [changed.clock]
    by_cases early : i < v.seq .eventLog
    · rw [changed.kept i early] at found; exact dated i event above found
    · exact Nat.le_of_eq (changed.added i event (by omega) found)

theorem dated_run {env : Env} {st : Station} (dated : Dated n st.market.db) (moves : List StationMove) :
    Dated n (st.run env moves).1.market.db := by
  induction moves generalizing st with
  | nil => exact dated
  | cons m rest ih => exact ih (dated_later dated (station_later env st m))

theorem behind_connect (env : Env) (userId : Nat) {st : Station} (party : Party) (wired : st.Wired) (dated : Dated n₀ st.market.db) :
    Absence.Behind ⟨st.hub.clients.length,userId,n₀,st.market.db.seq .eventLog,st.market.db.clock⟩
      (st.move env (.connect party.space (.payload userId party.role))).1 := by
  refine ⟨⟨Nat.le_refl _,Nat.le_refl _,fun i event above _ found => dated i event above found⟩,?_,?_⟩
  · simp [Station.move,Station.start,Hub.accept]
  · intro h x found same
    rcases update_some found with ⟨_,rfl⟩ | ⟨_,before⟩
    · cases party <;> rfl
    · exact absurd same (Nat.ne_of_lt (wired h x before))

theorem missed_between (member : e ∈ missedEvents party userId left back) :
    left.seq .eventLog ≤ e.1 ∧ e.1 < back.seq .eventLog := by
  obtain ⟨found,hit⟩ := back.mem_matching.mp member
  exact ⟨(of_decide_eq_true hit).1,back.below found⟩

-- From `left`, in particular where the last disconnect has been handled, to `back`,
-- where the user connects again: what is replayed was logged after the return, so
-- the replay is complete exactly when nothing was missed.
theorem replay_complete_iff {env : Env} {start left back : Station} (party : Party) (userId : Nat)
    (opening : start.Opening) (path : Station.Reached env start left) (away : List StationMove)
    (at_back : (left.run env away).1 = back) (after : List StationMove) :
    Complete (missedEvents party userId left.market.db back.market.db)
      (replayed back.hub.clients.length
        (back.run env (.connect party.space (.payload userId party.role)::after)).2) ↔
      missedEvents party userId left.market.db back.market.db = [] := by
  subst at_back
  have wired := wired_run env (wired_reached opening path) away
  have nothing : Dated (left.market.db.seq .eventLog) left.market.db := by
    intro i event above found
    rw [left.market.db.bounded .eventLog i above] at found; cases found
  have behind := behind_connect env userId party wired (dated_run nothing away)
  have recent := recent_run env behind after
  have none : (replayed (left.run env away).1.hub.clients.length
      ((left.run env away).1.run env (.connect party.space (.payload userId party.role)::after)).2).filter
      (fun e => (missedEvents party userId left.market.db (left.run env away).1.market.db).any fun m => m.1 = e.1) = [] := by
    refine List.filter_eq_nil_iff.mpr ?_
    intro e listed missed
    obtain ⟨m,member,same⟩ := List.any_eq_true.mp missed
    have between := missed_between member
    rw [of_decide_eq_true same] at between
    exact recent e listed between
  unfold Complete
  rw [none]
  exact eq_comm

-- A customer places an order, connects and leaves; the vendor accepts it; the customer comes back.
def leaving : List StationMove :=
  (ask (.createOrder ⟨[],none,some 0,some 0,none,none⟩ 0 0) 0 3).map .market ++
  [.connect .customer (.payload 0 .customer),.resume 0,.market (.step 1 fun _ => none)] ++ List.replicate 7 (.resume 0) ++
  [.leave 0,.disconnect 0,.resume 1,.market (.step 2 fun _ => none),.resume 1]

def absent : List StationMove :=
  .market (.tick 1)::(ask (.vendorDecide .vendorAcceptOrder 0 1) 3 6).map .market ++ [.market (.tick 1)]

def returning : List StationMove := [.resume 2,.market (.step 4 fun _ => none)] ++ List.replicate 7 (.resume 2)

theorem replay_complete_iff_returning :
    Complete (missedEvents .customer 0 (atMorning.run village leaving).1.market.db
        ((atMorning.run village leaving).1.run village absent).1.market.db)
      (replayed ((atMorning.run village leaving).1.run village absent).1.hub.clients.length
        (((atMorning.run village leaving).1.run village absent).1.run village
          (.connect Party.customer.space (.payload 0 Party.customer.role)::returning)).2) ↔
      missedEvents .customer 0 (atMorning.run village leaving).1.market.db
        ((atMorning.run village leaving).1.run village absent).1.market.db = [] :=
  replay_complete_iff .customer 0 opening_atMorning (Station.reached_run .refl leaving (by decide +kernel)) absent rfl
    returning

-- The disconnect has been handled, the accept is committed while the customer is
-- away, and the handler of the next connection ends without a replay.
theorem accepted_not_replayed :
    ∃ left away after, Station.Reached village atMorning left ∧
      (left.market.db.rows .user 0).any (fun u => u.isOnline = false) = true ∧ (left.handlers 1).isNone = true ∧
      ((left.run village (away ++ .connect .customer (.payload 0 .customer)::after)).1.handlers 2).isNone = true ∧
      ¬Complete (missedEvents .customer 0 left.market.db (left.run village away).1.market.db)
        (replayed 1 ((left.run village away).1.run village (.connect .customer (.payload 0 .customer)::after)).2) := by
  refine ⟨_,absent,returning,Station.reached_run .refl leaving (by decide +kernel),by decide +kernel,by decide +kernel,
    by decide +kernel,?_⟩
  have missed : (missedEvents .customer 0 (atMorning.run village leaving).1.market.db
      ((atMorning.run village leaving).1.run village absent).1.market.db).length = 1 := by decide +kernel
  have replay : (replayed 1 (((atMorning.run village leaving).1.run village absent).1.run village
      (.connect .customer (.payload 0 .customer)::returning)).2).length = 0 := by decide +kernel
  intro complete
  rw [List.length_eq_zero_iff] at replay
  unfold Complete at complete
  rw [replay] at complete
  rw [← complete] at missed
  cases missed

end MesyafMarket
