import Mathlib.Data.List.Induction
import Mathlib.Data.List.Infix
import MesyafMarket.Dispatch.Duties
import MesyafMarket.Stations

namespace MesyafMarket
open Relational Sockets ReconnectService DelivererAssignmentService DelivererService DelivererRecoveryService

-- ASSIGNED or IN_PROGRESS.
def IsActive (v : Database) (d j : Nat) : Prop :=
  (v.rows .deliveryJob j).any fun job => job.delivererId = some d ∧ job.status ∈ [.assigned,.inProgress]

instance : Decidable (IsActive v d j) := inferInstanceAs (Decidable (_ = true))

theorem move_announces {env : Env} {w : Market} (m : MarketMove)
    (found : (w.move (market env) m).threads p = some y) (announces : y.duty = some (.announce d j)) (admitted : Admitted w m) :
    w.threads p = some y ∨ IsActive (w.move (market env) m).db d j := by
  rcases thread_parts (market env) w m found with before | ⟨x,_,flows⟩ | ⟨_,_,spawned | ⟨task,_,worker⟩⟩
  · exact .inl before
  · obtain ⟨_,_,same,job,at_job,own,status⟩ := flows_duty flows announces
    cases same
    refine .inr ?_
    unfold IsActive
    rw [at_job]
    exact decide_eq_true ⟨own,by rw [status]; decide⟩
  · subst spawned
    cases admitted <;> cases announces
  · subst worker
    cases task <;> cases announces

-- Each move of a run is admitted where it is made.
def Station.Admits (env : Env) (st : Station) (moves : List StationMove) : Prop :=
  ∀ xs m, xs ++ [m] <+: moves → m.Admitted (st.run env xs).1

theorem admits_early {env : Env} {st : Station} (admits : st.Admits env moves) (early : xs <+: moves) :
    st.Admits env xs := fun ys m before => admits ys m (before.trans early)

theorem resume_service {env : Env} {x : Handler} (calls : (x.resume env v hub).next = .call service y) :
    service.duty ≠ some (.announce d j) := by
  cases x <;> simp only [Handler.resume] at calls
  case dropoffComplete =>
    split at calls
    · cases calls; simp [Proc.duty]
    · rw [caught_finished] at calls; cases calls
  case disconnection =>
    split at calls
    · split at calls
      · cases calls; simp [Proc.duty]
      · cases calls
    · cases calls
  all_goals (try split at calls) <;> cases calls <;> simp [Proc.duty]

theorem answer_service {x : Handler} (calls : (x.answer hub reply).next = .call service y) :
    service.duty ≠ some (.announce d j) := by
  unfold Handler.answer at calls
  split at calls
  · rw [caught_finished] at calls; cases calls
  · cases calls
  · cases calls
  · cases calls
  · split at calls <;> cases calls
    exact nofun
  all_goals cases calls

theorem station_announces {env : Env} {st : Station} (m : StationMove) (admitted : m.Admitted st)
    (found : (st.move env m).1.market.threads p = some y) (announces : y.duty = some (.announce d j)) :
    st.market.threads p = some y ∨ IsActive (st.move env m).1.market.db d j := by
  cases m with
  | market m => exact move_announces m found announces admitted
  | connect | leave => exact .inl found
  | disconnect client =>
    simp only [Station.move] at found
    split at found <;> exact .inl found
  | message client m =>
    simp only [Station.move] at found
    split at found
    · split at found <;> exact .inl found
    · exact .inl found
  | fail h =>
    left
    simp only [Station.move] at found
    split at found
    · rcases go_threads found with before | ⟨_,calls⟩
      · exact before
      · rw [caught_finished] at calls; cases calls
    · exact found
  | resume h =>
    left
    simp only [Station.move] at found
    split at found
    · unfold Station.resumed at found
      split at found
      · split at found
        · rcases go_threads found with before | ⟨_,calls⟩
          · exact before
          · exact absurd announces (answer_service calls)
        · exact found
      · split at found
        · split at found
          · dsimp only at found
            rcases go_threads found with before | ⟨_,calls⟩
            · exact before
            · cases calls
          · dsimp only at found
            rcases go_threads found with before | ⟨_,calls⟩
            · exact before
            · rw [caught_finished] at calls; cases calls
        · rcases go_threads found with before | ⟨_,calls⟩
          · exact before
          · exact absurd announces (resume_service calls)
    · exact found

-- The job was an active job of the deliverer at some point of the run.
def Station.Held (env : Env) (st : Station) (moves : List StationMove) (d j : Nat) : Prop :=
  ∃ xs, xs <+: moves ∧ IsActive (st.run env xs).1.market.db d j

theorem held_onward {env : Env} {st : Station} (held : st.Held env xs d j) (early : xs <+: moves) :
    st.Held env moves d j := by
  obtain ⟨ys,before,active⟩ := held
  exact ⟨ys,before.trans early,active⟩

theorem announced_held {env : Env} {start : Station} (opening : start.Opening) (admits : start.Admits env moves)
    (found : (start.run env moves).1.market.threads p = some y) (announces : y.duty = some (.announce d j)) :
    start.Held env moves d j := by
  induction moves using List.reverseRecOn with
  | nil => rw [Station.run,opening.threads p] at found; cases found
  | append_singleton xs m ih =>
    have early : xs <+: xs ++ [m] := List.prefix_append xs [m]
    rw [station_snoc] at found
    rcases station_announces m (admits xs m List.prefix_rfl) found announces with before | active
    · exact held_onward (ih (admits_early admits early) before) early
    · exact ⟨xs ++ [m],List.prefix_rfl,by rw [station_snoc]; exact active⟩

def Message.assigns (d j : Nat) : Message → Bool
  | notice (.jobAssigned delivererId jobId _ _) => delivererId = d ∧ jobId = j
  | _ => false

def Message.names (d j : Nat) : Message → Bool
  | delivererContext delivererId (some context) => delivererId = d ∧ context.jobId = j
  | _ => false

def Sent (log : List (Emission × List Nat)) (what : Message → Bool) : Prop := ∃ sent ∈ log, what sent.1.message = true

def Receives (client : Nat) (log : List (Emission × List Nat)) (what : Message → Bool) : Prop :=
  ∃ sent ∈ log, what sent.1.message = true ∧ client ∈ sent.2

theorem assigned_sent {env : Env} {st : Station} (sent : e ∈ (st.move env m).2) (assigns : e.message.assigns d j = true) :
    (∃ p y, st.market.threads p = some y ∧ y.duty = some (.announce d j)) ∧ e.target = .room .deliverer (.deliverer d) ∧
      ∃ p i, m = .market (.step p i) := by
  cases m with
  | market m =>
    simp only [Station.move,Station.notices] at sent
    split at sent
    · rename_i p i
      split at sent
      · rename_i x at_p
        split at sent
        · rename_i note y at_emit
          obtain rfl := List.mem_singleton.mp sent
          cases note <;> try (cases assigns)
          obtain ⟨rfl,rfl⟩ := of_decide_eq_true assigns
          refine ⟨⟨p,x,at_p,?_⟩,rfl,p,i,rfl⟩
          cases x <;> simp only [Proc.next,reduceCtorEq] at at_emit
          case notifyAssigned => cases at_emit; rfl
          case notifyCustomers | requeue => split at at_emit <;> cases at_emit
          all_goals cases at_emit
        · cases sent
      · cases sent
    · cases sent
  | _ =>
    obtain ⟨_,_,_,emits⟩ := handler_sends (fun _ same => by cases same) sent
    cases emits <;> cases assigns

-- The socket is closed, or in the room of its deliverer.
def InRoom (hub : Clients) (client d : Nat) : Prop :=
  ∃ c, hub.clients[client]? = some c ∧ c.space = .deliverer ∧ (c.link = .connected → .deliverer d ∈ c.rooms)

theorem inRoom_evolves (inRoom : InRoom hub s d) (evolves : Evolves hub hub') : InRoom hub' s d := by
  obtain ⟨c,found,space,joined⟩ := inRoom
  obtain ⟨c',found',onward⟩ := evolves_onward evolves found
  exact ⟨c',found',onward.space.trans space,fun connected => onward.rooms connected (joined (onward.link connected))⟩

theorem inRoom_join (hub : Clients) (at_client : hub.clients[s]? = some c) (space : c.space = .deliverer) :
    InRoom (hub.join s (.deliverer d)) s d := by
  refine ⟨{c with rooms := .deliverer d::c.rooms},?_,space,fun _ => List.mem_cons_self⟩
  simp [Hub.join,Hub.change,at_client]

theorem inRoom_hears (inRoom : InRoom hub s d) (connected : hub.isOpen s = true) :
    s ∈ hub.audience Space.deliverer (.deliverer d) := by
  obtain ⟨c,found,space,joined⟩ := inRoom
  have link : c.link = .connected := by
    unfold Hub.isOpen at connected
    rw [found] at connected
    exact of_decide_eq_true connected
  exact Hub.mem_audience.mpr ⟨c,found,space,link,joined link⟩

theorem open_before {hub hub' : Clients} (evolves : Evolves hub hub') (within : s < hub.clients.length)
    (connected : hub'.isOpen s = true) : hub.isOpen s = true := by
  have found := List.getElem?_eq_getElem within
  obtain ⟨c',found',onward⟩ := evolves_onward evolves found
  unfold Hub.isOpen at connected ⊢
  rw [found'] at connected
  rw [found]
  exact decide_eq_true (onward.link (of_decide_eq_true connected))

-- A run in which the user of a deliverer connects after `past`.
structure Connection where
  env : Env
  start : Station
  past : List StationMove
  userId : Nat

namespace Connection
variable (K : Connection)

-- The number of the socket, and of the handler that handleConnection is.
def client : Nat := (K.start.run K.env K.past).1.hub.clients.length
def handler : Nat := (K.start.run K.env K.past).1.started

def moves (xs : List StationMove) : List StationMove :=
  K.past ++ .connect .deliverer (.payload K.userId .deliverer)::xs

def after (xs : List StationMove) : Station := (K.start.run K.env (K.moves xs)).1

def log (xs : List StationMove) : List (Emission × List Nat) := (K.start.run K.env (K.moves xs)).2

-- handleConnection has found the profile of the user.
def Found (xs : List StationMove) (d : Nat) : Prop :=
  ∃ ys, ys <+: xs ∧ (delivererByUser (K.after ys).market.db K.userId).map Prod.fst = some d

-- The read of the context is the next thing that handleConnection does.
structure Reads (before : List StationMove) (d : Nat) : Prop where
  handler : ∃ missed, (K.after before).handlers K.handler = some (.delivererContext K.client d missed)
  found : K.Found before d
  joined : InRoom (K.after before).hub K.client d

def Read (xs : List StationMove) (d : Nat) (context : Option DelivererContext) : Prop :=
  ∃ before after, xs = before ++ .resume K.handler::after ∧ K.Reads before d ∧
    context = getDelivererContext K.env (K.after before).market.db d

-- How far handleConnection has come.
inductive Phase (xs : List StationMove) : Option Handler → Prop where
  | connection : Phase xs (some (.delivererConnection K.client (.payload K.userId .deliverer)))
  | profile : Phase xs (some (.delivererProfile K.client K.userId))
  | lastSeen (found : K.Found xs d) : Phase xs (some (.delivererLastSeen K.client K.userId d))
  | events (found : K.Found xs d) : Phase xs (some (.delivererEvents K.client K.userId d jobId since))
  | missed (found : K.Found xs d) : Phase xs (some (.delivererMissed K.client K.userId d missedEvents))
  | online (found : K.Found xs d) : Phase xs (some (.delivererOnline K.client K.userId d missedEvents call))
  | context (found : K.Found xs d) (joined : InRoom (K.after xs).hub K.client d) :
      Phase xs (some (.delivererContext K.client d missedEvents))
  | snapshot (read : K.Read xs d context) : Phase xs (some (.delivererSnapshot K.client d missedEvents context))
  | closed (left : (K.after xs).hub.isOpen K.client = false) : Phase xs none
  | told (read : K.Read xs d context)
      (sent : ∃ sent ∈ K.log xs, sent.1.message = .delivererContext d context ∧ K.client ∈ sent.2) :
      Phase xs none

structure Trail (xs : List StationMove) : Prop where
  begun : K.handler < (K.after xs).started
  socket : ∃ c, (K.after xs).hub.clients[K.client]? = some c ∧ c.space = .deliverer
  phase : K.Phase xs ((K.after xs).handlers K.handler)

variable {K : Connection}

theorem found_onward (found : K.Found xs d) (early : xs <+: ys) : K.Found ys d := by
  obtain ⟨zs,before,profile⟩ := found
  exact ⟨zs,before.trans early,profile⟩

theorem read_onward (read : K.Read xs d context) (early : xs <+: ys) : K.Read ys d context := by
  obtain ⟨zs,rfl⟩ := early
  obtain ⟨before,after,rfl,reads,same⟩ := read
  exact ⟨before,after ++ zs,by simp,reads,same⟩

theorem moves_append (xs ys : List StationMove) : K.moves (xs ++ ys) = K.moves xs ++ ys := by simp [moves]

theorem after_append (xs ys : List StationMove) : K.after (xs ++ ys) = ((K.after xs).run K.env ys).1 := by
  unfold Connection.after
  rw [moves_append,station_append]

theorem after_snoc (xs : List StationMove) (m : StationMove) : K.after (xs ++ [m]) = ((K.after xs).move K.env m).1 :=
  after_append xs [m]

theorem log_append (xs ys : List StationMove) : K.log (xs ++ ys) = K.log xs ++ ((K.after xs).run K.env ys).2 := by
  unfold log Connection.after
  rw [moves_append,station_append]

theorem phase_kept (phase : K.Phase xs x) (evolves : Evolves (K.after xs).hub (K.after (xs ++ [m])).hub)
    (within : K.client < (K.after xs).hub.clients.length) : K.Phase (xs ++ [m]) x := by
  have early : xs <+: xs ++ [m] := List.prefix_append xs [m]
  cases phase with
  | connection => exact .connection
  | profile => exact .profile
  | lastSeen found => exact .lastSeen (found_onward found early)
  | events found => exact .events (found_onward found early)
  | missed found => exact .missed (found_onward found early)
  | online found => exact .online (found_onward found early)
  | context found joined => exact .context (found_onward found early) (inRoom_evolves joined evolves)
  | snapshot read => exact .snapshot (read_onward read early)
  | closed left =>
    refine .closed ?_
    by_contra stays
    have opened := open_before evolves within (by simpa using stays)
    rw [left] at opened
    cases opened
  | told read sent =>
    obtain ⟨one,member,told⟩ := sent
    refine .told (read_onward read early) ⟨one,?_,told⟩
    rw [log_append]
    exact List.mem_append_left _ member

theorem phase_caught (hub : Clients) (phase : K.Phase xs (some x)) : (x.caught hub e).hub = hub.close K.client := by
  cases phase <;> rfl

theorem phase_closed (hub : Clients) (gone : (K.after (xs ++ [m])).handlers K.handler = none)
    (closed : (K.after (xs ++ [m])).hub = hub.close K.client) :
    K.Phase (xs ++ [m]) ((K.after (xs ++ [m])).handlers K.handler) := by
  rw [gone]
  refine .closed ?_
  rw [closed]
  exact Hub.close_shut hub

theorem phase_failed (phase : K.Phase xs (some x)) (found : (K.after xs).handlers K.handler = some x) :
    K.Phase (xs ++ [.fail K.handler]) ((K.after (xs ++ [.fail K.handler])).handlers K.handler) := by
  have goes := fail_move K.env found
  refine phase_closed (K.after xs).hub ?_ ?_
  · rw [after_snoc,goes,go_handler,caught_finished]; rfl
  · rw [after_snoc,goes,go_hub,phase_caught _ phase]

theorem phase_answered (phase : K.Phase xs (some (.delivererOnline s u d missed call)))
    (found : (K.after xs).handlers K.handler = some (.delivererOnline s u d missed call))
    (socket : ∃ c, (K.after xs).hub.clients[K.client]? = some c ∧ c.space = .deliverer) :
    K.Phase (xs ++ [.resume K.handler]) ((K.after (xs ++ [.resume K.handler])).handlers K.handler) := by
  have early : xs <+: xs ++ [.resume K.handler] := List.prefix_append xs _
  have moved := after_snoc (K := K) xs (.resume K.handler)
  simp only [Station.move,found,Station.resumed,Handler.call] at moved
  split at moved
  · rename_i reply at_call
    cases phase with
    | online profile =>
      cases reply with
      | thrown e =>
        refine phase_closed (K.after xs).hub ?_ ?_
        · rw [moved,go_handler]; rfl
        · rw [moved,go_hub]; rfl
      | done | order | jobCompleted =>
        have goes : (K.after (xs ++ [.resume K.handler])).handlers K.handler =
            some (.delivererContext K.client d missed) := by rw [moved,go_handler]; rfl
        rw [goes]
        refine .context (found_onward profile early) ?_
        rw [moved,go_hub]
        obtain ⟨c,at_client,space⟩ := socket
        obtain ⟨c',at_client',onward⟩ := evolves_onward (.identify .refl) at_client
        exact inRoom_join _ at_client' (onward.space.trans space)
  · rw [show (K.after (xs ++ [.resume K.handler])).handlers K.handler = some _ by rw [moved]; exact found]
    have within : K.client < (K.after xs).hub.clients.length := by
      obtain ⟨c,at_client,_⟩ := socket
      exact (List.getElem?_eq_some_iff.mp at_client).1
    refine phase_kept phase ?_ within
    rw [moved]
    exact .refl

theorem phase_resumed (phase : K.Phase xs (some x)) (found : (K.after xs).handlers K.handler = some x)
    (socket : ∃ c, (K.after xs).hub.clients[K.client]? = some c ∧ c.space = .deliverer) :
    K.Phase (xs ++ [.resume K.handler]) ((K.after (xs ++ [.resume K.handler])).handlers K.handler) := by
  have early : xs <+: xs ++ [.resume K.handler] := List.prefix_append xs _
  have goes : ∀ segment, (K.after (xs ++ [.resume K.handler])) = (K.after xs).go K.handler segment →
      (K.after (xs ++ [.resume K.handler])).handlers K.handler = segment.next.handler (K.after xs).market.spawned ∧
      (K.after (xs ++ [.resume K.handler])).hub = segment.hub := by
    intro segment moved
    rw [moved]
    exact ⟨go_handler,go_hub⟩
  by_cases calls : x.call = none
  · have filtered : ∀ client jobId, x ≠ .startingUnfiltered client jobId := by
      intro client jobId same
      subst same
      cases phase
    have moved := resume_move K.env found calls filtered
    obtain ⟨next,hub⟩ := goes _ ((after_snoc xs _).trans (congrArg Prod.fst moved))
    have emitted : ∀ e ∈ (x.resume K.env (K.after xs).market.db (K.after xs).hub).emitted,
        (e,e.recipients (K.after (xs ++ [.resume K.handler])).hub) ∈ K.log (xs ++ [.resume K.handler]) := by
      intro e member
      rw [log_append]
      refine List.mem_append_right _ (mem_log.mpr ⟨[],_,[],rfl,e,?_,?_⟩)
      · rw [Station.run,moved]; exact member
      · rw [after_snoc]; rfl
    cases phase with
    | connection => rw [next]; exact .profile
    | profile =>
      simp only [Handler.resume] at next hub
      split at next
      · rename_i deliverer profile
        rw [next]
        exact .lastSeen ⟨xs,early,by rw [profile]; rfl⟩
      · rename_i unknown
        rw [unknown] at hub
        exact phase_closed _ next hub
    | lastSeen profile =>
      simp only [Handler.resume] at next
      split at next
      · rw [next]; exact .events (found_onward profile early)
      · rw [next]; exact .missed (found_onward profile early)
    | events profile => rw [next]; exact .missed (found_onward profile early)
    | missed profile => rw [next]; exact .online (found_onward profile early)
    | online => cases calls
    | context profile joined =>
      rw [next]
      exact .snapshot ⟨xs,[],rfl,⟨⟨_,found⟩,profile,joined⟩,rfl⟩
    | snapshot read =>
      have closed : (K.after (xs ++ [.resume K.handler])).handlers K.handler = none := by rw [next]; rfl
      rw [closed]
      cases opened : (K.after (xs ++ [.resume K.handler])).hub.isOpen K.client with
      | false => exact .closed opened
      | true =>
        refine .told (read_onward read early) ⟨_,emitted _ List.mem_cons_self,rfl,?_⟩
        unfold Emission.recipients
        simp [opened]
  · cases phase with
    | online profile => exact phase_answered (.online profile) found socket
    | _ => exact absurd rfl calls

theorem trail_step (trail : K.Trail xs) (m : StationMove) : K.Trail (xs ++ [m]) := by
  obtain ⟨begun,⟨c,at_client,space⟩,phase⟩ := trail
  have evolves : Evolves (K.after xs).hub (K.after (xs ++ [m])).hub := by
    rw [after_snoc]; exact move_evolves K.env (K.after xs) m
  obtain ⟨c',at_client',onward⟩ := evolves_onward evolves at_client
  refine ⟨?_,⟨c',at_client',onward.space.trans space⟩,?_⟩
  · rw [after_snoc]; exact Nat.lt_of_lt_of_le begun (started_grows K.env _ m)
  · have within := (List.getElem?_eq_some_iff.mp at_client).1
    cases found : (K.after xs).handlers K.handler with
    | none =>
      rw [found] at phase
      have still : (K.after (xs ++ [m])).handlers K.handler = none := by
        rw [after_snoc,← found]
        by_cases own : m = .resume K.handler ∨ m = .fail K.handler
        · rcases own with same | same <;> (subst same; simp only [Station.move,found])
        · exact handler_kept K.env begun (not_or.mp own)
      rw [still]
      exact phase_kept phase evolves within
    | some x =>
      rw [found] at phase
      by_cases resumes : m = .resume K.handler
      · subst resumes; exact phase_resumed phase found ⟨c,at_client,space⟩
      · by_cases fails : m = .fail K.handler
        · subst fails; exact phase_failed phase found
        · have still : (K.after (xs ++ [m])).handlers K.handler = some x := by
            rw [after_snoc,← found]
            exact handler_kept K.env begun ⟨resumes,fails⟩
          rw [still]
          exact phase_kept phase evolves within

theorem trail_begin : K.Trail [] := by
  have begun : K.after [] = ((K.start.run K.env K.past).1.move K.env
      (.connect .deliverer (.payload K.userId .deliverer))).1 := station_snoc K.env K.start K.past _
  refine ⟨?_,?_,?_⟩
  · rw [begun]; exact Nat.lt_succ_self _
  · rw [begun]; exact ⟨_,Hub.accept_new _,rfl⟩
  · rw [begun,show (((K.start.run K.env K.past).1.move K.env
      (.connect .deliverer (.payload K.userId .deliverer))).1.handlers K.handler) = _ from Function.update_self ..]
    exact .connection

theorem trail_run (xs : List StationMove) : K.Trail xs := by
  induction xs using List.reverseRecOn with
  | nil => exact trail_begin
  | append_singleton xs m ih => exact trail_step ih m

-- From the read on an open socket hears whatever its deliverer's room is sent.
theorem read_hears (xs ys : List StationMove) (reads : K.Reads before d) (connected : (K.after (before ++ xs ++ ys)).hub.isOpen K.client = true) :
    K.client ∈ (K.after (before ++ xs)).hub.audience Space.deliverer (.deliverer d) := by
  have later : Evolves (K.after before).hub (K.after (before ++ xs)).hub := by
    rw [after_append]; exact run_evolves ..
  have last : Evolves (K.after (before ++ xs)).hub (K.after (before ++ xs ++ ys)).hub := by
    rw [after_append (before ++ xs)]; exact run_evolves ..
  obtain ⟨c,at_client,_⟩ := (trail_run (K := K) (before ++ xs)).socket
  have within := (List.getElem?_eq_some_iff.mp at_client).1
  exact inRoom_hears (inRoom_evolves reads.joined later) (open_before last within connected)

end Connection

-- Two active jobs of one deliverer are one job.
def SingleJob (v : Database) (d : Nat) : Prop := ∀ i j, IsActive v d i → IsActive v d j → i = j

theorem context_names (env : Env) {v : Database} (single : SingleJob v d) (active : IsActive v d j) :
    ∃ context, getDelivererContext env v d = some context ∧ context.jobId = j := by
  obtain ⟨job,at_job,hit⟩ := (Option.any_eq_true _ _).mp active
  have listed : (j,job) ∈ env.scan v (v.matching .deliveryJob fun _ (job : DeliveryJob) =>
      job.delivererId = some d ∧ job.status ∈ [.assigned,.inProgress]) :=
    (env.scan_perm v _).mem_iff.mpr (v.mem_matching.mpr ⟨at_job,hit⟩)
  unfold getDelivererContext
  cases first : (env.scan v (v.matching .deliveryJob fun _ (job : DeliveryJob) =>
      job.delivererId = some d ∧ job.status ∈ [.assigned,.inProgress])).head? with
  | none => rw [List.head?_eq_none_iff.mp first] at listed; cases listed
  | some row =>
    refine ⟨_,rfl,?_⟩
    obtain ⟨found,own⟩ := v.mem_matching.mp ((env.scan_perm v _).mem_iff.mp (List.mem_of_head? first))
    refine single row.1 j ?_ active
    unfold IsActive
    rw [found]
    exact own

namespace Connection
variable {K : Connection}

-- A job:assigned is sent before the read, while its process still has to announce
-- the job, or after it, to the room that the socket has joined.
theorem announced_before (opening : K.start.Opening) (admits : K.start.Admits K.env (K.moves xs))
    (sent : Sent (K.log xs) (Message.assigns d j)) : K.start.Held K.env (K.moves xs) d j := by
  obtain ⟨one,member,assigns⟩ := sent
  obtain ⟨ys,m,zs,split,e,made,rfl⟩ := mem_log.mp member
  obtain ⟨⟨p,y,at_p,announces⟩,_⟩ := assigned_sent made assigns
  have early : ys <+: K.moves xs := by rw [split]; exact List.prefix_append _ _
  exact held_onward (announced_held opening (admits_early admits early) at_p announces) early

theorem announced_after (reads : K.Reads before d)
    (connected : (K.after (before ++ rest)).hub.isOpen K.client = true)
    (sent : Sent ((K.after before).run K.env rest).2 (Message.assigns d j)) :
    Receives K.client (K.log (before ++ rest)) (Message.assigns d j) := by
  obtain ⟨one,member,assigns⟩ := sent
  refine ⟨one,by rw [log_append]; exact List.mem_append_right _ member,assigns,?_⟩
  obtain ⟨xs,m,ys,split,e,made,rfl⟩ := mem_log.mp member
  obtain ⟨_,target,_⟩ := assigned_sent made assigns
  have hears := read_hears (xs ++ [m]) ys reads (by rw [split] at connected; simpa using connected)
  rw [← List.append_assoc,after_snoc,after_append] at hears
  unfold Emission.recipients
  rw [target]
  exact hears

end Connection

-- handleConnection ends, and the socket stays open to the end of the run: it has
-- read the context of the user's deliverer d, and every job assigned to d was told
-- to the socket, by job:assigned or in its session.context, or had stopped being an
-- active job of d before the read.
theorem assignment_received (K : Connection) (future : List StationMove) (opening : K.start.Opening)
    (admits : K.start.Admits K.env (K.moves future)) (closed : (K.after future).handlers K.handler = none)
    (connected : (K.after future).hub.isOpen K.client = true) :
    ∃ before rest d, future = before ++ .resume K.handler::rest ∧ K.Reads before d ∧
      (SingleJob (K.after before).market.db d → ∀ j,
        Sent (K.log future) (Message.assigns d j) ∨ K.start.Held K.env (K.moves before) d j →
        Receives K.client (K.log future) (Message.assigns d j) ∨ Receives K.client (K.log future) (Message.names d j) ∨
          (K.start.Held K.env (K.moves before) d j ∧ ¬IsActive (K.after before).market.db d j)) := by
  have phase := (Connection.trail_run (K := K) future).phase
  rw [closed] at phase
  cases phase with
  | closed left => rw [left] at connected; cases connected
  | told read told =>
    rename_i d context
    obtain ⟨before,rest,rfl,reads,rfl⟩ := read
    refine ⟨before,rest,d,rfl,reads,?_⟩
    intro single j assigned
    have told_or : K.start.Held K.env (K.moves before) d j →
        Receives K.client (K.log (before ++ .resume K.handler::rest)) (Message.names d j) ∨
          (K.start.Held K.env (K.moves before) d j ∧ ¬IsActive (K.after before).market.db d j) := by
      intro held
      by_cases active : IsActive (K.after before).market.db d j
      · left
        obtain ⟨context,read,names⟩ := context_names K.env single active
        obtain ⟨one,member,same,received⟩ := told
        refine ⟨one,member,?_,received⟩
        rw [same,read]
        exact decide_eq_true ⟨rfl,names⟩
      · exact .inr ⟨held,active⟩
    rcases assigned with ⟨one,member,assigns⟩ | held
    · rw [Connection.log_append] at member
      rcases List.mem_append.mp member with early | late
      · refine .inr (told_or (Connection.announced_before opening (admits_early admits ?_) ⟨one,early,assigns⟩))
        rw [Connection.moves_append]
        exact List.prefix_append _ _
      · exact .inl (Connection.announced_after reads connected ⟨one,late,assigns⟩)
    · exact .inr (told_or held)

-- A worker is about to commit the assignment of a batch, and its deliverer connects.
def arriving : Connection where
  env := village
  start := atMorning
  past := ((ask (.createOrder ⟨[],none,some 0,some 0,none,none⟩ 0 0) 0 3 ++ ask (.vendorMarkReady 0 1) 1 5 ++
    .work 0::steps 2 2 ++ .work 0::steps 3 4) : List MarketMove).map .market
  userId := 2

def arrival : List StationMove :=
  List.replicate 4 (.resume 0) ++ [.market (.step 4 fun _ => none),.resume 0]

-- The worker commits between the read and the end of handleConnection.
def assignedMeanwhile : List StationMove := arrival ++ [.resume 0,.market (.step 3 fun _ => none),.resume 0]

theorem admits_all {env : Env} {st : Station} (entries : moves.all StationMove.enters = true) : st.Admits env moves := by
  intro xs m early
  have member : m ∈ moves := early.subset (List.mem_append_right _ (List.mem_singleton.mpr rfl))
  have enters := List.all_eq_true.mp entries m member
  cases m with
  | market m =>
    have admitted : Admitted (st.run env xs).1.market m := enters_admitted enters
    exact admitted
  | _ => exact trivial

theorem assignment_received_meanwhile :
    ∃ before rest d, assignedMeanwhile ++ [.market (.step 3 fun _ => none)] = before ++ .resume arriving.handler::rest ∧
      arriving.Reads before d ∧ (SingleJob (arriving.after before).market.db d → ∀ j,
        Sent (arriving.log (assignedMeanwhile ++ [.market (.step 3 fun _ => none)])) (Message.assigns d j) ∨
          arriving.start.Held arriving.env (arriving.moves before) d j →
        Receives arriving.client (arriving.log (assignedMeanwhile ++ [.market (.step 3 fun _ => none)])) (Message.assigns d j) ∨
          Receives arriving.client (arriving.log (assignedMeanwhile ++ [.market (.step 3 fun _ => none)])) (Message.names d j) ∨
          (arriving.start.Held arriving.env (arriving.moves before) d j ∧
            ¬IsActive (arriving.after before).market.db d j)) :=
  assignment_received arriving (assignedMeanwhile ++ [.market (.step 3 fun _ => none)]) opening_atMorning
    (admits_all (by decide +kernel)) (Option.isNone_iff_eq_none.mp (by decide +kernel)) (by decide +kernel)

-- The socket is open at the end of handleConnection, and gone when the worker comes
-- to send job:assigned.
theorem assignment_unheard :
    ∃ (K : Connection) (before rest later : List StationMove) (d j : Nat), K.start.Opening ∧
      K.start.Admits K.env (K.moves (before ++ .resume K.handler::rest ++ later)) ∧
      ((K.after (before ++ .resume K.handler::rest)).handlers K.handler).isNone = true ∧
      (K.after (before ++ .resume K.handler::rest)).hub.isOpen K.client = true ∧
      (∃ missed, (K.after before).handlers K.handler = some (.delivererContext K.client d missed)) ∧
      SingleJob (K.after before).market.db d ∧
      Sent (K.log (before ++ .resume K.handler::rest ++ later)) (Message.assigns d j) ∧
      ¬Receives K.client (K.log (before ++ .resume K.handler::rest ++ later)) (Message.assigns d j) ∧
      ¬Receives K.client (K.log (before ++ .resume K.handler::rest ++ later)) (Message.names d j) ∧
      ¬K.start.Held K.env (K.moves before) d j := by
  refine ⟨arriving,arrival,[.market (.step 3 fun _ => none),.resume 0],[.leave 0,.market (.step 3 fun _ => none)],0,0,
    opening_atMorning,admits_all (by decide +kernel),by decide +kernel,by decide +kernel,⟨[],?_⟩,?_,?_,?_,?_,?_⟩
  · rfl
  · have empty : (arriving.after arrival).market.db.seq .deliveryJob = 0 := by decide +kernel
    intro i j active _
    unfold IsActive at active
    rw [(arriving.after arrival).market.db.bounded Tab.deliveryJob i (by omega)] at active
    cases active
  · unfold Sent; decide +kernel
  · unfold Receives; decide +kernel
  · unfold Receives; decide +kernel
  · have never : ∀ xs ∈ (arriving.moves arrival).inits, ¬IsActive (arriving.start.run arriving.env xs).1.market.db 0 0 := by
      decide +kernel
    intro held
    obtain ⟨xs,early,active⟩ := held
    exact never xs ((List.mem_inits _ _).mpr early) active

end MesyafMarket
