import MesyafMarket.AtomicDispatch

namespace MesyafMarket
open Relational DelivererRecoveryService

-- What a sweep that has `s` still to handle knows of its job, on the board.
def Stale (s : StaleDeliverer) (B : Board) : Prop :=
  ∀ job, s.job = some job → ∃ t, B.job s.jobId = some t ∧ t.batchId = job.batchId ∧ t.status ≠ .pending ∧
    (t.status = .assigned → t.delivererId = some s.id)

theorem stale_board : StillHolds s c ↔ Stale s c.board := by
  refine forall_congr' fun job => imp_congr_right fun _ => ?_
  constructor
  · rintro ⟨new,found,known⟩
    exact ⟨new.errand,board_job found,known⟩
  · rintro ⟨t,found,known⟩
    obtain ⟨new,at_job,rfl⟩ := Option.map_eq_some_iff.mp found
    exact ⟨new,at_job,known⟩

theorem stale_step {B B' : Board} (agreed : B.Agreed) (step : B.Step deed B') (fair : deed.Fair B)
    (other : ∀ j d b, deed = .recovers j d b → d ≠ s.id) (known : Stale s B) : Stale s B' := by
  intro job snapshot
  obtain ⟨t,found,batch,started,own⟩ := known job snapshot
  have still : ∀ j new, j ≠ s.jobId → ∃ t, Function.update B.job j (some new) s.jobId = some t ∧ t.batchId = job.batchId ∧
      t.status ≠ .pending ∧ (t.status = .assigned → t.delivererId = some s.id) :=
    fun j new apart => ⟨t,(Function.update_of_ne (Ne.symm apart) ..).trans found,batch,started,own⟩
  cases step with
  | opens | closes | hires | nothing => exact ⟨t,found,batch,started,own⟩
  | @assigns b d j at_batch free first =>
    -- The job of an unclaimed batch is waiting, this one is not.
    have apart : j ≠ s.jobId := by
      rintro rfl
      rcases first with ⟨old,at_job,same⟩ | ⟨none,_⟩
      · cases found.symm.trans at_job
        rw [← same] at at_batch
        exact started (agreed_waiting agreed found at_batch)
      · cases found.symm.trans none
    exact still j _ apart
  | @starts j b d at_job =>
    by_cases same : j = s.jobId
    · subst same
      cases found.symm.trans at_job
      exact ⟨⟨b,.inProgress,some d⟩,Function.update_self ..,batch,by simp,by simp⟩
    · exact still j _ same
  | @finishes j b d k i at_job =>
    by_cases same : j = s.jobId
    · subst same
      cases found.symm.trans at_job
      exact ⟨⟨b,.completed,some d⟩,Function.update_self ..,batch,by simp,by simp⟩
    · exact still j _ same
  | @recovers j b' e b k d i at_job =>
    -- Two deliverers of one snapshot do not hold the same job.
    have apart : j ≠ s.jobId := by
      rintro rfl
      cases found.symm.trans at_job
      obtain ⟨held,_⟩ := fair _ found rfl
      exact other _ d b rfl (Option.some.inj (held.symm.trans (own rfl)))
    exact still j _ apart

theorem stale_of (known : stillHolds.Of x now c) (member : s ∈ x.pending) : Stale s c.board :=
  stale_board.mp (known.stale s member)

-- A recovery takes the job from the one whom the sweep saw with it.
theorem fair_commit (did : Does x y deed) (known : stillHolds.Of x now c) : deed.Fair c.board := by
  cases did with
  | @recovers s job rest =>
    intro t at_job assigned
    obtain ⟨t',at_job',batch,_,own⟩ := stale_of known List.mem_cons_self job known.formed.1
    cases at_job.symm.trans at_job'
    exact ⟨own assigned,batch⟩
  | _ => trivial

section Threads
variable {env : Env} {s : MarketSessions} {m : MarketAct}

-- Where the state of a thread comes from.
inductive Came (env : Env) (s : MarketSessions) (m : MarketAct) (q : Nat) : Proc → Prop where
  | stayed (found : s.sys.threads q = some a) (same : a.state = y) : Came env s m q y
  | carried (found : s.sys.threads q = some a) (carries : Carries a.state y) : Came env s m q y
  | query {read : Database → Proc} (found : s.sys.threads q = some a) (at_query : Proc.next env a.state = .query read) :
      Came env s m q (read s.sys.db)
  | spawned (last : q = s.sys.spawned) (made : m = .spawn y) : Came env s m q y
  | worker (last : q = s.sys.spawned) (task : QueueJob) : Came env s m q ((market env).worker task)

theorem came_advanced (valid : s.Disciplined posting (market env)) (inside : Advanced (market env).caught s.sys p sys)
    (found : sys.threads q = some a) : Came env s (.step p i) q a.state := by
  cases inside with
  | @exec x txn effect next at_p at_stmt free =>
    rcases update_some found with ⟨rfl,rfl⟩ | ⟨_,before⟩
    · exact .stayed at_p rfl
    · exact .stayed before rfl
  | @commit x txn y at_p at_ret =>
    rcases update_some found with ⟨rfl,rfl⟩ | ⟨_,before⟩
    · have ended : s.ended (.step q i) = some (x,y) := by simp only [Sessions.ended,at_p,at_ret]
      exact .carried at_p (commit_deed valid ended).1
    · exact .stayed before rfl
  | @rollback x txn e at_p at_throw =>
    rcases update_some found with ⟨rfl,rfl⟩ | ⟨_,before⟩
    · exact .carried at_p (carries_caught x e)
    · exact .stayed before rfl

theorem came_step (valid : s.Disciplined posting (market env)) (found : (s.step (market env) p i).sys.threads q = some a) :
    Came env s (.step p i) q a.state := by
  have parts := step_parts (market env) s p i
  generalize s.step (market env) p i = next at parts found
  cases parts with
  | waits => exact .stayed found rfl
  | query at_p at_query =>
    rcases update_some found with ⟨rfl,rfl⟩ | ⟨_,before⟩
    · exact .query at_p at_query
    · exact .stayed before rfl
  | opens at_p =>
    rcases update_some found with ⟨rfl,rfl⟩ | ⟨_,before⟩
    · exact .stayed at_p rfl
    · exact .stayed before rfl
  | input at_p at_input =>
    rcases update_some found with ⟨rfl,rfl⟩ | ⟨_,before⟩
    · exact .carried at_p (carries_input at_input)
    · exact .stayed before rfl
  | add at_p at_add =>
    rcases update_some found with ⟨rfl,rfl⟩ | ⟨_,before⟩
    · exact .carried at_p (carries_add at_add)
    · exact .stayed before rfl
  | emit at_p at_emit =>
    rcases update_some found with ⟨rfl,rfl⟩ | ⟨_,before⟩
    · exact .carried at_p (carries_emit at_emit)
    · exact .stayed before rfl
  | advanced inside => exact came_advanced valid inside found

theorem came_move (valid : s.Disciplined posting (market env)) (found : (s.move (market env) m).sys.threads q = some a) :
    Came env s m q a.state := by
  cases m with
  | spawn x =>
    rcases update_some found with ⟨rfl,rfl⟩ | ⟨_,before⟩
    · exact .spawned rfl rfl
    · exact .stayed before rfl
  | work n =>
    unfold Sessions.move at found
    dsimp only at found
    split at found
    · rename_i task _
      rcases update_some found with ⟨rfl,rfl⟩ | ⟨_,before⟩
      · exact .worker rfl task
      · exact .stayed before rfl
    · exact .stayed found rfl
  | lose n => exact .stayed found rfl
  | duplicate n =>
    unfold Sessions.move at found
    dsimp only at found
    split at found <;> exact .stayed found rfl
  | step p i => exact came_step valid found
  | fail p =>
    unfold Sessions.move at found
    dsimp only at found
    split at found
    · rename_i old at_p
      rcases update_some found with ⟨rfl,rfl⟩ | ⟨_,before⟩
      · exact .carried at_p (carries_caught old.state _)
      · exact .stayed before rfl
    · exact .stayed found rfl
  | stop p =>
    have before : s.sys.threads q = some a := by
      by_cases same : q = p
      · subst same
        cases (Function.update_self ..).symm.trans found
      · exact (Function.update_of_ne same ..).symm.trans found
    exact .stayed before rfl
  | clock now => exact .stayed found rfl

end Threads

-- A sweep starts while no other one runs.
def SweepsAlone (s : MarketSessions) : MarketAct → Bool
  | .spawn x => decide (x.kind ≠ .sweep) || (List.range s.sys.spawned).all fun q =>
      (s.sys.threads q).all fun a => decide (a.state.kind ≠ .sweep)
  | _ => true

-- What the board says of itself, and what the threads know of it.
structure Overseen (s : MarketSessions) : Prop where
  agreed : (dispatch s.sys.db).board.Agreed
  known : ∀ q a, s.sys.threads q = some a → ∀ now, stillHolds.Of a.state now (dispatch s.sys.db)
  alone : ∀ q q' a a', s.sys.threads q = some a → s.sys.threads q' = some a' → a.state.kind = .sweep →
    a'.state.kind = .sweep → q = q'

section Threads
variable {env : Env} {s : MarketSessions} {m : MarketAct}

theorem came_sweep (came : Came env s m q x) (sweep : x.kind = .sweep) :
    (∃ a, s.sys.threads q = some a ∧ a.state.kind = .sweep) ∨ (q = s.sys.spawned ∧ m = .spawn x) := by
  have onward : ∀ a : Proc, x.kind = .request ∨ x.kind = a.kind → a.kind = .sweep := by
    intro a kind
    rw [sweep] at kind
    rcases kind with no | same
    · cases no
    · exact same.symm
  cases came with
  | stayed found same => exact .inl ⟨_,found,same ▸ sweep⟩
  | carried found carries => exact .inl ⟨_,found,onward _ carries.kind⟩
  | query found at_query => exact .inl ⟨_,found,onward _ (queried_kind (queried at_query _))⟩
  | spawned last made => exact .inr ⟨last,made⟩
  | worker last task => cases task <;> cases sweep

theorem sweeps_alone (quiet : SweepsAlone s (.spawn x) = true) (sweep : x.kind = .sweep) (found : s.sys.threads q = some a) :
    a.state.kind ≠ .sweep := by
  simp only [SweepsAlone,sweep,ne_eq,not_true_eq_false,decide_false,Bool.false_or,List.all_eq_true,List.mem_range] at quiet
  simpa [found] using quiet q (s.sys.below found)

theorem alone_move (valid : s.Disciplined posting (market env)) (quiet : SweepsAlone s m = true) (overseen : Overseen s)
    (found : (s.move (market env) m).sys.threads q = some a) (found' : (s.move (market env) m).sys.threads q' = some a')
    (sweep : a.state.kind = .sweep) (sweep' : a'.state.kind = .sweep) : q = q' := by
  rcases came_sweep (came_move valid found) sweep with ⟨b,at_q,before⟩ | ⟨last,made⟩
  · rcases came_sweep (came_move valid found') sweep' with ⟨b',at_q',before'⟩ | ⟨_,made'⟩
    · exact overseen.alone q q' b b' at_q at_q' before before'
    · subst made'
      exact absurd before (sweeps_alone quiet sweep' at_q)
  · rcases came_sweep (came_move valid found') sweep' with ⟨b',at_q',before'⟩ | ⟨last',_⟩
    · subst made
      exact absurd before' (sweeps_alone quiet sweep at_q')
    · exact last.trans last'.symm

-- What a thread knows after the move, of the rows before it.
theorem known_move (valid : s.Disciplined posting (market env)) (timely : Timely s m = true) (overseen : Overseen s)
    (found : (s.move (market env) m).sys.threads q = some a) (now : Nat) : stillHolds.Of a.state now (dispatch s.sys.db) := by
  have came := came_move valid found
  generalize a.state = x at came
  cases came with
  | stayed found same => exact same ▸ overseen.known _ _ found now
  | carried found carries => exact facts_carried (overseen.known _ _ found now) carries
  | query found at_query =>
    exact facts_queried (overseen.known _ _ found now) at_query (fun _ => snapshot_held (held_agreed overseen.agreed))
      (fun _ _ _ _ => trivial) fun _ _ => trivial
  | spawned _ made =>
    subst made
    simp only [Timely,Bool.and_eq_true] at timely
    exact facts_fresh (fresh_entry (isEntry_entry timely.1.1))
  | worker _ task => exact facts_fresh (fresh_worker task)

theorem overseen_move (valid : s.Disciplined posting (market env)) (timely : Timely s m = true)
    (quiet : SweepsAlone s m = true) (overseen : Overseen s) : Overseen (s.move (market env) m) := by
  have alone : ∀ q q' a a', (s.move (market env) m).sys.threads q = some a → (s.move (market env) m).sys.threads q' = some a' →
      a.state.kind = .sweep → a'.state.kind = .sweep → q = q' :=
    fun _ _ _ _ found found' => alone_move valid quiet overseen found found'
  cases ended : s.ended m with
  | none =>
    refine ⟨?_,?_,alone⟩
    · rw [board_still ended]
      exact overseen.agreed
    · intro q a found now
      rw [board_still ended]
      exact known_move valid timely overseen found now
  | some e =>
    obtain ⟨x,y⟩ := e
    obtain ⟨_,deed,did,step⟩ := commit_deed valid ended
    obtain ⟨p,i,txn,rfl,at_p,at_ret⟩ := ended_parts ended
    have own := overseen.known p _ at_p 0
    have fair := fair_commit did own
    have after : (s.move (market env) (.step p i)).sys.threads p = some (.idle y) := by
      show (s.step (market env) p i).sys.threads p = _
      rw [step_commits at_p at_ret]
      exact Function.update_self ..
    refine ⟨agreed_step overseen.agreed step fair,?_,alone⟩
    intro q a found now
    have before := known_move valid timely overseen found now
    refine ⟨before.formed,before.apart,fun d member => ?_,fun _ _ _ => trivial,fun _ _ => trivial⟩
    refine stale_board.mpr (stale_step overseen.agreed step fair ?_ (stale_of before member))
    -- Only one sweep runs, so `d` waits in the list of the sweep that has recovered.
    rintro j e b rfl
    cases did with
    | recovers =>
      cases alone q p a _ found after (pending_sweep _ member) rfl
      cases found.symm.trans after
      have nodup := own.apart
      simp only [Thread.state,Proc.pending,List.map_cons,List.nodup_cons] at nodup
      exact fun same => nodup.1 (same ▸ List.mem_map_of_mem member)

end Threads

-- Before the first delivery: nobody has a job in hand and no batch is claimed.
structure Unassigned (db : Database) : Prop where
  undelivered : Undelivered db
  free : ∀ d p, db.rows .delivererProfile d = some p → p.activeJobId = none
  unclaimed : ∀ b k, db.rows .deliveryBatch b = some k → k.delivererId = none

section Runs
variable {env : Env} {db : Database}

theorem agreed_unassigned (unassigned : Unassigned db) : (dispatch db).board.Agreed := by
  have none : ∀ j t, (dispatch db).board.job j ≠ some t := by
    intro j t found
    obtain ⟨job,at_job,_⟩ := Option.map_eq_some_iff.mp found
    cases (unassigned.undelivered.job j).symm.trans at_job
  refine ⟨fun i j s t found => absurd found (none i s),fun j t found => absurd found (none j t),?_,?_⟩
  · intro d j held
    obtain ⟨p,at_deliverer,same⟩ := Option.map_eq_some_iff.mp held
    cases (unassigned.free d p at_deliverer).symm.trans same
  · intro b k found _
    obtain ⟨row,at_batch,same⟩ := Option.map_eq_some_iff.mp found
    cases same
    exact unassigned.unclaimed b row at_batch

theorem overseen_run (unassigned : Unassigned db) (moves : List MarketAct)
    (allowed : ∀ made ∈ (Sessions.open db).trace (market env) moves, (Timely made.1 made.2 && SweepsAlone made.1 made.2) = true) :
    Overseen ((Sessions.open db).run (market env) moves) := by
  induction moves using List.reverseRecOn with
  | nil =>
    refine ⟨agreed_unassigned unassigned,?_,?_⟩
    · intro q a no
      cases no
    · intro q q' a a' no
      cases no
  | append_singleton moves m ih =>
    rw [sessions_trace_snoc] at allowed
    have before := fun made member => allowed made (List.mem_append_left _ member)
    have last := allowed _ (List.mem_append_right _ (List.mem_singleton.mpr rfl))
    rw [Bool.and_eq_true] at last
    have timely := fun made member => (Bool.and_eq_true _ _ ▸ before made member : _ ∧ _).1
    have reached := disciplined_run (market_atomic env) (posting_open unassigned.undelivered) moves timely
    rw [sessions_run_snoc]
    exact overseen_move reached last.1 last.2 (ih before)

-- Who delivers what is settled at every moment of such a run, also while the statements
-- of several assignments, completions and a recovery are under way.
theorem exclusive_throughout (unassigned : Unassigned db) (moves : List MarketAct)
    (allowed : ∀ made ∈ (Sessions.open db).trace (market env) moves, (Timely made.1 made.2 && SweepsAlone made.1 made.2) = true) :
    Exclusive (dispatch ((Sessions.open db).run (market env) moves).sys.db) :=
  exclusive_agreed (overseen_run unassigned moves allowed).agreed

end Runs

theorem unassigned_meal : Unassigned meal := by
  refine ⟨undelivered_meal,?_,fun b k no => by cases no⟩
  intro d p found
  have member : p ∈ mealRows .delivererProfile := List.mem_of_getElem? found
  simp only [mealRows,villageRows,List.mem_cons,List.not_mem_nil,or_false] at member
  rcases member with rfl | rfl <;> rfl

-- Deliverer 0 has the job and is gone; a sweep takes it back and assigns it to
-- deliverer 1, who was seen meanwhile.
def reassigned : List MarketAct :=
  assignedMeal ++ [.clock 121000,.spawn (.markPresence .heartbeat 3)] ++ goesOn 3 4 ++ [.spawn .checkDeliverers] ++ goesOn 4 30

theorem exclusive_throughout_reassigned :
    ((dispatch ((Sessions.open meal).run (market village) assignedMeal).sys.db).job 0).map DeliveryJob.delivererId = some (some 0) ∧
      ((dispatch ((Sessions.open meal).run (market village) reassigned).sys.db).job 0).map DeliveryJob.delivererId = some (some 1) ∧
      Exclusive (dispatch ((Sessions.open meal).run (market village) reassigned).sys.db) := by
  have checked : (((Sessions.open meal).trace (market village) reassigned).all fun made =>
      Timely made.1 made.2 && SweepsAlone made.1 made.2) = true := by decide +kernel
  refine ⟨by decide +kernel,by decide +kernel,?_⟩
  exact exclusive_throughout unassigned_meal reassigned fun made member => List.all_eq_true.mp checked made member

end MesyafMarket
