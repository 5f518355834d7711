import MesyafMarket.EventLogGrowth
import MesyafMarket.LockOrder
import MesyafMarket.TimelineStatus
import MesyafMarket.Dispatch.Handover

namespace MesyafMarket
open Relational OrderService DelivererAssignmentService DelivererJobService DelivererRecoveryService

section Bodies
variable {env : Env} {x y : Proc} {h : List MarketLock} {w : Writes Row} {db : Database}

-- What a transaction has done that is about to commit: nothing to any job, or all
-- that it did to one.
inductive Left (x y : Proc) (h : List MarketLock) (w : Writes Row) (db : Database) : Prop where
  | aloof (foot : Footprint (fun _ => False) h w db) (undropped : x.dropsOff = none)
  | owner (about : Private j P) (owning : Owning j b P h w db)
      (leaves : ∀ a c, Linked Tight a → Tallied a → P a c → Leaves x y j a c)

theorem left_commits (left : Left x y h w db) (onward : Proceeds x y) : tallying.Commits locking x y h w db := by
  cases left with
  | aloof foot undropped => exact aloof_commits foot onward.carries onward.plainly undropped
  | owner about owning leaves => exact owning_commits about owning onward.carries onward.plainly leaves

theorem keeps_left {t : Transaction α} {f : α → Proc} (undropped : x.dropsOff = none)
    (keeps : t.Keeps completion x (fun _ => Footprint fun _ => False) [] .none db) :
    (t >>= fun a => pure (f a)).Keeps completion x (Left x) [] .none db :=
  keeps_bind (keeps_mono (fun _ _ _ _ foot => .aloof foot undropped) keeps)

theorem keeps_other {t : Transaction α} {f : α → Proc} (undropped : x.dropsOff = none) (within : Confined Outside t) :
    (t >>= fun a => pure (f a)).Keeps completion x (Left x) [] .none db :=
  keeps_left undropped (keeps_aloof within (by simp [Outside]) (by simp [Outside]) (by simp [Outside]) footprint_start)

theorem keeps_owner {t : Transaction α} {f : α → Proc} (keeps : t.Keeps completion x (fun a => Left x (f a)) [] .none db) :
    (t >>= fun a => pure (f a)).Keeps completion x (Left x) [] .none db := keeps_bind keeps

theorem left_body {body : Transaction Proc} {now : Nat} {c : Dispatch} (tallies : Tallies x now c) (at_tx : Proc.next env x = .tx body) :
    body.Keeps completion x (Left x) [] .none db := by
  cases x <;> simp only [Proc.next,reduceCtorEq] at at_tx
  case insertOrder => cases at_tx; exact keeps_left rfl keeps_createOrderTx
  case claimReady => cases at_tx; exact keeps_left rfl keeps_vendorMarkReadyTx
  case closeBatch => cases at_tx; exact keeps_other rfl (confined_updateMany (by simp [Outside]))
  case updateDecided => cases tallies.delivers
  case recordEvent => cases at_tx; exact keeps_other rfl (confined_create (by simp [Outside]))
  case projectEvent =>
    cases at_tx
    exact keeps_other rfl (confined_projectEvent (by simp [Outside]) (by simp [Outside]))
  case assign b orders d caller =>
    cases at_tx
    refine keeps_owner (keeps_mono ?_ (keeps_assignTx (tallies.stocked.orders b orders rfl)
      fun now c knows => knows.remembered.orders b orders rfl))
    exact fun j h w db owning => .owner stopping_private owning fun a c _ tallied stopping => stopping_leaves stopping tallied rfl
  case startJob j d =>
    cases at_tx
    refine keeps_owner (keeps_mono ?_ keeps_startJobTx)
    rintro _ h w db ⟨b,owning⟩
    exact .owner unstarted_private owning fun a c _ tallied started => unstarted_leaves started tallied (by decide) rfl
  case completeDropOff j s d =>
    cases at_tx
    refine keeps_owner (keeps_mono ?_ (keeps_completeDropOffTx rfl))
    rintro completed h w db ⟨b,owning⟩
    refine .owner dropped_private owning fun a c _ tallied dropped => dropped_leaves dropped tallied rfl ?_
    cases completed <;> rfl
  case completeJob => cases tallies.drops
  case writeLocation => cases at_tx; exact keeps_other rfl (confined_update (by simp [Outside]))
  case recoverUnstartedJob d job rest =>
    cases at_tx
    refine keeps_owner (keeps_mono ?_ keeps_recoverTx)
    rintro _ h w db ⟨b,owning⟩
    exact .owner unstarted_private owning fun a c _ tallied taken => unstarted_leaves taken tallied (by decide) rfl
  case writeProfile => cases at_tx; exact keeps_other rfl (confined_update (by simp [Outside]))
  case markPresence => cases at_tx; exact keeps_other rfl (confined_updateUser (by simp [Outside]))
  case deleteProfile => cases tallies.delivers
  case demote => cases at_tx; exact keeps_other rfl (confined_updateUser (by simp [Outside]))
  case promote => cases at_tx; exact keeps_other rfl (confined_updateUser (by simp [Outside]))
  case createProfile => cases at_tx; exact keeps_other rfl (confined_createProfileTx (by simp [Outside]))
  case notifyCustomers => split at at_tx <;> cases at_tx
  case requeue => split at at_tx <;> cases at_tx

theorem unfinished_plainly (plainly : x.Plainly) : x.finishes = false := by
  have uncompleted := plainly.job
  cases x <;> first | rfl | cases uncompleted

end Bodies

-- Jobs are completed by their stops; no request calls completeJob.
def ByStops (s : MarketSessions) : MarketAct → Bool
  | .spawn x => Timely s (.spawn x) && !x.finishes
  | _ => true

theorem timely_byStops {s : MarketSessions} {m : MarketAct} (allowed : ByStops s m = true) : Timely s m = true := by
  cases m with
  | spawn x => exact (Bool.and_eq_true_iff.mp allowed).1
  | _ => rfl

theorem market_tallies (env : Env) : (market env).Overlays locking tallying fun s m => ByStops s m = true where
  spawn s x allowed := by
    obtain ⟨timely,drops⟩ := Bool.and_eq_true_iff.mp allowed
    obtain ⟨other,_⟩ := Bool.and_eq_true_iff.mp timely
    obtain ⟨entry,delivers⟩ := Bool.and_eq_true_iff.mp other
    exact ⟨facts_fresh (fresh_entry (isEntry_entry entry)),delivers,by simpa using drops⟩
  query x v read known at_query := by
    have plainly := plainly_query at_query known.delivers v
    refine ⟨?_,plainly.delivers,unfinished_plainly plainly⟩
    exact facts_queried known.stocked at_query (fun _ _ => trivial) (fun _ _ _ _ => List.cons_ne_nil _ _) fun _ _ => trivial
  input x db read i known at_input := tallies_carried known (carries_input at_input) (plainly_input at_input)
  add x db task y known at_add := by
    refine ⟨tallies_carried known (carries_add at_add) (plainly_add at_add),facts_fresh (fresh_worker task),?_,?_⟩
    all_goals cases task <;> rfl
  emit x db note y known at_emit := tallies_carried known (carries_emit at_emit) (plainly_emit at_emit)
  caught x db e known := tallies_carried known (carries_caught x e) (plainly_caught x e)
  body x T db body inv known at_tx :=
    keeps_mono (fun _ _ _ _ both => left_commits both.1 both.2)
      (keeps_gives (left_body known.2 at_tx) (proceeds_body known.2.delivers at_tx))

theorem market_completes (env : Env) : (market env).Follows completion fun s m => ByStops s m = true :=
  follows_over (market_locks env) (market_tallies env) fun _ _ => timely_byStops

theorem tallied_undelivered (undelivered : Undelivered db) : Tallied (dispatch db) := by
  intro j
  refine ⟨?_,?_,?_,?_⟩
  · intro job found
    cases (undelivered.job j).symm.trans found
  · intro s stop found
    cases (undelivered.stop s).symm.trans found
  · intro s stop job found
    cases (undelivered.stop s).symm.trans found
  · intro i o job found
    cases (undelivered.job j).symm.trans found

section Runs
variable {env : Env} {db : Database} (undelivered : Undelivered db) (moves : List MarketAct)
include undelivered

theorem completion_open : (Sessions.open db : MarketSessions).Disciplined completion (market env) :=
  disciplined_open ⟨⟨linked_undelivered undelivered,fun _ _ no => no.elim⟩,tallied_undelivered undelivered⟩

-- A job that has been started goes on to COMPLETED and nowhere else, with the same
-- deliverer and batch, and at any time it is COMPLETED exactly when its stops are.
theorem jobs_go_on (more : List MarketAct)
    (allowed : ∀ made ∈ (Sessions.open db).trace (market env) (moves ++ more), ByStops made.1 made.2 = true) :
    Tallied (dispatch ((Sessions.open db).run (market env) moves).sys.db) ∧
      ∀ j job, (dispatch ((Sessions.open db).run (market env) moves).sys.db).job j = some job → job.Begun →
        ∃ job', (dispatch ((Sessions.open db).run (market env) (moves ++ more)).sys.db).job j = some job' ∧ job.Onward job' := by
  rw [sessions_trace_append] at allowed
  have reached := disciplined_run (market_completes env) (completion_open undelivered) moves
    fun made member => allowed made (List.mem_append_left _ member)
  refine ⟨reached.sys.inv.2,?_⟩
  rw [sessions_run_append]
  refine kept_run (R := fun a b => ∀ j job, (dispatch a).job j = some job → job.Begun →
    ∃ job', (dispatch b).job j = some job' ∧ job.Onward job') (market_completes env) reached ?_ ?_ ?_ more
    fun made member => allowed made (List.mem_append_right _ member)
  · intro a b same
    rw [dispatch_rows same]
    exact fun j job found _ => ⟨job,found,.refl job⟩
  · intro a b c first second j job found begun
    obtain ⟨job₁,at_b,onward₁⟩ := first j job found begun
    obtain ⟨job₂,at_c,onward₂⟩ := second j job₁ at_b (onward₁.begun begun)
    exact ⟨job₂,at_c,onward₁.trans onward₂⟩
  · exact fun L a b changed => changed.2.job

-- One committed call completes a stop, and one completes the job: the rows say whether
-- it has been.
theorem completed_once (allowed : ∀ made ∈ (Sessions.open db).trace (market env) moves, ByStops made.1 made.2 = true) :
    (∀ j, ((Sessions.open db).endings (market env) moves).countP (fun e => e.1.reports e.2 = some j) =
      (jobDone (dispatch ((Sessions.open db).run (market env) moves).sys.db) j).toNat) ∧
    ∀ s, ((Sessions.open db).endings (market env) moves).countP (fun e => e.1.dropsOff = some s) =
      (stopDone (dispatch ((Sessions.open db).run (market env) moves).sys.db) s).toNat := by
  have valid : (Sessions.open db : MarketSessions).Disciplined completion (market env) := completion_open undelivered
  refine ⟨?_,?_⟩
  · intro j
    refine once_run (fun db => jobDone (dispatch db) j) (fun x y => x.reports y = some j) (market_completes env) valid
      (fun a b same => by rw [dispatch_rows same]) (fun x y a b ends => ends.2.1 j) ?_ moves allowed
    show jobDone (dispatch db) j = false
    unfold jobDone
    rw [show (dispatch db).job j = none from undelivered.job j]
    rfl
  · intro s
    refine once_run (fun db => stopDone (dispatch db) s) (fun x _ => x.dropsOff = some s) (market_completes env) valid
      (fun a b same => by rw [dispatch_rows same]) (fun x y a b ends => ends.2.2 s) ?_ moves allowed
    show stopDone (dispatch db) s = false
    unfold stopDone
    rw [show (dispatch db).stop s = none from undelivered.stop s]
    rfl

end Runs

-- The first of the two completions goes through, the second then finds the job COMPLETED.
def mealEnd : List MarketAct := goesOn 4 13 ++ goesOn 5 8

theorem byStops_meal : ∀ made ∈ (Sessions.open meal).trace (market village) (completedTwice ++ mealEnd),
    ByStops made.1 made.2 = true := by
  have checked : (((Sessions.open meal).trace (market village) (completedTwice ++ mealEnd)).all fun made =>
      ByStops made.1 made.2) = true := by decide +kernel
  exact fun made member => List.all_eq_true.mp checked made member

theorem jobs_go_on_meal : ∃ job job',
    (dispatch ((Sessions.open meal).run (market village) completedTwice).sys.db).job 0 = some job ∧
    (dispatch ((Sessions.open meal).run (market village) (completedTwice ++ mealEnd)).sys.db).job 0 = some job' ∧
    job.status = .inProgress ∧ job.Onward job' := by
  have started : ((dispatch ((Sessions.open meal).run (market village) completedTwice).sys.db).job 0).any
      (fun job => job.status = .inProgress) = true := by decide +kernel
  obtain ⟨job,found,progress⟩ := (Option.any_eq_true _ _).mp started
  have progress := of_decide_eq_true progress
  obtain ⟨job',after,onward⟩ := (jobs_go_on undelivered_meal completedTwice mealEnd byStops_meal).2 0 job found (.inl progress)
  exact ⟨job,job',found,after,progress,onward⟩

theorem completed_once_meal :
    ((Sessions.open meal).endings (market village) (completedTwice ++ mealEnd)).countP (fun e => e.1.reports e.2 = some 0) = 1 ∧
    ((Sessions.open meal).endings (market village) (completedTwice ++ mealEnd)).countP (fun e => e.1.dropsOff = some 0) = 1 := by
  have once := completed_once undelivered_meal (completedTwice ++ mealEnd) byStops_meal
  refine ⟨(once.1 0).trans ?_,(once.2 0).trans ?_⟩
  all_goals decide +kernel

end MesyafMarket
