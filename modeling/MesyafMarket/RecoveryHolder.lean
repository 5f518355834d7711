import MesyafMarket.Dispatch.Members

namespace MesyafMarket
open Relational OrderService DelivererAssignmentService DelivererJobService DelivererRecoveryService

section Claim
variable {db : Database}

theorem project_succeeds {new : Row t} {P : Nat → Row t → Bool} :
    (Tx.createUnlessPresent t P new : Transaction Nat).run db ≠ .error e := by
  unfold Tx.createUnlessPresent
  simp only [Tx.run]
  exact (fun no => by cases no)

theorem recordEvent_succeeds : (EventLogService.recordEvent params).run db ≠ .error e := by
  intro thrown
  unfold EventLogService.recordEvent at thrown
  rcases Tx.run_bind_error.mp thrown with created | ⟨event,middle,created,projected⟩
  · unfold EventLogService.createEvent at created
    rw [Tx.run_create] at created; cases created
  · unfold EventLogService.projectEvent OrderTimelineProjectionService.project
      JobTimelineProjectionService.project at projected
    have skipped : ∀ (projection : Transaction Nat), (∀ e v, projection.run v ≠ .error e) →
        (projection >>= fun _ => (return () : Transaction Unit)).run middle ≠ .error e := by
      intro projection succeeds thrown
      rcases Tx.run_bind_error.mp thrown with failed | ⟨_,_,_,ended⟩
      · exact succeeds _ _ failed
      · cases ended
    split at projected
    · split at projected
      · cases projected
      · exact skipped _ (fun _ _ => project_succeeds) projected
    · split at projected
      · cases projected
      · exact skipped _ (fun _ _ => project_succeeds) projected

-- Where deliverer, job and batch agree, the claim of a batch may find the batch
-- or the deliverer taken, but never another deliverer with the batch's job.
theorem assignTx_unique (held : Held (dispatch db)) : (assignTx b orders d).run db ≠ .error .uniqueViolation := by
  intro thrown
  unfold assignTx at thrown
  rcases Tx.run_bind_error.mp thrown with failed | ⟨j,first,upserted,thrown⟩
  · unfold upsertJob at failed
    simp only [Tx.run] at failed
    split at failed <;> cases failed
  obtain ⟨job,atFirst⟩ := upsertJob_parts upserted
  rcases Tx.run_bind_error.mp thrown with failed | ⟨updatedBatch,second,claimed,thrown⟩
  · rw [Tx.run_updateMany] at failed; cases failed
  rw [Tx.run_updateMany] at claimed
  cases claimed
  split at thrown
  · cases thrown
  rename_i claimed
  obtain ⟨i,k,found,hit⟩ := matching_length claimed
  obtain ⟨rfl,unclaimed,closed⟩ : i = b ∧ k.delivererId = none ∧ k.status = .inProgress := by simpa using hit
  have at_batch : (dispatch db).batch i = some k := by
    have same : (dispatch first).batch i = some k := found
    rw [atFirst] at same; exact same
  rcases Tx.run_bind_error.mp thrown with failed | ⟨_,third,_,thrown⟩
  · unfold claimDeliverer at failed
    simp only [Tx.run] at failed
    split at failed
    · cases failed
    split at failed
    · rename_i elsewhere
      simp only [holdsElsewhere,Bool.not_eq_true',List.isEmpty_eq_false_iff] at elsewhere
      obtain ⟨e,p,at_e,hit⟩ := matching_some elsewhere
      have holds : p.activeJobId = some j := (of_decide_eq_true hit).2
      have at_deliverer : (dispatch db).deliverer e = some p := by
        have same : (dispatch first).deliverer e = some p := by
          simpa [dispatch] using at_e
        rw [atFirst] at same; exact same
      obtain ⟨its,at_job,active,_⟩ := held.holds e p j at_deliverer holds
      rcases job with ⟨old,at_old,same⟩ | ⟨none,_⟩
      · rw [at_job] at at_old
        cases at_old
        exact active_not_pending active (unclaimed_job held at_job (by rw [same]; exact at_batch) unclaimed closed)
      · rw [at_job] at none; cases none
    · cases failed
  rcases Tx.run_bind_error.mp thrown with failed | ⟨_,_,_,thrown⟩
  · rw [Tx.run_updateMany] at failed; cases failed
  rcases Tx.run_bind_error.mp thrown with failed | ⟨_,_,_,thrown⟩
  · rw [Tx.run_deleteMany] at failed; cases failed
  rcases Tx.run_bind_error.mp thrown with failed | ⟨_,_,_,thrown⟩
  · rw [Tx.run_createMany] at failed; cases failed
  rcases Tx.run_bind_error.mp thrown with failed | ⟨_,_,_,ended⟩
  · exact recordEvent_succeeds failed
  · cases ended

end Claim

-- What a sweep that has still to recover `s` may rely on: its job belongs to the
-- same batch and is held by `s` until it is started, and `s` has not been seen.
structure Unseen (s : StaleDeliverer) (now : Nat) (c : Dispatch) : Prop where
  job : ∀ job, s.job = some job → job.status = .assigned → ∃ new, c.job s.jobId = some new ∧
    new.batchId = job.batchId ∧ (new.status = .assigned → new.delivererId = some s.id)
  profile : ∃ p, c.deliverer s.id = some p ∧ p.userId = s.userId
  seen : ∀ job, s.job = some job → job.status = .assigned →
    ∃ u, c.user s.userId = some u ∧ u.lastSeenAt = some s.lastSeenAt
  old : s.lastSeenAt+DELIVERER_GRACE_MS < now

theorem unseen_read {env : Env} {v : Database} (held : Held (dispatch v)) (member : s ∈ staleDeliverers env v) :
    Unseen s v.clock (dispatch v) := by
  obtain ⟨p,u,at_deliverer,active,user,at_user,last,old,same⟩ := staleDeliverer_parts member
  refine ⟨?_,⟨p,at_deliverer,user⟩,fun _ _ _ => ⟨u,at_user,last⟩,old⟩
  obtain ⟨job,at_job,_,own⟩ := held.holds _ _ _ at_deliverer active
  intro job' snapshot _
  rw [same,at_job] at snapshot
  cases snapshot
  exact ⟨job,at_job,rfl,fun _ => own⟩

theorem unseen_commit (known : Unseen s now c) (commit : Committed now x c y c')
    (unassigned : ∀ b orders d caller job, x = .assign b orders d caller → s.job = some job →
      job.status = .assigned → job.batchId ≠ b)
    (unmarked : ∀ presence userId job, x = .markPresence presence userId → s.job = some job →
      job.status = .assigned → s.userId ≠ userId)
    (kept : ∀ userId, x ≠ .deleteProfile userId) : Unseen s now c' := by
  refine ⟨?_,?_,?_,known.old⟩
  · intro job snapshot unstarted
    obtain ⟨new,found,same,own⟩ := known.job job snapshot unstarted
    obtain ⟨later,after,again⟩ := job_kept commit found
    refine ⟨later,after,again.trans same,?_⟩
    have change := job_change commit after
    rw [found] at change
    cases change with
    | kept => exact own
    | assigned _ _ _ first =>
      exact absurd (same.symm.trans (first new rfl)) (unassigned _ _ _ _ job rfl snapshot unstarted)
    | started => exact nofun
    | completed => exact nofun
    | recovered => exact nofun
    | forgotten => exact absurd rfl (kept _)
  · obtain ⟨p,found,user⟩ := known.profile
    obtain ⟨p',after,same⟩ := deliverer_kept commit kept found
    exact ⟨p',after,same.trans user⟩
  · intro job snapshot unstarted
    obtain ⟨u,found,last⟩ := known.seen job snapshot unstarted
    obtain ⟨u',after,same | ⟨⟨presence,marks⟩,_⟩⟩ := user_kept commit found
    · exact ⟨u',after,same.trans last⟩
    · exact absurd rfl (unmarked presence _ job marks snapshot unstarted)

-- Some sweep has still to recover `s` from a job that was not started.
def Awaited (w : Market) (s : StaleDeliverer) (job : DeliveryJob) : Prop :=
  ∃ p x, w.threads p = some x ∧ s ∈ x.pending ∧ s.job = some job ∧ job.status = .assigned

-- While a sweep has still to recover a deliverer, the job's batch is not assigned
-- anew, and the deliverer is not seen again.
structure Recovering (env : Env) (w : Market) (m : MarketMove) : Prop where
  admitted : Admitted w m
  unremoved : Unremoved w m
  unassigned : ∀ b orders d caller s job, commits env w m = some (.assign b orders d caller) →
    Awaited w s job → job.batchId ≠ b
  unmarked : ∀ presence userId s job, commits env w m = some (.markPresence presence userId) →
    Awaited w s job → s.userId ≠ userId

def unseen : LocalFacts := ⟨Unseen,fun _ _ _ => True,fun _ _ => True⟩

theorem recovers_of_unseen (known : unseen.Of x now c) : RecoversHolder x c := by
  intro s snapshot rest same job found unstarted
  subst x
  obtain ⟨seen,ready⟩ := known.formed
  obtain ⟨new,at_job,batch,own⟩ := (known.stale s List.mem_cons_self).job snapshot seen ready
  rw [found] at at_job
  cases at_job
  exact ⟨own unstarted,batch⟩

theorem recovered_unstarted (commit : Committed now (.recoverUnstartedJob s snapshot rest) c y c')
    (found : c.job s.jobId = some job) : job.status = .assigned := by
  cases commit with
  | recoverUnstartedJob _ at_job unstarted =>
    rw [found] at at_job
    cases at_job
    exact unstarted

theorem kept_unseen (env : Env) :
    Kept env (fun c => Jobs c ∧ Held c) unseen fun w m => Recovering env w m ∧
      ∀ p x, w.threads p = some x → x.kind ≠ .removal where
  admitted _ _ allowed := allowed.1.admitted
  later _ _ _ _ known := ⟨known.job,known.profile,known.seen,Nat.lt_of_lt_of_le known.old (Nat.le_add_right _ _)⟩
  snapshot _ _ valid member := unseen_read valid.2 member
  read _ _ _ := trivial
  available _ _ _ := trivial
  commit w p i x y c valid found allowed hit commit := by
    refine ⟨jobs_commit valid.inv.1 commit,held_commit valid.inv.1 valid.inv.2 commit ?_ ?_⟩
    · exact recovers_of_unseen (valid.fact p x found)
    · intro userId same
      exact allowed.2 p x found (by rw [same]; rfl)
  stale w p i x y c valid found allowed hit commit q z s atQ member own known := by
    refine unseen_commit known commit ?_ ?_ ?_
    · intro b orders d caller job same snapshot unstarted
      rw [same] at hit
      exact allowed.1.unassigned _ _ _ _ s job hit ⟨q,z,atQ,member,snapshot,unstarted⟩
    · intro presence userId job same snapshot unstarted
      rw [same] at hit
      exact allowed.1.unmarked _ _ s job hit ⟨q,z,atQ,member,snapshot,unstarted⟩
    · intro userId same
      exact allowed.2 p x found (by rw [same]; rfl)
  orders _ _ _ _ _ _ _ _ _ _ _ _ _ _ := trivial
  candidate _ _ _ _ _ _ _ _ _ _ _ _ _ := trivial

theorem unseen_holds {env : Env} (opening : Opening start) (path : Reached (market env) (Recovering env) start w) :
    Market.Holds (fun c => Jobs c ∧ Held c) unseen w := by
  refine kept_reached (kept_unseen env) opening ⟨opening_jobs opening,opening_held opening⟩ ?_
  refine reached_knowing ?_ path
  intro v prior
  exact no_removal (fun _ _ allowed => allowed.unremoved) (fun _ _ allowed => allowed.admitted) opening prior

-- Recovery acts only on the holder it saw, over the runs from `start` whose moves
-- `may` allows.
structure ActsOnHolder (env : Env) (may : Market → MarketMove → Prop) (start : Market) : Prop where
  holder : ∀ w m s snapshot rest, Reached (market env) may start w → may w m →
    commits env w m = some (.recoverUnstartedJob s snapshot rest) →
    (∃ job, (dispatch w.db).job s.jobId = some job ∧ job.status = .assigned ∧ job.delivererId = some s.id) ∧
    ∃ p u seen, (dispatch w.db).deliverer s.id = some p ∧ (dispatch w.db).user p.userId = some u ∧
      u.lastSeenAt = some seen ∧ seen+DELIVERER_GRACE_MS < w.db.clock
  others : ∀ w m s snapshot rest, Reached (market env) may start w → may w m →
    commits env w m = some (.recoverUnstartedJob s snapshot rest) →
    ∀ d p j, (dispatch (w.move (market env) m).db).deliverer d = some p → p.activeJobId = some j →
      ∃ job, (dispatch (w.move (market env) m).db).job j = some job ∧ job.status.Active ∧ job.delivererId = some d
  claim : ∀ w m s snapshot rest v orders d, Reached (market env) may start w → may w m →
    commits env w m = some (.recoverUnstartedJob s snapshot rest) →
    Reached (market env) may (w.move (market env) m) v →
    (assignTx snapshot.batchId orders d).run v.db ≠ .error .uniqueViolation

theorem recovery_acts_on_holder {env : Env} (opening : Opening start) : ActsOnHolder env (Recovering env) start := by
  refine ⟨?_,?_,?_⟩
  · intro w m s snapshot rest path allowed hit
    have valid := unseen_holds opening path
    obtain ⟨p,i,y,rfl,found,commit⟩ := commits_parts hit
    have known := valid.fact p _ found
    obtain ⟨seen,ready⟩ := known.formed
    have facts := known.stale s List.mem_cons_self
    obtain ⟨new,at_job,_,own⟩ := facts.job snapshot seen ready
    obtain ⟨q,at_deliverer,user⟩ := facts.profile
    obtain ⟨u,at_user,last⟩ := facts.seen snapshot seen ready
    have unstarted := recovered_unstarted commit at_job
    exact ⟨⟨new,at_job,unstarted,own unstarted⟩,q,u,_,at_deliverer,by rw [user]; exact at_user,last,facts.old⟩
  · intro w m s snapshot rest path allowed _ d p j
    exact (unseen_holds opening (.step path allowed)).inv.2.holds d p j
  · intro w m s snapshot rest v orders d path allowed _ onward
    have whole : Reached (market env) (Recovering env) start v := by
      induction onward with
      | refl => exact .step path allowed
      | step _ later ih => exact .step ih later
    exact assignTx_unique (unseen_holds opening whole).inv.2

def MarketMove.sweepless : MarketMove → Bool
  | .spawn .checkDeliverers => false
  | _ => true

-- Where no sweep has begun and none begins, nothing is awaited.
def Unswept (w : Market) (m : MarketMove) : Prop :=
  Admitted w m ∧ Unremoved w m ∧ m ≠ .spawn .checkDeliverers

theorem unswept_none {env : Env} (opening : Opening start) (path : Reached (market env) Unswept start w) :
    ∀ p, ¬Sweeping w p := by
  induction path with
  | refl =>
    rintro p ⟨x,found,_⟩
    rw [opening.threads p] at found; cases found
  | @step v m _ allowed ih =>
    rintro p ⟨z,found,sweep⟩
    rcases kind_move v m found (by rw [sweep]; exact nofun) with ⟨x,before,same⟩ | ⟨_,rfl⟩
    · exact ih p ⟨x,before,same.trans sweep⟩
    · cases allowed.1 with
      | checkDeliverers => exact allowed.2.2 rfl
      | _ => cases sweep

theorem unswept_recovering {env : Env} (opening : Opening start) (path : Reached (market env) Unswept start w) :
    Reached (market env) (Recovering env) start w := by
  have idle : ∀ v m, Unswept v m ∧ (∀ p, ¬Sweeping v p) → Recovering env v m := by
    intro v m known
    have none : ∀ s job, ¬Awaited v s job := by
      rintro s job ⟨p,x,found,member,_⟩
      exact known.2 p ⟨x,found,pending_sweep x member⟩
    exact ⟨known.1.1,known.1.2.1,fun _ _ _ _ s job _ awaited => (none s job awaited).elim,
      fun _ _ s job _ awaited => (none s job awaited).elim⟩
  exact reached_mono idle (reached_knowing (fun _ prior => unswept_none opening prior) path)

def Proc.recovers : Proc → Option StaleDeliverer
  | recoverUnstartedJob s _ _ => some s
  | _ => none

def Serving (w : Market) (m : MarketMove) : Prop := Admitted w m ∧ Unremoved w m

def serves : MarketMove → Bool
  | .spawn x => x.kind ≠ .removal
  | _ => true

theorem serves_unremoved (serving : serves m = true) : Unremoved w m := by
  cases m with
  | spawn x => cases x with
    | removeDeliverer => cases serving
    | _ => exact trivial
  | _ => exact trivial

-- A commit that assigns a batch or marks a user's presence.
def Proc.refreshes : Proc → Bool
  | assign .. | markPresence .. => true
  | _ => false

def recovering (w : Market) (m : MarketMove) : Bool :=
  enters m && serves m && !(commits village w m).any Proc.refreshes

theorem recovering_parts (passed : recovering w m = true) : Recovering village w m := by
  simp only [recovering,Bool.and_eq_true,Bool.not_eq_true'] at passed
  obtain ⟨⟨entry,serving⟩,none⟩ := passed
  refine ⟨enters_admitted entry,serves_unremoved serving,?_,?_⟩
  · intro b orders d caller s job commit
    rw [commit] at none; cases none
  · intro presence userId s job commit
    rw [commit] at none; cases none

-- Deliverer 0 has an unstarted job and is not seen for two minutes; deliverer 1 is.
def unattended : List MarketMove := dispatched ++ (.tick 121000::ask (.markPresence .heartbeat 3) 4 1)

theorem unswept_unattended : Reached (market village) Unswept morning (morning.run (market village) unattended) := by
  have plain : unattended.all (fun m => serves m && m.sweepless) = true := by decide +kernel
  refine admitted_reached unattended ?_ (by decide +kernel)
  intro w m member admitted
  obtain ⟨serving,sweepless⟩ := Bool.and_eq_true_iff.mp (List.all_eq_true.mp plain m member)
  exact ⟨admitted,serves_unremoved serving,fun same => by rw [same] at sweepless; cases sweepless⟩

-- The sweep that sees deliverer 0 gone commits the recovery of its job.
theorem recovery_acts_on_holder_morning : ∃ w m s snapshot rest job,
    Reached (market village) (Recovering village) morning w ∧ Recovering village w m ∧
      commits village w m = some (.recoverUnstartedJob s snapshot rest) ∧
      (dispatch w.db).job s.jobId = some job ∧ job.status = .assigned ∧ job.delivererId = some s.id := by
  let last : MarketMove := .step 5 fun _ => none
  have checked : (((morning.run (market village) unattended).trace (market village) (ask .checkDeliverers 5 1 ++ [last])).all
      fun made => recovering made.1 made.2) = true := by decide +kernel
  obtain ⟨earlier,now⟩ := checked_snoc checked
  have path : Reached (market village) (Recovering village) morning
      ((morning.run (market village) unattended).run (market village) (ask .checkDeliverers 5 1)) :=
    reached_run (unswept_recovering opening_morning unswept_unattended) _ fun made member =>
      recovering_parts (List.all_eq_true.mp earlier made member)
  have allowed := recovering_parts now
  have recovers : ((commits village ((morning.run (market village) unattended).run (market village) (ask .checkDeliverers 5 1))
      last).bind Proc.recovers).isSome = true := by decide +kernel
  obtain ⟨s,hit⟩ := Option.isSome_iff_exists.mp recovers
  obtain ⟨x,commit,same⟩ := Option.bind_eq_some_iff.mp hit
  cases x with
  | recoverUnstartedJob s snapshot rest =>
    obtain ⟨⟨job,at_job,unstarted,own⟩,_⟩ :=
      (recovery_acts_on_holder opening_morning).holder _ last s snapshot rest path allowed commit
    exact ⟨_,last,s,snapshot,rest,job,path,allowed,commit,at_job,unstarted,own⟩
  | _ => cases same

-- Two sweeps see deliverer 0 gone; the first recovers the job and assigns it to
-- deliverer 1, and the second is about to recover it again.
def overlapping : List MarketMove := unattended ++ ask .checkDeliverers 5 1 ++ ask .checkDeliverers 6 1 ++ steps 5 8

theorem recovery_of_another : ¬∀ (env : Env) (start : Market), Opening start → ActsOnHolder env Serving start := by
  intro claim
  have run : ∃ w, Reached (market village) Serving morning w ∧
      ((commits village w (.step 6 fun _ => none)).bind Proc.recovers).map (fun s => (s.id,s.jobId)) = some (0,0) ∧
      ((dispatch w.db).job 0).map DeliveryJob.delivererId = some (some 1) := by
    refine ⟨morning.run (market village) overlapping,?_,by decide +kernel,by decide +kernel⟩
    have serving : overlapping.all serves = true := by decide +kernel
    exact admitted_reached overlapping
      (fun _ m member admitted => ⟨admitted,serves_unremoved (List.all_eq_true.mp serving m member)⟩) (by decide +kernel)
  obtain ⟨w,path,recovers,held⟩ := run
  obtain ⟨s,hit,same⟩ := Option.map_eq_some_iff.mp recovers
  obtain ⟨x,commits,recovers⟩ := Option.bind_eq_some_iff.mp hit
  cases x with
  | recoverUnstartedJob deliverer snapshot rest =>
    cases recovers
    obtain ⟨⟨job,at_job,_,own⟩,_⟩ := (claim village morning opening_morning).holder w (.step 6 fun _ => none)
      s snapshot rest path ⟨trivial,trivial⟩ commits
    obtain ⟨its,jobs⟩ := Prod.mk.inj same
    rw [jobs] at at_job
    rw [at_job,Option.map_some,own,its] at held
    cases held
  | _ => cases recovers

end MesyafMarket
