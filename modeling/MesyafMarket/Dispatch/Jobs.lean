import MesyafMarket.Dispatch.Runs

namespace MesyafMarket
open Relational OrderService DelivererAssignmentService DelivererJobService DelivererRecoveryService

-- A batch has at most one job, and only once it is closed.
structure Jobs (c : Dispatch) : Prop where
  closed : ∀ j job, c.job j = some job → ∃ k, c.batch job.batchId = some k ∧ k.status ≠ .pending
  unique : ∀ i j a b, c.job i = some a → c.job j = some b → a.batchId = b.batchId → i = j

-- Jobs are never deleted and keep their batch.
theorem job_kept (commit : Committed now x c y c') (found : c.job i = some old) :
    ∃ new, c'.job i = some new ∧ new.batchId = old.batchId := by
  have still : ∃ new, c.job i = some new ∧ new.batchId = old.batchId := ⟨old,found,rfl⟩
  have changed : ∀ j v, (i = j → v.batchId = old.batchId) →
      ∃ new, Function.update c.job j (some v) i = some new ∧ new.batchId = old.batchId := by
    intro j v same
    by_cases hit : i = j
    · subst i; exact ⟨v,Function.update_self ..,same rfl⟩
    · exact ⟨old,by rw [Function.update_of_ne hit]; exact found,rfl⟩
  cases commit with
  | assign at_batch unclaimed closed at_deliverer available free only job fresh =>
    refine changed _ _ ?_
    rintro rfl
    rcases job with ⟨prior,at_job,same⟩ | ⟨none,_⟩
    · obtain rfl := Option.some.inj (found.symm.trans at_job)
      exact same.symm
    · rw [none] at found; cases found
  | startJob at_job own ready =>
    refine changed _ _ ?_
    rintro rfl
    rw [Option.some.inj (found.symm.trans at_job)]
  | completeLast at_job own started at_stop part pending all at_batch at_deliverer =>
    refine changed _ _ ?_
    rintro rfl
    rw [Option.some.inj (found.symm.trans at_job)]
  | completeJob at_job own started at_batch at_deliverer =>
    refine changed _ _ ?_
    rintro rfl
    rw [Option.some.inj (found.symm.trans at_job)]
  | recoverUnstartedJob at_deliverer at_job unstarted at_batch =>
    refine changed _ _ ?_
    rintro rfl
    rw [Option.some.inj (found.symm.trans at_job)]
  | deleteProfile at_deliverer own =>
    rw [Dispatch.forget_job]
    refine ⟨_,rewritten_of found,?_⟩
    split <;> rfl
  | _ => exact still

-- Batches are never deleted and never reopened.
theorem batch_kept (commit : Committed now x c y c') (found : c.batch b = some k) :
    ∃ k', c'.batch b = some k' ∧ (k.status ≠ .pending → k'.status ≠ .pending) := by
  have still : ∃ k', c.batch b = some k' ∧ (k.status ≠ .pending → k'.status ≠ .pending) := ⟨k,found,id⟩
  have changed : ∀ i v, (b = i → k.status ≠ .pending → v.status ≠ .pending) →
      ∃ k', Function.update c.batch i (some v) b = some k' ∧ (k.status ≠ .pending → k'.status ≠ .pending) := by
    intro i v same
    by_cases hit : b = i
    · subst b; exact ⟨v,Function.update_self ..,same rfl⟩
    · exact ⟨k,by rw [Function.update_of_ne hit]; exact found,id⟩
  cases commit with
  | openBatch _ _ fresh =>
    refine changed _ _ ?_
    rintro rfl
    rw [fresh] at found; cases found
  | closeBatch at_batch pending => exact changed _ _ fun _ _ => nofun
  | assign at_batch unclaimed closed at_deliverer available free only job fresh =>
    refine changed _ _ ?_
    intro _ _
    dsimp only
    rw [closed]; exact nofun
  | completeLast => exact changed _ _ fun _ _ => nofun
  | completeJob => exact changed _ _ fun _ _ => nofun
  | recoverUnstartedJob => exact changed _ _ fun _ _ => nofun
  | deleteProfile at_deliverer own =>
    rw [Dispatch.forget_batch]
    refine ⟨_,rewritten_of found,?_⟩
    split <;> exact id
  | _ => exact still

-- A job of a commit's result is an old one of the same batch, or the first one
-- of a closed batch.
theorem job_origin (commit : Committed now x c y c') (found : c'.job i = some new) :
    (∃ old, c.job i = some old ∧ old.batchId = new.batchId) ∨
    (c.job i = none ∧ (∀ j old, c.job j = some old → old.batchId ≠ new.batchId) ∧
      ∃ k, c.batch new.batchId = some k ∧ k.status ≠ .pending) := by
  have changed : ∀ j v old, Function.update c.job j (some v) i = some new → c.job j = some old →
      v.batchId = old.batchId → ∃ old, c.job i = some old ∧ old.batchId = new.batchId := by
    intro j v old after at_job same
    rcases update_some after with ⟨rfl,rfl⟩ | ⟨_,before⟩
    · exact ⟨old,at_job,same.symm⟩
    · exact ⟨new,before,rfl⟩
  cases commit with
  | assign at_batch unclaimed closed at_deliverer available free only job fresh =>
    rcases update_some found with ⟨rfl,rfl⟩ | ⟨_,before⟩
    · rcases job with ⟨old,at_job,same⟩ | ⟨none,first⟩
      · exact .inl ⟨old,at_job,same⟩
      · exact .inr ⟨none,first,_,at_batch,by rw [closed]; exact nofun⟩
    · exact .inl ⟨new,before,rfl⟩
  | startJob at_job own ready => exact .inl (changed _ _ _ found at_job rfl)
  | completeLast at_job own started at_stop part pending all at_batch at_deliverer =>
    exact .inl (changed _ _ _ found at_job rfl)
  | completeJob at_job own started at_batch at_deliverer => exact .inl (changed _ _ _ found at_job rfl)
  | recoverUnstartedJob at_deliverer at_job unstarted at_batch => exact .inl (changed _ _ _ found at_job rfl)
  | deleteProfile at_deliverer own =>
    rw [Dispatch.forget_job] at found
    obtain ⟨old,before,same⟩ := rewritten_some found
    refine .inl ⟨old,before,?_⟩
    rw [same]
    split <;> rfl
  | _ => exact .inl ⟨new,found,rfl⟩

theorem jobs_commit (valid : Jobs c) (commit : Committed now x c y c') : Jobs c' := by
  refine ⟨?_,?_⟩
  · intro j job found
    have shut : ∃ k, c.batch job.batchId = some k ∧ k.status ≠ .pending := by
      rcases job_origin commit found with ⟨old,before,same⟩ | ⟨_,_,shut⟩
      · rw [← same]; exact valid.closed j old before
      · exact shut
    obtain ⟨k,at_batch,closed⟩ := shut
    obtain ⟨k',after,kept⟩ := batch_kept commit at_batch
    exact ⟨k',after,kept closed⟩
  · intro i j a b atI atJ same
    rcases job_origin commit atI with ⟨oldI,beforeI,sameI⟩ | ⟨noneI,firstI,_⟩
    · rcases job_origin commit atJ with ⟨oldJ,beforeJ,sameJ⟩ | ⟨noneJ,firstJ,_⟩
      · exact valid.unique i j oldI oldJ beforeI beforeJ (by rw [sameI,sameJ,same])
      · exact absurd (by rw [sameI,same]) (firstJ i oldI beforeI)
    · rcases job_origin commit atJ with ⟨oldJ,beforeJ,sameJ⟩ | ⟨noneJ,_,_⟩
      · exact absurd (by rw [sameJ,same]) (firstI j oldJ beforeJ)
      · -- Both are new in one commit, which inserts at most one row.
        cases commit with
        | assign at_batch unclaimed closed at_deliverer available free only job fresh =>
          rcases update_some atI with ⟨rfl,_⟩ | ⟨_,before⟩
          · rcases update_some atJ with ⟨rfl,_⟩ | ⟨_,before⟩
            · rfl
            · cases noneJ.symm.trans before
          · cases noneI.symm.trans before
        | startJob at_job =>
          rcases update_some atI with ⟨rfl,_⟩ | ⟨_,before⟩
          · cases noneI.symm.trans at_job
          · cases noneI.symm.trans before
        | completeLast at_job =>
          rcases update_some atI with ⟨rfl,_⟩ | ⟨_,before⟩
          · cases noneI.symm.trans at_job
          · cases noneI.symm.trans before
        | completeJob at_job =>
          rcases update_some atI with ⟨rfl,_⟩ | ⟨_,before⟩
          · cases noneI.symm.trans at_job
          · cases noneI.symm.trans before
        | recoverUnstartedJob at_deliverer at_job =>
          rcases update_some atI with ⟨rfl,_⟩ | ⟨_,before⟩
          · cases noneI.symm.trans at_job
          · cases noneI.symm.trans before
        | deleteProfile =>
          rw [Dispatch.forget_job] at atI
          obtain ⟨old,before,_⟩ := rewritten_some atI
          cases noneI.symm.trans before
        | _ => cases noneI.symm.trans atI

theorem opening_jobs (opening : Opening w) : Jobs (dispatch w.db) :=
  ⟨fun j job found => by (rw [opening.job j] at found; cases found),
   fun i j a b found => by (rw [opening.job i] at found; cases found)⟩

-- The active job of a deliverer is there.
def Referring (c : Dispatch) : Prop := ∀ d p j, c.deliverer d = some p → p.activeJobId = some j → ∃ job, c.job j = some job

-- No deliverer has the job of the batch for the active one.
def Dispatch.Unheld (c : Dispatch) (b : Nat) : Prop :=
  ∀ d p j job, c.deliverer d = some p → p.activeJobId = some j → c.job j = some job → job.batchId ≠ b

-- The job that an assignment of the batch takes or makes is nobody's active one.
theorem unheld_only (referring : Referring c) (unheld : c.Unheld b) (job : (∃ old, c.job j = some old ∧ old.batchId = b) ∨
    (c.job j = none ∧ ∀ i old, c.job i = some old → old.batchId ≠ b)) :
    ∀ i p, c.deliverer i = some p → p.activeJobId ≠ some j := by
  intro i p found active
  rcases job with ⟨old,at_job,same⟩ | ⟨none,_⟩
  · exact unheld i p j old found active at_job same
  · obtain ⟨job,there⟩ := referring i p j found active
    cases none.symm.trans there

-- The job of a sweep's snapshot still belongs to the batch it had there.
def SnapshotBatch (s : StaleDeliverer) (c : Dispatch) : Prop :=
  ∀ job, s.job = some job → ∃ new, c.job s.jobId = some new ∧ new.batchId = job.batchId

theorem snapshotBatch_commit (known : SnapshotBatch s c) (commit : Committed now x c y c') : SnapshotBatch s c' := by
  intro job snapshot
  obtain ⟨new,found,same⟩ := known job snapshot
  obtain ⟨later,after,again⟩ := job_kept commit found
  exact ⟨later,after,again.trans same⟩

-- What the sweep's query says of each row of its snapshot.
theorem staleDeliverer_parts {env : Env} {v : Database} (member : s ∈ staleDeliverers env v) :
    ∃ p u, (dispatch v).deliverer s.id = some p ∧ p.activeJobId = some s.jobId ∧ p.userId = s.userId ∧
      (dispatch v).user s.userId = some u ∧ u.lastSeenAt = some s.lastSeenAt ∧
      s.lastSeenAt+DELIVERER_GRACE_MS < v.clock ∧ s.job = (dispatch v).job s.jobId := by
  unfold staleDeliverers at member
  obtain ⟨d,scanned,found⟩ := List.mem_filterMap.mp member
  have at_deliverer := v.mem_all.mp ((env.scan_perm v _).mem_iff.mp scanned)
  unfold staleDeliverer at found
  split at found
  · rename_i jobId user active at_user
    split at found
    · rename_i seen last
      split at found
      · rename_i old
        cases found
        exact ⟨d.2,user,at_deliverer,active,rfl,at_user,last,old,rfl⟩
      · cases found
    · cases found
  · cases found

theorem snapshotBatch_read {env : Env} {v : Database} (member : s ∈ staleDeliverers env v) :
    SnapshotBatch s (dispatch v) := by
  obtain ⟨p,u,_,_,_,_,_,_,same⟩ := staleDeliverer_parts member
  intro job snapshot
  exact ⟨job,by rw [← same]; exact snapshot,rfl⟩

end MesyafMarket
