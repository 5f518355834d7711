import MesyafMarket.Dispatch.Jobs

namespace MesyafMarket
open Relational OrderService DelivererAssignmentService DelivererJobService DelivererRecoveryService

def JobStatus.Active (status : JobStatus) : Prop := status = .assigned ∨ status = .inProgress

theorem JobStatus.cases_active (status : JobStatus) : status = .pending ∨ status.Active ∨ status = .completed := by
  cases status with
  | pending => exact .inl rfl
  | assigned => exact .inr (.inl (.inl rfl))
  | inProgress => exact .inr (.inl (.inr rfl))
  | completed => exact .inr (.inr rfl)

theorem active_not_pending {job : DeliveryJob} (active : job.status.Active) : job.status ≠ .pending := by
  rintro same
  rw [same] at active
  rcases active with h | h <;> cases h

-- Who delivers what is stored with the deliverer, with the job and with the batch.
-- The three agree, whatever the job's phase.
structure Held (c : Dispatch) : Prop where
  holds : ∀ d p j, c.deliverer d = some p → p.activeJobId = some j →
    ∃ job, c.job j = some job ∧ job.status.Active ∧ job.delivererId = some d
  active : ∀ j job, c.job j = some job → job.status.Active → ∃ d p k, job.delivererId = some d ∧
    c.deliverer d = some p ∧ p.activeJobId = some j ∧ c.batch job.batchId = some k ∧
      k.delivererId = some d ∧ k.status = .inProgress
  pending : ∀ j job, c.job j = some job → job.status = .pending → job.delivererId = none ∧
    ∃ k, c.batch job.batchId = some k ∧ k.delivererId = none ∧ k.status = .inProgress
  completed : ∀ j job, c.job j = some job → job.status = .completed →
    ∃ k, c.batch job.batchId = some k ∧ k.status = .completed
  idle : ∀ b k, c.batch b = some k → (∀ j job, c.job j = some job → job.batchId ≠ b) → k.delivererId = none

-- A batch that nobody has claimed has no job, or one that waits for a deliverer.
theorem unclaimed_job (held : Held c) (found : c.job j = some job) (at_batch : c.batch job.batchId = some k)
    (unclaimed : k.delivererId = none) (closed : k.status = .inProgress) : job.status = .pending := by
  rcases job.status.cases_active with waiting | active | done
  · exact waiting
  · obtain ⟨d,p,k',_,_,_,at_k,claimed,_⟩ := held.active j job found active
    obtain rfl := Option.some.inj (at_batch.symm.trans at_k)
    rw [unclaimed] at claimed; cases claimed
  · obtain ⟨k',at_k,ended⟩ := held.completed j job found done
    obtain rfl := Option.some.inj (at_batch.symm.trans at_k)
    rw [closed] at ended; cases ended

theorem held_referring (held : Held c) : Referring c := by
  intro d p j found active
  obtain ⟨job,at_job,_⟩ := held.holds d p j found active
  exact ⟨job,at_job⟩

theorem held_unheld (held : Held c) (at_batch : c.batch b = some k) (unclaimed : k.delivererId = none)
    (closed : k.status = .inProgress) : c.Unheld b := by
  rintro d p j job found active at_job rfl
  obtain ⟨same,there,running,_⟩ := held.holds d p j found active
  obtain rfl := Option.some.inj (at_job.symm.trans there)
  exact active_not_pending running (unclaimed_job held at_job at_batch unclaimed closed)

-- Accounts change; who holds which job does not.
theorem held_accounts (held : Held c) (sameJob : c'.job = c.job) (sameBatch : c'.batch = c.batch)
    (back : ∀ d p', c'.deliverer d = some p' → p'.activeJobId = none ∨
      ∃ p, c.deliverer d = some p ∧ p.activeJobId = p'.activeJobId)
    (forth : ∀ d p, c.deliverer d = some p → ∃ p', c'.deliverer d = some p' ∧ p'.activeJobId = p.activeJobId) :
    Held c' := by
  refine ⟨?_,?_,?_,?_,?_⟩
  · intro d p' j found active
    rcases back d p' found with none | ⟨p,before,same⟩
    · rw [none] at active; cases active
    · rw [sameJob]; exact held.holds d p j before (same.trans active)
  · intro j job found active
    rw [sameJob] at found
    obtain ⟨d,p,k,own,at_deliverer,holding,rest⟩ := held.active j job found active
    obtain ⟨p',after,same⟩ := forth d p at_deliverer
    rw [sameBatch]
    exact ⟨d,p',k,own,after,same.trans holding,rest⟩
  · rw [sameJob,sameBatch]; exact held.pending
  · rw [sameJob,sameBatch]; exact held.completed
  · rw [sameJob,sameBatch]; exact held.idle

theorem held_orders (held : Held c) : Held {c with order := order} :=
  ⟨held.holds,held.active,held.pending,held.completed,held.idle⟩

theorem held_dropOff (held : Held c) : Held (c.dropOff now s row) :=
  ⟨held.holds,held.active,held.pending,held.completed,held.idle⟩

theorem held_user (held : Held c) : Held {c with user := user} :=
  ⟨held.holds,held.active,held.pending,held.completed,held.idle⟩

theorem held_open (jobs : Jobs c) (held : Held c) (fresh : c.batch b = none) :
    Held {c with batch := Function.update c.batch b (some ⟨none,.pending,now⟩)} := by
  have other : ∀ j job, c.job j = some job → job.batchId ≠ b := by
    intro j job found same
    obtain ⟨k,at_batch,_⟩ := jobs.closed j job found
    rw [same,fresh] at at_batch; cases at_batch
  refine ⟨held.holds,?_,?_,?_,?_⟩
  · intro j job found
    dsimp only at found ⊢
    rw [Function.update_of_ne (other j job found)]
    exact held.active j job found
  · intro j job found
    dsimp only at found ⊢
    rw [Function.update_of_ne (other j job found)]
    exact held.pending j job found
  · intro j job found
    dsimp only at found ⊢
    rw [Function.update_of_ne (other j job found)]
    exact held.completed j job found
  · intro i k found none
    rcases update_some found with ⟨rfl,rfl⟩ | ⟨_,before⟩
    · rfl
    · exact held.idle i k before none

theorem held_close (jobs : Jobs c) (held : Held c) (at_batch : c.batch b = some k) (pending : k.status = .pending) :
    Held {c with batch := Function.update c.batch b (some {k with status := .inProgress})} := by
  have other : ∀ j job, c.job j = some job → job.batchId ≠ b := by
    intro j job found same
    obtain ⟨k',at_k,closed⟩ := jobs.closed j job found
    rw [same,at_batch] at at_k
    cases at_k
    exact closed pending
  refine ⟨held.holds,?_,?_,?_,?_⟩
  · intro j job found
    dsimp only at found ⊢
    rw [Function.update_of_ne (other j job found)]
    exact held.active j job found
  · intro j job found
    dsimp only at found ⊢
    rw [Function.update_of_ne (other j job found)]
    exact held.pending j job found
  · intro j job found
    dsimp only at found ⊢
    rw [Function.update_of_ne (other j job found)]
    exact held.completed j job found
  · intro i k' found none
    rcases update_some found with ⟨rfl,rfl⟩ | ⟨_,before⟩
    · exact held.idle i k at_batch none
    · exact held.idle i k' before none

theorem held_assign (jobs : Jobs c) (held : Held c) (at_batch : c.batch b = some k)
    (unclaimed : k.delivererId = none) (closed : k.status = .inProgress) (at_deliverer : c.deliverer d = some p)
    (free : p.activeJobId = none)
    (job : (∃ old, c.job j = some old ∧ old.batchId = b) ∨
      (c.job j = none ∧ ∀ i old, c.job i = some old → old.batchId ≠ b)) :
    Held (c.assign now b d j base orders k p) := by
  -- The job of the batch, if there is one already, waits for a deliverer.
  have waiting : ∀ old, c.job j = some old → old.status = .pending := by
    intro old found
    rcases job with ⟨old',at_job,same⟩ | ⟨none,_⟩
    · obtain rfl := Option.some.inj (found.symm.trans at_job)
      exact unclaimed_job held found (by rw [same]; exact at_batch) unclaimed closed
    · rw [none] at found; cases found
  have otherBatch : ∀ i old, i ≠ j → c.job i = some old → old.batchId ≠ b := by
    intro i old apart found same
    rcases job with ⟨old',at_job,same'⟩ | ⟨_,first⟩
    · exact apart (jobs.unique i j old old' found at_job (same.trans same'.symm))
    · exact first i old found same
  have otherDeliverer : ∀ i old, c.job i = some old → old.status.Active → old.delivererId ≠ some d := by
    intro i old found active own
    obtain ⟨d',p',_,own',at_d,holding,_⟩ := held.active i old found active
    rw [own] at own'
    cases own'
    rw [at_deliverer] at at_d
    cases at_d
    rw [free] at holding; cases holding
  refine ⟨?_,?_,?_,?_,?_⟩
  · intro d' p' i found active
    rcases update_some found with ⟨rfl,rfl⟩ | ⟨_,before⟩
    · cases active
      exact ⟨_,Function.update_self ..,.inl rfl,rfl⟩
    · obtain ⟨old,at_job,running,own⟩ := held.holds d' p' i before active
      have apart : i ≠ j := by
        rintro rfl
        exact active_not_pending running (waiting old at_job)
      exact ⟨old,by dsimp only [Dispatch.assign]; rw [Function.update_of_ne apart]; exact at_job,running,own⟩
  · intro i new found active
    rcases update_some found with ⟨rfl,rfl⟩ | ⟨apart,before⟩
    · exact ⟨d,_,_,rfl,Function.update_self ..,rfl,Function.update_self ..,rfl,closed⟩
    · obtain ⟨d',p',k',own,at_d,holding,at_k,claimed,running⟩ := held.active i new before active
      have elsewhere : d' ≠ d := by
        rintro rfl
        exact otherDeliverer i new before active own
      refine ⟨d',p',k',own,?_,holding,?_,claimed,running⟩
      · dsimp only [Dispatch.assign]; rw [Function.update_of_ne elsewhere]; exact at_d
      · dsimp only [Dispatch.assign]; rw [Function.update_of_ne (otherBatch i new apart before)]; exact at_k
  · intro i new found status
    rcases update_some found with ⟨rfl,rfl⟩ | ⟨apart,before⟩
    · cases status
    · obtain ⟨none,k',at_k,rest⟩ := held.pending i new before status
      refine ⟨none,k',?_,rest⟩
      dsimp only [Dispatch.assign]; rw [Function.update_of_ne (otherBatch i new apart before)]; exact at_k
  · intro i new found status
    rcases update_some found with ⟨rfl,rfl⟩ | ⟨apart,before⟩
    · cases status
    · obtain ⟨k',at_k,rest⟩ := held.completed i new before status
      refine ⟨k',?_,rest⟩
      dsimp only [Dispatch.assign]; rw [Function.update_of_ne (otherBatch i new apart before)]; exact at_k
  · intro i k' found none
    rcases update_some found with ⟨rfl,rfl⟩ | ⟨apart,before⟩
    · exact absurd rfl (none j _ (Function.update_self ..))
    · refine held.idle i k' before fun i' old at_job => ?_
      by_cases same : i' = j
      · subst i'
        rcases job with ⟨old',at_old,same⟩ | ⟨missing,_⟩
        · rw [at_old] at at_job; cases at_job; rw [same]; exact fun h => apart h.symm
        · rw [missing] at at_job; cases at_job
      · exact none i' old (by dsimp only [Dispatch.assign]; rw [Function.update_of_ne same]; exact at_job)

theorem held_start (held : Held c) (at_job : c.job j = some job) (ready : job.status = .assigned) :
    Held {c with
      job := Function.update c.job j (some {job with status := .inProgress,startedAt := some now}),order := order} := by
  refine ⟨?_,?_,?_,?_,?_⟩
  · intro d p i found active
    obtain ⟨old,before,running,own⟩ := held.holds d p i found active
    by_cases same : i = j
    · subst i
      obtain rfl := Option.some.inj (before.symm.trans at_job)
      exact ⟨_,Function.update_self ..,.inr rfl,own⟩
    · exact ⟨old,by dsimp only; rw [Function.update_of_ne same]; exact before,running,own⟩
  · intro i new found active
    rcases update_some found with ⟨rfl,rfl⟩ | ⟨_,before⟩
    · exact held.active i job at_job (.inl ready)
    · exact held.active i new before active
  · intro i new found status
    rcases update_some found with ⟨rfl,rfl⟩ | ⟨_,before⟩
    · cases status
    · exact held.pending i new before status
  · intro i new found status
    rcases update_some found with ⟨rfl,rfl⟩ | ⟨_,before⟩
    · cases status
    · exact held.completed i new before status
  · intro b k found none
    refine held.idle b k found fun i old before => ?_
    by_cases same : i = j
    · subst i
      obtain rfl := Option.some.inj (before.symm.trans at_job)
      have later := none j _ (Function.update_self ..)
      exact later
    · exact none i old (by dsimp only; rw [Function.update_of_ne same]; exact before)

-- The job of a holder ends one way or the other: the deliverer is free again and
-- the batch goes on without one.
theorem held_end (jobs : Jobs c) (held : Held c) (at_job : c.job j = some job) (active : job.status.Active)
    (own : job.delivererId = some d) (sameBatch : newJob.batchId = job.batchId)
    (ended : (newJob.status = .completed ∧ k.status = .completed) ∨
      (newJob.status = .pending ∧ newJob.delivererId = none ∧ k.delivererId = none ∧ k.status = .inProgress))
    (free : p.activeJobId = none) :
    Held {c with
      job := Function.update c.job j (some newJob)
      batch := Function.update c.batch job.batchId (some k)
      deliverer := Function.update c.deliverer d (some p)
      order := order,stop := stop} := by
  obtain ⟨d',p',k',own',at_d,holding,_⟩ := held.active j job at_job active
  rw [own] at own'
  cases own'
  have otherBatch : ∀ i old, i ≠ j → c.job i = some old → old.batchId ≠ job.batchId :=
    fun i old apart found same => apart (jobs.unique i j old job found at_job same)
  have notActive : ¬newJob.status.Active := by
    rintro (h | h) <;> rcases ended with ⟨status,_⟩ | ⟨status,_⟩ <;> rw [status] at h <;> cases h
  refine ⟨?_,?_,?_,?_,?_⟩
  · intro e q i found active
    rcases update_some found with ⟨rfl,rfl⟩ | ⟨apart,before⟩
    · rw [free] at active; cases active
    · obtain ⟨old,at_old,running,mine⟩ := held.holds e q i before active
      have other : i ≠ j := by
        rintro rfl
        rw [at_job] at at_old
        cases at_old
        rw [own] at mine
        cases mine
        exact apart rfl
      exact ⟨old,by dsimp only; rw [Function.update_of_ne other]; exact at_old,running,mine⟩
  · intro i new found running
    rcases update_some found with ⟨rfl,rfl⟩ | ⟨apart,before⟩
    · exact absurd running notActive
    · obtain ⟨e,q,k'',mine,at_e,holding',at_k,rest⟩ := held.active i new before running
      have other : e ≠ d := by
        rintro rfl
        rw [at_d] at at_e
        cases at_e
        rw [holding] at holding'
        cases holding'
        exact apart rfl
      refine ⟨e,q,k'',mine,?_,holding',?_,rest⟩
      · dsimp only; rw [Function.update_of_ne other]; exact at_e
      · dsimp only; rw [Function.update_of_ne (otherBatch i new apart before)]; exact at_k
  · intro i new found status
    rcases update_some found with ⟨rfl,rfl⟩ | ⟨apart,before⟩
    · rcases ended with ⟨done,_⟩ | ⟨_,none,unclaimed,open_⟩
      · rw [done] at status; cases status
      · rw [sameBatch]
        exact ⟨none,k,Function.update_self ..,unclaimed,open_⟩
    · obtain ⟨none,k'',at_k,rest⟩ := held.pending i new before status
      refine ⟨none,k'',?_,rest⟩
      dsimp only; rw [Function.update_of_ne (otherBatch i new apart before)]; exact at_k
  · intro i new found status
    rcases update_some found with ⟨rfl,rfl⟩ | ⟨apart,before⟩
    · rcases ended with ⟨_,done⟩ | ⟨waiting,_⟩
      · rw [sameBatch]
        exact ⟨k,Function.update_self ..,done⟩
      · rw [waiting] at status; cases status
    · obtain ⟨k'',at_k,rest⟩ := held.completed i new before status
      refine ⟨k'',?_,rest⟩
      dsimp only; rw [Function.update_of_ne (otherBatch i new apart before)]; exact at_k
  · intro i k'' found none
    rcases update_some found with ⟨rfl,rfl⟩ | ⟨apart,before⟩
    · exact absurd sameBatch (none j newJob (Function.update_self ..))
    · refine held.idle i k'' before fun i' old at_old => ?_
      by_cases same : i' = j
      · subst i'
        rw [at_job] at at_old
        cases at_old
        exact fun h => apart h.symm
      · exact none i' old (by dsimp only; rw [Function.update_of_ne same]; exact at_old)

-- A recovery that commits takes the job from the deliverer who holds it.
def RecoversHolder (x : Proc) (c : Dispatch) : Prop :=
  ∀ s snapshot rest, x = .recoverUnstartedJob s snapshot rest → ∀ job, c.job s.jobId = some job →
    job.status = .assigned → job.delivererId = some s.id ∧ job.batchId = snapshot.batchId

theorem held_commit (jobs : Jobs c) (held : Held c) (commit : Committed now x c y c')
    (recovers : RecoversHolder x c) (kept : ∀ userId, x ≠ .deleteProfile userId) : Held c' := by
  cases commit with
  | insertOrder => exact held_orders held
  | joinBatch => exact held_orders held
  | openBatch _ _ fresh => exact held_orders (held_open jobs held fresh)
  | closeBatch at_batch pending => exact held_close jobs held at_batch pending
  | closedAlready => exact held
  | updateDecided => exact held_orders held
  | recordEvent => exact held
  | projectEvent => exact held
  | assign at_batch unclaimed closed at_deliverer available free only job fresh =>
    exact held_assign jobs held at_batch unclaimed closed at_deliverer free job
  | startJob at_job own ready => exact held_start held at_job ready
  | completeDropOff => exact held_dropOff held
  | completeLast at_job own started at_stop part pending all at_batch at_deliverer =>
    exact held_end ⟨jobs.closed,jobs.unique⟩ (held_dropOff held) at_job (.inr started) own rfl (.inl ⟨rfl,rfl⟩) rfl
  | completeJob at_job own started at_batch at_deliverer =>
    exact held_end jobs held at_job (.inr started) own rfl (.inl ⟨rfl,rfl⟩) rfl
  | writeLocation at_deliverer =>
    refine held_accounts held rfl rfl ?_ ?_
    · intro i p' found
      rcases update_some found with ⟨rfl,rfl⟩ | ⟨_,before⟩
      · exact .inr ⟨_,at_deliverer,rfl⟩
      · exact .inr ⟨p',before,rfl⟩
    · intro i p found
      refine update_kept (P := fun old new => new.activeJobId = old.activeJobId) at_deliverer found _ ?_ ?_
      · rfl
      · rfl
  | recoverUnstartedJob at_deliverer at_job unstarted at_batch =>
    obtain ⟨own,same⟩ := recovers _ _ _ rfl _ at_job unstarted
    unfold Dispatch.recover
    rw [← same]
    exact held_end jobs held at_job (.inl unstarted) own rfl (.inr ⟨rfl,rfl,rfl,rfl⟩) rfl
  | writeProfile =>
    refine held_accounts held rfl rfl ?_ ?_
    · intro i p' found
      dsimp only at found
      obtain ⟨p,before,same⟩ := rewritten_some found
      refine .inr ⟨p,before,?_⟩
      rw [same]; split <;> rfl
    · intro i p found
      dsimp only
      refine ⟨_,rewritten_of found,?_⟩
      split <;> rfl
  | markPresence => exact held_user held
  | deleteProfile => exact absurd rfl (kept _)
  | demote => exact held_user held
  | promote => exact held_user held
  | createProfile at_user only fresh =>
    refine held_accounts held rfl rfl ?_ ?_
    · intro i p' found
      rcases update_some found with ⟨rfl,rfl⟩ | ⟨_,before⟩
      · exact .inl rfl
      · exact .inr ⟨p',before,rfl⟩
    · intro i p found
      refine ⟨p,?_,rfl⟩
      dsimp only
      rw [Function.update_of_ne]
      · exact found
      · rintro rfl
        rw [fresh] at found; cases found

theorem opening_held (opening : Opening w) : Held (dispatch w.db) := by
  refine ⟨?_,?_,?_,?_,?_⟩
  · intro d p j found active
    rw [opening.free d p found] at active; cases active
  · intro j job found; rw [opening.job j] at found; cases found
  · intro j job found; rw [opening.job j] at found; cases found
  · intro j job found; rw [opening.job j] at found; cases found
  · intro b k found; rw [opening.batch b] at found; cases found

end MesyafMarket
