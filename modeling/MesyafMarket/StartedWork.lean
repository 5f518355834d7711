import MesyafMarket.Dispatch.Members

namespace MesyafMarket
open Relational OrderService DelivererAssignmentService DelivererJobService DelivererRecoveryService
open VendorService

def JobStatus.Started (status : JobStatus) : Prop := status = .inProgress ∨ status = .completed

theorem started_not_assigned {job : DeliveryJob} (started : job.status.Started) : job.status ≠ .assigned := by
  intro same
  rw [same] at started
  rcases started with h | h <;> cases h

-- What protects started work: the batch of a running job is claimed, and the
-- batch of a completed one is completed, so that neither can be assigned.
structure Protected (c : Dispatch) : Prop where
  running : ∀ j job, c.job j = some job → job.status = .inProgress →
    ∃ d k, job.delivererId = some d ∧ c.batch job.batchId = some k ∧ k.delivererId = some d
  ready : ∀ j job d, c.job j = some job → job.status = .assigned → job.delivererId = some d →
    ∃ k, c.batch job.batchId = some k ∧ k.delivererId = some d
  done : ∀ j job, c.job j = some job → job.status = .completed →
    ∃ k, c.batch job.batchId = some k ∧ k.status = .completed
  stop : ∀ s a, c.stop s = some a → a.status = .completed → ∃ job, c.job a.jobId = some job ∧ job.status.Started
  order : ∀ i o, c.order i = some o → o.status = .completed →
    ∃ j job, c.job j = some job ∧ o.deliveryBatchId = some job.batchId ∧ job.status.Started

-- The three ways in which started work could lose its protection are excluded:
-- an order that joins a second batch, a vendor's decision that lands on a
-- completed order, and the removal of a deliverer who is under way.
structure Unbroken (x : Proc) (c : Dispatch) : Prop where
  once : JoinsOnce x c
  decision : ∀ decision o customerId r, x = .updateDecided decision o customerId → c.order o = some r →
    r.status ≠ .completed
  holder : ∀ userId d p j job, x = .deleteProfile userId → c.deliverer d = some p → p.userId = userId →
    c.job j = some job → job.status = .inProgress → job.delivererId ≠ some d

-- A sweep recovers the batch that its job belongs to.
def RecoversBatch (x : Proc) (c : Dispatch) : Prop :=
  ∀ s snapshot rest, x = .recoverUnstartedJob s snapshot rest → ∀ job, c.job s.jobId = some job →
    job.batchId = snapshot.batchId

theorem started_claimed (prot : Protected c) (found : c.job j = some job) (started : job.status.Started)
    (at_batch : c.batch job.batchId = some k) (unclaimed : k.delivererId = none) : k.status ≠ .inProgress := by
  intro closed
  rcases started with running | done
  · obtain ⟨d,k',_,at_k,claimed⟩ := prot.running j job found running
    rw [at_batch] at at_k
    cases at_k
    rw [unclaimed] at claimed; cases claimed
  · obtain ⟨k',at_k,ended⟩ := prot.done j job found done
    rw [at_batch] at at_k
    cases at_k
    rw [closed] at ended; cases ended

-- A started job stays started, with its batch.
theorem started_kept (prot : Protected c) (commit : Committed now x c y c') (found : c.job j = some a)
    (started : a.status.Started) :
    ∃ a', c'.job j = some a' ∧ a'.status.Started ∧ a'.batchId = a.batchId ∧
      (a.status = .completed → a'.status = .completed) := by
  obtain ⟨a',after,batch⟩ := job_kept commit found
  have change := job_change commit after
  rw [found] at change
  have same : a'.status.Started ∧ (a.status = .completed → a'.status = .completed) := by
    cases change with
    | kept => exact ⟨started,fun done => done⟩
    | assigned at_batch unclaimed closed again =>
      exact absurd closed (started_claimed prot found started (by rw [again a rfl]; exact at_batch) unclaimed)
    | started _ ready => exact absurd ready (started_not_assigned started)
    | completed => exact ⟨.inr rfl,fun _ => rfl⟩
    | recovered _ unstarted => exact absurd unstarted (started_not_assigned started)
    | forgotten => exact ⟨started,fun done => done⟩
  exact ⟨a',after,same.1,batch,same.2⟩

-- The batch of a started job keeps what protects it.
theorem claim_kept (jobs : Jobs c) (commit : Committed now x c y c') (recovers : RecoversBatch x c)
    (found : c.job j = some a) (after : c'.job j = some a') (own : a'.delivererId = some d) (pending : a'.status ≠ .pending)
    (at_batch : c.batch a.batchId = some k) (claimed : k.delivererId = some d) :
    ∃ k', c'.batch a.batchId = some k' ∧ k'.delivererId = some d := by
  obtain ⟨k',at_k,_⟩ := batch_kept commit at_batch
  have change := batch_change commit at_k
  rw [at_batch] at change
  refine ⟨k',at_k,?_⟩
  cases change with
  | claimed unclaimed => rw [unclaimed] at claimed; cases claimed
  | requeued at_job unstarted same released =>
    -- The job of this batch is the one that the recovery puts back.
    have its := jobs.unique _ _ _ _ at_job found ((recovers _ _ _ rfl _ at_job).trans same)
    rw [its,after] at released
    cases released
    exact absurd rfl pending
  | forgotten at_deliverer user mine nobody =>
    rw [claimed] at mine
    cases mine
    exact absurd own (nobody _ _ after)
  | _ => exact claimed

theorem end_kept (jobs : Jobs c) (commit : Committed now x c y c') (recovers : RecoversBatch x c)
    (found : c.job j = some a) (done : a.status = .completed) (at_batch : c.batch a.batchId = some k)
    (ended : k.status = .completed) : ∃ k', c'.batch a.batchId = some k' ∧ k'.status = .completed := by
  obtain ⟨k',at_k,_⟩ := batch_kept commit at_batch
  have change := batch_change commit at_k
  rw [at_batch] at change
  refine ⟨k',at_k,?_⟩
  cases change with
  | closed pending => rw [pending] at ended; cases ended
  | claimed _ closed => rw [closed] at ended; cases ended
  | completed => rfl
  | requeued at_job unstarted same =>
    have its := jobs.unique _ _ _ _ at_job found ((recovers _ _ _ rfl _ at_job).trans same)
    rw [its,found] at at_job
    cases at_job
    rw [unstarted] at done; cases done
  | _ => exact ended

theorem protected_commit (jobs : Jobs c) (members : Members c) (prot : Protected c) (commit : Committed now x c y c')
    (unbroken : Unbroken x c) (recovers : RecoversBatch x c) : Protected c' := by
  refine ⟨?_,?_,?_,?_,?_⟩
  · intro j a' found running
    have change := job_change commit found
    generalize before : c.job j = prior at change
    cases change with
    | kept =>
      obtain ⟨d,k,own,at_batch,claimed⟩ := prot.running j a' before running
      obtain ⟨k',at_k,still⟩ := claim_kept jobs commit recovers before found own (by rw [running]; exact nofun)
        at_batch claimed
      exact ⟨d,k',own,at_k,still⟩
    | assigned => cases running
    | started own ready =>
      obtain ⟨k,at_batch,claimed⟩ := prot.ready j _ _ before ready own
      obtain ⟨k',at_k,still⟩ := claim_kept jobs commit recovers before found own (by rw [running]; exact nofun)
        at_batch claimed
      exact ⟨_,k',own,at_k,still⟩
    | completed => cases running
    | recovered => cases running
    | forgotten at_deliverer user own =>
      exact absurd own (unbroken.holder _ _ _ _ _ rfl at_deliverer user before running)
  · intro j a' d found ready own
    have change := job_change commit found
    generalize before : c.job j = prior at change
    cases change with
    | kept =>
      obtain ⟨k,at_batch,claimed⟩ := prot.ready j a' d before ready own
      exact claim_kept jobs commit recovers before found own (by rw [ready]; exact nofun) at_batch claimed
    | assigned _ _ _ _ _ claimed =>
      cases own
      exact ⟨_,claimed,rfl⟩
    | started => cases ready
    | completed => cases ready
    | recovered => cases ready
    | forgotten => cases own
  · intro j a' found done
    have change := job_change commit found
    generalize before : c.job j = prior at change
    cases change with
    | kept =>
      obtain ⟨k,at_batch,ended⟩ := prot.done j a' before done
      exact end_kept jobs commit recovers before done at_batch ended
    | assigned => cases done
    | started => cases done
    | completed _ _ ended => exact ⟨_,ended,rfl⟩
    | recovered => cases done
    | forgotten =>
      obtain ⟨k,at_batch,ended⟩ := prot.done j _ before done
      have still := end_kept jobs commit recovers before done at_batch ended
      exact still
  · intro s a found done
    have change := stop_change commit found
    generalize before : c.stop s = prior at change
    cases change with
    | kept =>
      obtain ⟨job,at_job,started⟩ := prot.stop s a before done
      obtain ⟨job',after,still,_⟩ := started_kept prot commit at_job started
      exact ⟨job',after,still⟩
    | made _ _ _ _ _ _ waiting => rw [waiting] at done; cases done
    | completed at_job started part =>
      obtain ⟨job',after,still,_⟩ := started_kept prot commit at_job (.inl started)
      exact ⟨job',by rw [← part] at after; exact after,still⟩
  · intro i o' found done
    have later : ∀ j job, c.job j = some job → job.status.Started → o'.deliveryBatchId = some job.batchId →
        ∃ j job, c'.job j = some job ∧ o'.deliveryBatchId = some job.batchId ∧ job.status.Started := by
      intro j job at_job started part
      obtain ⟨job',after,still,same,_⟩ := started_kept prot commit at_job started
      exact ⟨j,job',after,by rw [same]; exact part,still⟩
    have change := order_change commit found
    generalize before : c.order i = prior at change
    cases change with
    | kept =>
      obtain ⟨j,job,at_job,part,started⟩ := prot.order i o' before done
      exact later j job at_job started part
    | placed => cases done
    | readied => cases done
    | @decided decision => cases decision <;> cases done
    | handed => cases done
    | underway => cases done
    | dropped at_job started at_stop part own =>
      obtain ⟨job,o,at_its,at_order,inBatch⟩ := members.stop _ _ at_stop
      rw [part,at_job] at at_its
      rw [own,before] at at_order
      cases at_its
      cases at_order
      exact later _ _ at_job (.inl started) inBatch
    | finished at_job started part =>
      obtain ⟨job,at_its,inBatch⟩ := members.job i _ _ before part
      rw [at_job] at at_its
      cases at_its
      exact later _ _ at_job (.inl started) inBatch
    | released => cases done
    | forgotten =>
      obtain ⟨j,job,at_job,part,started⟩ := prot.order i _ before done
      exact later j job at_job started part

-- The moves of a job's status, and no other.
inductive JobStatus.Next : JobStatus → JobStatus → Prop where
  | same : Next status status
  | assign : Next .pending .assigned
  | start : Next .assigned .inProgress
  | complete : Next .inProgress .completed
  | recover : Next .assigned .pending

structure Onward (c c' : Dispatch) : Prop where
  job : ∀ j a, c.job j = some a → ∃ a', c'.job j = some a' ∧ a.status.Next a'.status
  running : ∀ j a, c.job j = some a → a.status = .inProgress →
    ∃ a', c'.job j = some a' ∧ a'.delivererId = a.delivererId ∧ a'.startedAt = a.startedAt
  stop : ∀ s a, c.stop s = some a → a.status = .completed → c'.stop s = some a
  order : ∀ i o, c.order i = some o → o.status = .completed → ∃ o', c'.order i = some o' ∧ o'.status = .completed

theorem onward_refl (c : Dispatch) : Onward c c :=
  ⟨fun _ a found => ⟨a,found,.same⟩,fun _ a found _ => ⟨a,found,rfl,rfl⟩,fun _ _ found _ => found,
   fun _ o found done => ⟨o,found,done⟩⟩

theorem completed_kept (jobs : Jobs c) (members : Members c) (prot : Protected c) (commit : Committed now x c y c')
    (unbroken : Unbroken x c) (found : c.order i = some o) (done : o.status = .completed) :
    ∃ o', c'.order i = some o' ∧ o'.status = .completed := by
  obtain ⟨o',after⟩ := order_stays commit found
  obtain ⟨j,job,at_job,inBatch,started⟩ := prot.order i o found done
  -- An order whose job has not been started is not the completed one.
  have unstarted : ∀ j' job', c.job j' = some job' → job'.status = .assigned → o.deliveryJobId ≠ some j' := by
    intro j' job' at_its waiting part
    obtain ⟨its,at_j,same⟩ := members.job i o j' found part
    rw [inBatch] at same
    rw [jobs.unique _ _ _ _ at_job at_j (Option.some.inj same),at_its] at at_job
    cases at_job
    exact started_not_assigned started waiting
  refine ⟨o',after,?_⟩
  have change := order_change commit after
  rw [found] at change
  cases change with
  | kept => exact done
  | readied readyable =>
    rw [done] at readyable
    simp [READYABLE_STATUSES] at readyable
  | decided => exact absurd done (unbroken.decision _ _ _ _ rfl found)
  | handed at_batch unclaimed closed _ _ _ part =>
    rw [inBatch] at part
    cases part
    exact absurd closed (started_claimed prot at_job started at_batch unclaimed)
  | underway at_its waiting part => exact absurd part (unstarted _ _ at_its waiting)
  | dropped => rfl
  | finished => rfl
  | released at_its waiting part => exact absurd part (unstarted _ _ at_its waiting)
  | forgotten => exact done

theorem onward_commit (jobs : Jobs c) (members : Members c) (prot : Protected c) (commit : Committed now x c y c')
    (unbroken : Unbroken x c) : Onward c c' := by
  refine ⟨?_,?_,?_,fun i o => completed_kept jobs members prot commit unbroken⟩
  · intro j a found
    obtain ⟨a',after,_⟩ := job_kept commit found
    refine ⟨a',after,?_⟩
    have change := job_change commit after
    rw [found] at change
    cases change with
    | kept => exact .same
    | assigned at_batch unclaimed closed again =>
      rw [← again a rfl] at at_batch
      generalize phase : a.status = status
      cases status with
      | pending => exact .assign
      | assigned => exact .same
      | inProgress => exact absurd closed (started_claimed prot found (.inl phase) at_batch unclaimed)
      | completed => exact absurd closed (started_claimed prot found (.inr phase) at_batch unclaimed)
    | started _ ready => rw [ready]; exact .start
    | completed started => rw [started]; exact .complete
    | recovered _ unstarted => rw [unstarted]; exact .recover
    | forgotten => exact .same
  · intro j a found running
    obtain ⟨a',after,_⟩ := job_kept commit found
    refine ⟨a',after,?_⟩
    have change := job_change commit after
    rw [found] at change
    cases change with
    | kept => exact ⟨rfl,rfl⟩
    | assigned at_batch unclaimed closed again =>
      rw [← again a rfl] at at_batch
      exact absurd closed (started_claimed prot found (.inl running) at_batch unclaimed)
    | started _ ready => rw [running] at ready; cases ready
    | completed => exact ⟨rfl,rfl⟩
    | recovered _ unstarted => rw [running] at unstarted; cases unstarted
    | forgotten at_deliverer user own => exact absurd own (unbroken.holder _ _ _ _ _ rfl at_deliverer user found running)
  · intro s a found done
    rcases stop_kept commit found with ⟨a',after,same⟩ | ⟨job,k,at_its,at_batch,unclaimed,closed⟩ | none
    · rw [after,same done]
    · obtain ⟨job',at_job,started⟩ := prot.stop s a found done
      rw [at_its] at at_job
      cases at_job
      exact absurd closed (started_claimed prot at_its started at_batch unclaimed)
    · obtain ⟨job',at_job,_⟩ := prot.stop s a found done
      rw [none] at at_job; cases at_job

-- Any moves at all, except those by which started work loses its protection.
def Unrestarting (w : Market) (m : MarketMove) : Prop := Admitted w m ∧ Guarded Unbroken w m

def sweepsAndReads : LocalFacts := ⟨fun s _ c => SnapshotBatch s c,ReadOrders,fun _ _ => True⟩

theorem recovers_of_snapshot (known : sweepsAndReads.Of x now c) : RecoversBatch x c := by
  rintro s snapshot rest rfl job found
  obtain ⟨new,at_job,same⟩ := known.stale s List.mem_cons_self snapshot known.formed.1
  rw [found] at at_job
  cases at_job
  exact same

theorem kept_protected (env : Env) :
    Kept env (fun c => Jobs c ∧ Members c ∧ Protected c) sweepsAndReads Unrestarting where
  admitted _ _ allowed := allowed.1
  later _ _ _ _ known := known
  snapshot _ _ _ member := snapshotBatch_read member
  read v b _ := readOrders_read env v b
  available _ _ _ := trivial
  commit w p i x y c valid found allowed hit commit := by
    obtain ⟨jobs,members,prot⟩ := valid.inv
    have known := valid.fact p x found
    have unbroken := allowed.2 p i x rfl found
    refine ⟨jobs_commit jobs commit,members_commit members commit known.orders unbroken.once,?_⟩
    exact protected_commit jobs members prot commit unbroken (recovers_of_snapshot known)
  stale _ _ _ _ _ _ _ _ _ _ commit _ _ _ _ _ _ known := snapshotBatch_commit known commit
  orders _ _ _ _ _ _ _ _ _ found allowed _ commit known :=
    readOrders_commit known commit (allowed.2 _ _ _ rfl found).once
  candidate _ _ _ _ _ _ _ _ _ _ _ _ _ := trivial

theorem opening_protected (opening : Opening w) : Protected (dispatch w.db) := by
  refine ⟨?_,?_,?_,?_,?_⟩
  · intro j job found; rw [opening.job j] at found; cases found
  · intro j job d found; rw [opening.job j] at found; cases found
  · intro j job found; rw [opening.job j] at found; cases found
  · intro s a found; rw [opening.stop s] at found; cases found
  · intro i o found; rw [opening.order i] at found; cases found

-- Started work is never restarted, by any move of any such run.
theorem started_work_onward {env : Env} (opening : Opening start) (path : Reached (market env) Unrestarting start w)
    (allowed : Unrestarting w m) : Onward (dispatch w.db) (dispatch (w.move (market env) m).db) := by
  obtain ⟨jobs,members,prot⟩ := (kept_reached (kept_protected env) opening
    ⟨opening_jobs opening,opening_members opening,opening_protected opening⟩ path).inv
  generalize after : dispatch (w.move (market env) m).db = c
  have moved := moved env w m
  rw [after] at moved
  cases moved with
  | still => exact onward_refl _
  | commit found commit => exact onward_commit jobs members prot commit (allowed.2 _ _ _ rfl found)

theorem unrestarting_of_undisturbed (calm : Undisturbed w m) : Unrestarting w m := by
  refine ⟨calm.admitted,?_⟩
  intro p i x made found
  refine ⟨calm.once p i x made found,?_,?_⟩
  · intro decision o customerId r same at_order
    rw [calm.decides p i x made found _ _ _ _ same at_order]; exact nofun
  · intro userId d p' j job same
    exact absurd same (calm.kept p i x made found userId)

-- The only stop of the only job is about to be completed.
def completing : List MarketMove := dispatched ++ ask (.startJob 0 0) 4 1 ++ ask (.completeDropOff 0 0 0) 5 0

theorem started_work_onward_completing :
    Onward (dispatch (morning.run (market village) completing).db)
      (dispatch ((morning.run (market village) completing).move (market village) (.step 5 fun _ => none)).db) := by
  have checked : (morning.trace (market village) completing).all (fun made => undisturbed made.1 made.2) = true := by
    decide +kernel
  have last : undisturbed (morning.run (market village) completing) (.step 5 fun _ => none) = true := by
    decide +kernel
  exact started_work_onward opening_morning
    (undisturbed_reached completing (fun _ _ => unrestarting_of_undisturbed) checked)
    (unrestarting_of_undisturbed (undisturbed_parts last))

-- Each operation runs alone: a job is started, its deliverer is removed, the sweep
-- requeues the batch, and its worker is about to commit.
def removedUnderway : List MarketMove :=
  dispatched ++ ask (.startJob 0 0) 4 1 ++ ask (.removeDeliverer 2) 5 3 ++
    (.tick 61000::ask .checkDeliverers 6 4) ++ (.work 0::steps 7 4)

theorem started_work_restarted : ¬∀ (env : Env) (start w : Market) (m : MarketMove), Opening start →
    Reached (market env) Admitted start w → Admitted w m →
    Onward (dispatch w.db) (dispatch (w.move (market env) m).db) := by
  intro claim
  have run : ∃ w, Reached (market village) Admitted morning w ∧
      ((dispatch w.db).job 0).map DeliveryJob.status = some .inProgress ∧
      ((dispatch (w.move (market village) (.step 7 fun _ => none)).db).job 0).map DeliveryJob.status =
        some .assigned := by
    refine ⟨morning.run (market village) removedUnderway,?_,by decide +kernel,by decide +kernel⟩
    exact admitted_reached removedUnderway (fun _ _ _ admitted => admitted) (by decide +kernel)
  obtain ⟨w,path,before,after⟩ := run
  obtain ⟨a,found,running⟩ := Option.map_eq_some_iff.mp before
  obtain ⟨a',at_job,next⟩ := (claim village morning w (.step 7 fun _ => none) opening_morning path trivial).job 0 a found
  rw [at_job] at after
  rw [running,Option.some.inj after] at next
  cases next

end MesyafMarket
