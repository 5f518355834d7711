import MesyafMarket.Dispatch.Held

namespace MesyafMarket
open Relational OrderService DelivererAssignmentService DelivererJobService DelivererRecoveryService
open VendorService

-- How a commit of the process at `x` can change a row, table by table: from the
-- row before it, if there was one, to the row after it.
inductive OrderChange (now : Nat) (c c' : Dispatch) (i : Nat) : Proc → Option Order → Order → Prop where
  | kept : OrderChange now c c' i x (some o) o
  | placed : OrderChange now c c' i (.insertOrder dto vendorId costumerId vendor) none
      (newOrder dto vendorId costumerId vendor now)
  | readied (readyable : o.status ∈ READYABLE_STATUSES) (at_batch : c'.batch b = some k) (pending : k.status = .pending) :
      OrderChange now c c' i (.claimReady i customerId orderType) (some o) (joined b (readied orderType now o))
  | decided : OrderChange now c c' i (.updateDecided decision i customerId) (some o)
      {o with status := decision.status}
  | handed (at_batch : c.batch b = some k) (unclaimed : k.delivererId = none) (closed : k.status = .inProgress)
      (at_job : c'.job j = some job) (same : job.batchId = b) (ready : job.status = .assigned)
      (part : o.deliveryBatchId = some b) :
      OrderChange now c c' i (.assign b orders d caller) (some o) (handed d j o)
  | underway (at_job : c.job j = some job) (ready : job.status = .assigned) (part : o.deliveryJobId = some j) :
      OrderChange now c c' i (.startJob j d) (some o) (underway o)
  | dropped (at_job : c.job j = some job) (started : job.status = .inProgress) (at_stop : c.stop s = some stop)
      (part : stop.jobId = j) (own : stop.orderId = i) :
      OrderChange now c c' i (.completeDropOff j s d) (some o) (delivered now o)
  | finished (at_job : c.job j = some job) (started : job.status = .inProgress) (part : o.deliveryJobId = some j) :
      OrderChange now c c' i x (some o) (delivered now o)
  | released (at_job : c.job s.jobId = some job) (unstarted : job.status = .assigned)
      (part : o.deliveryJobId = some s.jobId)
      (after : c'.job s.jobId = some {job with status := .pending,delivererId := none}) :
      OrderChange now c c' i (.recoverUnstartedJob s snapshot rest) (some o) (released o)
  | forgotten : OrderChange now c c' i (.deleteProfile userId) (some o) {o with delivererId := none}

theorem order_rewritten {p : Nat → Order → Bool} {f : Order → Order}
    (found : rewritten p f c.order i = some o) (changed : ∀ old, c.order i = some old → p i old = true →
      OrderChange now c c' i x (some old) (f old)) : OrderChange now c c' i x (c.order i) o := by
  obtain ⟨old,before,same⟩ := rewritten_some found
  rw [before,same]
  split
  · rename_i hit; exact changed old before hit
  · exact .kept

theorem order_updated {i k : Nat} {new : Order} (found : Function.update c.order k (some new) i = some o)
    (changed : i = k → OrderChange now c c' i x (c.order i) new) : OrderChange now c c' i x (c.order i) o := by
  rcases update_some found with ⟨same,rfl⟩ | ⟨_,before⟩
  · exact changed same
  · rw [before]; exact .kept

theorem order_change (commit : Committed now x c y c') (found : c'.order i = some o) :
    OrderChange now c c' i x (c.order i) o := by
  cases commit with
  | insertOrder fresh =>
    refine order_updated found ?_
    rintro rfl
    rw [fresh]; exact .placed
  | joinBatch at_order readyable at_batch pending =>
    refine order_updated found ?_
    rintro rfl
    rw [at_order]; exact .readied readyable at_batch pending
  | openBatch at_order readyable fresh =>
    refine order_updated found ?_
    rintro rfl
    rw [at_order]; exact .readied readyable (Function.update_self ..) rfl
  | updateDecided at_order =>
    refine order_updated found ?_
    rintro rfl
    rw [at_order]; exact .decided
  | assign at_batch unclaimed closed at_deliverer available free only job fresh =>
    dsimp only [Dispatch.assign] at found
    refine order_rewritten found ?_
    intro old before hit
    exact .handed at_batch unclaimed closed (Function.update_self ..) rfl rfl (by simpa using hit)
  | startJob at_job own ready =>
    dsimp only at found
    refine order_rewritten found ?_
    intro old before hit
    exact .underway at_job ready (by simpa using hit)
  | completeDropOff at_job own started at_stop part pending remaining =>
    dsimp only [Dispatch.dropOff] at found
    refine order_rewritten found ?_
    intro old before hit
    exact .dropped at_job started at_stop part (of_decide_eq_true hit).1.symm
  | completeLast at_job own started at_stop part pending all at_batch at_deliverer =>
    dsimp only [Dispatch.finish,Dispatch.dropOff] at found
    obtain ⟨middle,between,last⟩ := rewritten_some found
    obtain ⟨old,before,first⟩ := rewritten_some between
    rw [before]
    -- The order of the last stop is completed once, by its stop or with the job.
    split at first
    · rename_i hit
      rw [last,first,if_neg (by simp [delivered])]
      exact .dropped at_job started at_stop part (of_decide_eq_true hit).1.symm
    · rw [last,first]
      split
      · rename_i again
        exact .finished at_job started (of_decide_eq_true again).1
      · exact .kept
  | completeJob at_job own started at_batch at_deliverer =>
    dsimp only [Dispatch.finish] at found
    refine order_rewritten found ?_
    intro old before hit
    exact .finished at_job started (of_decide_eq_true hit).1
  | recoverUnstartedJob at_deliverer at_job unstarted at_batch =>
    dsimp only [Dispatch.recover] at found
    refine order_rewritten found ?_
    intro old before hit
    exact .released at_job unstarted (by simpa using hit) (Function.update_self ..)
  | deleteProfile at_deliverer own =>
    rw [Dispatch.forget_order] at found
    refine order_rewritten found ?_
    intro old before hit
    exact .forgotten
  | _ => rw [found]; exact .kept

inductive JobChange (now : Nat) (c c' : Dispatch) (j : Nat) : Proc → Option DeliveryJob → DeliveryJob → Prop where
  | kept : JobChange now c c' j x (some a) a
  | assigned (at_batch : c.batch b = some k) (unclaimed : k.delivererId = none) (closed : k.status = .inProgress)
      (again : ∀ a, old = some a → a.batchId = b)
      (first : old = none → ∀ i a, c.job i = some a → a.batchId ≠ b)
      (claimed : c'.batch b = some {k with delivererId := some d}) :
      JobChange now c c' j (.assign b orders d caller) old (assignedJob b d n now)
  | started (own : a.delivererId = some d) (ready : a.status = .assigned) :
      JobChange now c c' j (.startJob j d) (some a) {a with status := .inProgress,startedAt := some now}
  | completed (started : a.status = .inProgress) (at_batch : c.batch a.batchId = some k)
      (ended : c'.batch a.batchId = some {k with status := .completed}) :
      JobChange now c c' j x (some a) {a with status := .completed,completedAt := some now}
  | recovered (own : s.jobId = j) (unstarted : a.status = .assigned) :
      JobChange now c c' j (.recoverUnstartedJob s snapshot rest) (some a) {a with status := .pending,delivererId := none}
  | forgotten (at_deliverer : c.deliverer d = some p) (user : p.userId = userId) (own : a.delivererId = some d) :
      JobChange now c c' j (.deleteProfile userId) (some a) {a with delivererId := none}

theorem job_updated {j k : Nat} {new : DeliveryJob} (found : Function.update c.job k (some new) j = some a)
    (changed : j = k → JobChange now c c' j x (c.job j) new) : JobChange now c c' j x (c.job j) a := by
  rcases update_some found with ⟨same,rfl⟩ | ⟨_,before⟩
  · exact changed same
  · rw [before]; exact .kept

theorem job_change (commit : Committed now x c y c') (found : c'.job j = some a) :
    JobChange now c c' j x (c.job j) a := by
  cases commit with
  | assign at_batch unclaimed closed at_deliverer available free only job fresh =>
    refine job_updated found ?_
    rintro rfl
    refine .assigned at_batch unclaimed closed ?_ ?_ (Function.update_self ..)
    · intro a before
      rcases job with ⟨old,at_job,same⟩ | ⟨none,_⟩
      · rw [before] at at_job; cases at_job; exact same
      · rw [before] at none; cases none
    · intro none
      rcases job with ⟨old,at_job,_⟩ | ⟨_,first⟩
      · rw [none] at at_job; cases at_job
      · exact first
  | startJob at_job own ready =>
    refine job_updated found ?_
    rintro rfl
    rw [at_job]; exact .started own ready
  | completeLast at_job own started at_stop part pending all at_batch at_deliverer =>
    refine job_updated (c := c) found ?_
    rintro rfl
    rw [at_job]; exact .completed started at_batch (Function.update_self ..)
  | completeJob at_job own started at_batch at_deliverer =>
    refine job_updated found ?_
    rintro rfl
    rw [at_job]; exact .completed started at_batch (Function.update_self ..)
  | recoverUnstartedJob at_deliverer at_job unstarted at_batch =>
    refine job_updated found ?_
    rintro rfl
    rw [at_job]; exact .recovered rfl unstarted
  | deleteProfile at_deliverer own =>
    rw [Dispatch.forget_job] at found
    obtain ⟨old,before,same⟩ := rewritten_some found
    rw [before,same]
    split
    · rename_i hit; exact .forgotten at_deliverer own (by simpa using hit)
    · exact .kept
  | _ =>
    have before : c.job j = some a := found
    rw [before]; exact .kept

inductive BatchChange (now : Nat) (c c' : Dispatch) (b : Nat) : Proc → Option DeliveryBatch → DeliveryBatch → Prop where
  | kept : BatchChange now c c' b x (some k) k
  | opened : BatchChange now c c' b (.claimReady o customerId orderType) none ⟨none,.pending,now⟩
  | closed (pending : k.status = .pending) :
      BatchChange now c c' b (.closeBatch b caller) (some k) {k with status := .inProgress}
  | claimed (unclaimed : k.delivererId = none) (closed : k.status = .inProgress) :
      BatchChange now c c' b (.assign b orders d caller) (some k) {k with delivererId := some d}
  | completed (at_job : c.job j = some job) (started : job.status = .inProgress) (same : job.batchId = b) :
      BatchChange now c c' b x (some k) {k with status := .completed}
  | requeued (at_job : c.job s.jobId = some job) (unstarted : job.status = .assigned) (same : snapshot.batchId = b)
      (after : c'.job s.jobId = some {job with status := .pending,delivererId := none}) :
      BatchChange now c c' b (.recoverUnstartedJob s snapshot rest) (some k)
        {k with delivererId := none,status := .inProgress}
  | forgotten (at_deliverer : c.deliverer d = some p) (user : p.userId = userId) (own : k.delivererId = some d)
      (nobody : ∀ j job, c'.job j = some job → job.delivererId ≠ some d) :
      BatchChange now c c' b (.deleteProfile userId) (some k) {k with delivererId := none}

theorem batch_updated {b i : Nat} {new : DeliveryBatch} (found : Function.update c.batch i (some new) b = some k)
    (changed : b = i → BatchChange now c c' b x (c.batch b) new) : BatchChange now c c' b x (c.batch b) k := by
  rcases update_some found with ⟨same,rfl⟩ | ⟨_,before⟩
  · exact changed same
  · rw [before]; exact .kept

theorem batch_change (commit : Committed now x c y c') (found : c'.batch b = some k) :
    BatchChange now c c' b x (c.batch b) k := by
  cases commit with
  | openBatch at_order readyable fresh =>
    refine batch_updated found ?_
    rintro rfl
    rw [fresh]; exact .opened
  | closeBatch at_batch pending =>
    refine batch_updated found ?_
    rintro rfl
    rw [at_batch]; exact .closed pending
  | assign at_batch unclaimed closed at_deliverer available free only job fresh =>
    refine batch_updated found ?_
    rintro rfl
    rw [at_batch]; exact .claimed unclaimed closed
  | completeLast at_job own started at_stop part pending all at_batch at_deliverer =>
    refine batch_updated (c := c) found ?_
    rintro rfl
    rw [at_batch]; exact .completed at_job started rfl
  | completeJob at_job own started at_batch at_deliverer =>
    refine batch_updated found ?_
    rintro rfl
    rw [at_batch]; exact .completed at_job started rfl
  | recoverUnstartedJob at_deliverer at_job unstarted at_batch =>
    refine batch_updated found ?_
    rintro rfl
    rw [at_batch]; exact .requeued at_job unstarted rfl (Function.update_self ..)
  | deleteProfile at_deliverer own =>
    rw [Dispatch.forget_batch] at found
    obtain ⟨old,before,same⟩ := rewritten_some found
    rw [before,same]
    split
    · rename_i hit
      refine .forgotten at_deliverer own (by simpa using hit) ?_
      intro j job after mine
      rw [Dispatch.forget_job] at after
      obtain ⟨earlier,_,result⟩ := rewritten_some after
      rw [result] at mine
      split at mine
      · cases mine
      · rename_i other; simp [mine] at other
    · exact .kept
  | _ =>
    have before : c.batch b = some k := found
    rw [before]; exact .kept

inductive StopChange (now : Nat) (c c' : Dispatch) (s : Nat) : Proc → Option DeliveryDropOff → DeliveryDropOff → Prop where
  | kept : StopChange now c c' s x (some a) a
  | made (at_job : c'.job j = some job) (same : job.batchId = b) (fresh : c.stop s = none) (member : entry ∈ orders)
      (part : new.jobId = j) (own : new.orderId = entry.1) (open_ : new.status = .pending) :
      StopChange now c c' s (.assign b orders d caller) none new
  | completed (at_job : c.job j = some job) (started : job.status = .inProgress) (part : a.jobId = j)
      (pending : a.status ≠ .completed) :
      StopChange now c c' s (.completeDropOff j s d) (some a) {a with status := .completed,completedAt := some now}

theorem dropOffs_some {n : Nat} (found : (dropOffs j orders)[n]? = some new) :
    ∃ entry ∈ orders, new.jobId = j ∧ new.orderId = entry.1 ∧ new.sequence = n ∧ new.status = .pending := by
  unfold dropOffs at found
  rw [List.getElem?_mapIdx,Option.map_eq_some_iff] at found
  obtain ⟨entry,at_n,rfl⟩ := found
  exact ⟨entry,List.mem_of_getElem? at_n,rfl,rfl,rfl,rfl⟩

theorem stop_updated {s i : Nat} {new : DeliveryDropOff} (found : Function.update c.stop i (some new) s = some a)
    (changed : s = i → StopChange now c c' s x (c.stop s) new) : StopChange now c c' s x (c.stop s) a := by
  rcases update_some found with ⟨same,rfl⟩ | ⟨_,before⟩
  · exact changed same
  · rw [before]; exact .kept

theorem stop_change (commit : Committed now x c y c') (found : c'.stop s = some a) :
    StopChange now c c' s x (c.stop s) a := by
  cases commit with
  | assign at_batch unclaimed closed at_deliverer available free only job fresh =>
    dsimp only [Dispatch.assign,inserted] at found
    split at found
    · rename_i above
      obtain ⟨entry,member,part,own,_,open_⟩ := dropOffs_some found
      rw [fresh s above]
      exact .made (Function.update_self ..) rfl (fresh s above) member part own open_
    · rw [(removed_some.mp found).1]; exact .kept
  | completeDropOff at_job own started at_stop part pending remaining =>
    refine stop_updated found ?_
    rintro rfl
    rw [at_stop]; exact .completed at_job started part pending
  | completeLast at_job own started at_stop part pending all at_batch at_deliverer =>
    refine stop_updated (c := c) found ?_
    rintro rfl
    rw [at_stop]; exact .completed at_job started part pending
  | _ =>
    have before : c.stop s = some a := found
    rw [before]; exact .kept

-- A stop goes only when its job is assigned anew.
theorem stop_kept (commit : Committed now x c y c') (found : c.stop s = some a) :
    (∃ a', c'.stop s = some a' ∧ (a.status = .completed → a' = a)) ∨
    (∃ job k, c.job a.jobId = some job ∧ c.batch job.batchId = some k ∧ k.delivererId = none ∧
      k.status = .inProgress) ∨
    c.job a.jobId = none := by
  have still : ∃ a', c.stop s = some a' ∧ (a.status = .completed → a' = a) := ⟨a,found,fun _ => rfl⟩
  have done : ∀ i stop new, c.stop i = some stop → stop.status ≠ .completed →
      ∃ a', Function.update c.stop i (some new) s = some a' ∧ (a.status = .completed → a' = a) := by
    intro i stop new at_stop pending
    refine update_kept (P := fun a a' => a.status = .completed → a' = a) at_stop found new ?_ ?_
    · exact fun _ => rfl
    · exact fun completed => absurd completed pending
  cases commit with
  | assign at_batch unclaimed closed at_deliverer available free only job fresh =>
    rename_i k p d j b base orders caller
    by_cases part : a.jobId = j
    · right
      rw [part]
      rcases job with ⟨old,at_job,rfl⟩ | ⟨none,_⟩
      · exact .inl ⟨old,k,at_job,at_batch,unclaimed,closed⟩
      · exact .inr none
    · left
      refine ⟨a,?_,fun _ => rfl⟩
      dsimp only [Dispatch.assign,inserted]
      split
      · rename_i above
        rw [fresh s above] at found; cases found
      · exact removed_some.mpr ⟨found,by simpa using part⟩
  | completeDropOff at_job own started at_stop part pending => exact .inl (done _ _ _ at_stop pending)
  | completeLast at_job own started at_stop part pending => exact .inl (done _ _ _ at_stop pending)
  | _ => exact .inl still

-- A profile keeps its user until it is deleted.
theorem deliverer_kept (commit : Committed now x c y c') (kept : ∀ userId, x ≠ .deleteProfile userId)
    (found : c.deliverer d = some p) : ∃ p', c'.deliverer d = some p' ∧ p'.userId = p.userId := by
  have still : ∃ p', c.deliverer d = some p' ∧ p'.userId = p.userId := ⟨p,found,rfl⟩
  have updated : ∀ i old new, c.deliverer i = some old → new.userId = old.userId →
      ∃ p', Function.update c.deliverer i (some new) d = some p' ∧ p'.userId = p.userId := by
    intro i old new at_i same
    exact update_kept (P := fun p p' => p'.userId = p.userId) at_i found new rfl same
  cases commit with
  | assign _ _ _ at_deliverer => exact updated _ _ _ at_deliverer rfl
  | completeLast _ _ _ _ _ _ _ _ at_deliverer => exact updated _ _ _ at_deliverer rfl
  | completeJob _ _ _ _ at_deliverer => exact updated _ _ _ at_deliverer rfl
  | writeLocation at_deliverer => exact updated _ _ _ at_deliverer rfl
  | recoverUnstartedJob at_deliverer => exact updated _ _ _ at_deliverer rfl
  | writeProfile =>
    dsimp only
    refine ⟨_,rewritten_of found,?_⟩
    split <;> rfl
  | deleteProfile => exact absurd rfl (kept _)
  | createProfile at_user only fresh =>
    refine ⟨p,?_,rfl⟩
    dsimp only
    rw [Function.update_of_ne]
    · exact found
    · intro same
      rw [same,fresh] at found; cases found
  | _ => exact still

theorem user_kept (commit : Committed now x c y c') (found : c.user i = some u) :
    ∃ u', c'.user i = some u' ∧
      (u'.lastSeenAt = u.lastSeenAt ∨ ((∃ presence, x = .markPresence presence i) ∧ u'.lastSeenAt = some now)) := by
  have still : ∃ u', c.user i = some u' ∧ (u'.lastSeenAt = u.lastSeenAt ∨
      ((∃ presence, x = .markPresence presence i) ∧ u'.lastSeenAt = some now)) := ⟨u,found,.inl rfl⟩
  have updated : ∀ k old new, c.user k = some old → new.lastSeenAt = old.lastSeenAt →
      ∃ u', Function.update c.user k (some new) i = some u' ∧ (u'.lastSeenAt = u.lastSeenAt ∨
        ((∃ presence, x = .markPresence presence i) ∧ u'.lastSeenAt = some now)) := by
    intro k old new at_k same
    obtain ⟨u',after,kept⟩ := update_kept (P := fun u u' => u'.lastSeenAt = u.lastSeenAt) at_k found new rfl same
    exact ⟨u',after,.inl kept⟩
  cases commit with
  | @markPresence u presence userId at_user =>
    by_cases hit : i = userId
    · subst i
      refine ⟨_,Function.update_self ..,.inr ⟨⟨presence,rfl⟩,?_⟩⟩
      cases presence <;> rfl
    · exact ⟨_,by dsimp only; rw [Function.update_of_ne hit]; exact found,.inl rfl⟩
  | demote at_user => exact updated _ _ _ at_user rfl
  | promote at_user => exact updated _ _ _ at_user rfl
  | _ => exact still

end MesyafMarket
