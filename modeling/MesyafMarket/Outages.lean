import MesyafMarket.EventBooks
import MesyafMarket.Relational.Ends

namespace MesyafMarket
open Relational OrderService DelivererAssignmentService DelivererJobService DelivererRecoveryService
open EventLogService

-- A deliverer who holds a started job, the job's batch, and when they were last seen.
structure Outage where
  deliverer : Nat
  job : Nat
  batch : Nat
  seen : Nat

namespace Outage

-- `activeJobId` and `batchId` are unique columns.
structure Lasts (k : Outage) (c : Dispatch) : Prop where
  holder : ∃ p u, c.deliverer k.deliverer = some p ∧ p.activeJobId = some k.job ∧ c.user p.userId = some u ∧
    u.lastSeenAt = some k.seen
  started : ∃ a, c.job k.job = some a ∧ a.status = .inProgress ∧ a.batchId = k.batch
  sole : ∀ d p, c.deliverer d = some p → p.activeJobId = some k.job → d = k.deliverer
  own : ∀ j a, c.job j = some a → a.batchId = k.batch → j = k.job

-- An order of the job.
def Carried (k : Outage) (c : Dispatch) (i : Nat) : Prop := ∃ o, c.order i = some o ∧ o.deliveryJobId = some k.job

def isEscalation (k : Outage) (event : EventLog) : Bool :=
  event.entityType = .job ∧ event.entityId = k.job ∧ event.eventType = EVENTS.JOB.ESCALATED ∧ k.seen < event.createdAt

def isIssue (k : Outage) (i : Nat) (event : EventLog) : Bool :=
  event.entityType = .order ∧ event.entityId = i ∧ event.eventType = EVENTS.ORDER.DELIVERY_ISSUE ∧
    k.seen < event.createdAt

-- The events of this outage: those of the job, and those of one order.
def escalations (k : Outage) (v : Database) : Nat := (v.matching .eventLog fun _ => k.isEscalation).length

def issues (k : Outage) (v : Database) (i : Nat) : Nat := (v.matching .eventLog fun _ => k.isIssue i).length

theorem escalated_none {k : Outage} (none : k.escalations v = 0) : alreadyEscalated k.job k.seen v = false := by
  have empty : (v.matching .eventLog fun _ => k.isEscalation) = [] := List.length_eq_zero_iff.mp none
  unfold alreadyEscalated
  unfold isEscalation at empty
  rw [empty]; rfl

section Log
variable {k : Outage} {v v' : Database}

-- Nothing that an outage counts has been logged.
structure Unremarked (v v' : Database) : Prop where
  job : ∀ k : Outage, k.escalations v' = k.escalations v
  order : ∀ (k : Outage) i, k.issues v' i = k.issues v i

theorem unremarked_rows (same : v'.rows .eventLog = v.rows .eventLog) : Unremarked v v' := by
  refine ⟨fun k => ?_,fun k i => ?_⟩
  · unfold escalations; rw [Db.matching_rows same]
  · unfold issues; rw [Db.matching_rows same]

theorem unremarked_trans (a b c : Database) (first : Unremarked a b) (second : Unremarked b c) : Unremarked a c :=
  ⟨fun k => (second.job k).trans (first.job k),fun k i => (second.order k i).trans (first.order k i)⟩

theorem unremarked_plain {x : Transaction α} (within : Confined (· ≠ .eventLog) x) : Follows Unremarked x :=
  fun _ _ ran => unremarked_rows (confined_run within ran (fun no => no rfl)).1

theorem created_escalations (ran : (createEvent params).run v = .ok (r,v')) :
    k.escalations v' = k.escalations v+if k.isEscalation (params.event v.clock) then 1 else 0 := by
  obtain ⟨_,log,seq,_⟩ := createEvent_books ran
  unfold escalations
  rw [Db.matching_insert log seq,List.length_append]
  split <;> rfl

theorem created_issues (ran : (createEvent params).run v = .ok (r,v')) :
    k.issues v' i = k.issues v i+if k.isIssue i (params.event v.clock) then 1 else 0 := by
  obtain ⟨_,log,seq,_⟩ := createEvent_books ran
  unfold issues
  rw [Db.matching_insert log seq,List.length_append]
  split <;> rfl

theorem unremarked_created (escalated : params.eventType ≠ EVENTS.JOB.ESCALATED)
    (issue : params.eventType ≠ EVENTS.ORDER.DELIVERY_ISSUE) : Follows Unremarked (createEvent params) := by
  intro v r ran
  refine ⟨fun k => ?_,fun k i => ?_⟩
  · rw [created_escalations ran]
    simp [isEscalation,Params.event,escalated]
  · rw [created_issues ran]
    simp [isIssue,Params.event,issue]

theorem unremarked_projectEvent : Follows Unremarked (projectEvent eventId event) :=
  unremarked_plain (confined_projectEvent nofun nofun)

theorem unremarked_recoverTx : Follows Unremarked (recoverTx d j b) :=
  unremarked_plain (confined_recoverTx nofun nofun nofun nofun)

theorem unremarked_after {x : Transaction α} {f : α → Transaction β} (within : Confined (· ≠ .eventLog) x)
    (rest : ∀ a, Follows Unremarked (f a)) : Follows Unremarked (x >>= f) :=
  follows_bind unremarked_trans (unremarked_plain within) rest

theorem unremarked_assignTx : Follows Unremarked (assignTx b orders d) := by
  refine unremarked_after (confined_upsertJob nofun) fun jobId => ?_
  refine unremarked_after (confined_updateMany nofun) fun updatedBatch => ?_
  split
  · exact follows_throw _
  · refine unremarked_after (confined_claimDeliverer nofun) fun _ => ?_
    refine unremarked_after (confined_updateMany nofun) fun _ => ?_
    refine unremarked_after (confined_deleteMany nofun) fun _ => ?_
    refine unremarked_after (confined_createMany nofun) fun _ => ?_
    have recorded : Follows Unremarked (recordEvent ⟨.job,jobId,EVENTS.JOB.ASSIGNED,jobPayload jobId .assigned⟩) :=
      follows_bind unremarked_trans (unremarked_created (by simp [EVENTS.JOB.ASSIGNED,EVENTS.JOB.ESCALATED])
        (by simp [EVENTS.JOB.ASSIGNED,EVENTS.ORDER.DELIVERY_ISSUE])) fun _ => unremarked_projectEvent
    exact follows_bind unremarked_trans recorded fun _ => follows_ret (fun _ => unremarked_rows rfl) _

end Log

section Rows
variable {k : Outage} {c c' : Dispatch}

-- The outage goes on, and no order has joined its job.
structure Goes (k : Outage) (c c' : Dispatch) : Prop where
  lasts : k.Lasts c'
  carried : ∀ i, k.Carried c' i → k.Carried c i

theorem goes_refl (lasts : k.Lasts c) : k.Goes c c := ⟨lasts,fun _ carried => carried⟩

theorem goes_recover (lasts : k.Lasts c) (at_job : c.job j = some a)
    (deliverer : d ≠ k.deliverer) (other : j ≠ k.job) : k.Goes c (c.recover d j b p a row) := by
  obtain ⟨holder,user,at_holder,holds,at_user,seen⟩ := lasts.holder
  obtain ⟨its,at_its,running,batch⟩ := lasts.started
  refine ⟨⟨⟨holder,user,?_,holds,at_user,seen⟩,⟨its,?_,running,batch⟩,?_,?_⟩,?_⟩
  · exact (Function.update_of_ne deliverer.symm ..).trans at_holder
  · exact (Function.update_of_ne other.symm ..).trans at_its
  · intro e q found active
    rcases update_some found with ⟨_,same⟩ | ⟨_,before⟩
    · subst same; cases active
    · exact lasts.sole e q before active
  · intro i new found same
    rcases update_some found with ⟨is,rfl⟩ | ⟨_,before⟩
    · rw [is]; exact lasts.own j a at_job same
    · exact lasts.own i new before same
  · rintro i ⟨o,found,part⟩
    dsimp only [Dispatch.recover] at found
    obtain ⟨old,before,same⟩ := rewritten_some found
    refine ⟨old,before,?_⟩
    rw [same] at part
    split at part
    · cases part
    · exact part

theorem goes_assign (lasts : k.Lasts c) (at_deliverer : c.deliverer d = some p) (free : p.activeJobId = none)
    (job : (∃ old, c.job j = some old ∧ old.batchId = b) ∨
      (c.job j = none ∧ ∀ i old, c.job i = some old → old.batchId ≠ b)) (other : b ≠ k.batch) :
    k.Goes c (c.assign now b d j base orders row p) := by
  obtain ⟨holder,user,at_holder,holds,at_user,seen⟩ := lasts.holder
  obtain ⟨a,at_its,running,batch⟩ := lasts.started
  have deliverer : k.deliverer ≠ d := by
    rintro rfl
    rw [at_holder] at at_deliverer
    cases at_deliverer
    rw [free] at holds; cases holds
  have its : j ≠ k.job := by
    rintro rfl
    rcases job with ⟨old,at_job,same⟩ | ⟨none,_⟩
    · rw [at_its] at at_job
      cases at_job
      exact other (same.symm.trans batch)
    · rw [at_its] at none; cases none
  refine ⟨⟨⟨holder,user,?_,holds,at_user,seen⟩,⟨a,?_,running,batch⟩,?_,?_⟩,?_⟩
  · exact (Function.update_of_ne deliverer ..).trans at_holder
  · exact (Function.update_of_ne its.symm ..).trans at_its
  · intro e q found active
    rcases update_some found with ⟨_,same⟩ | ⟨_,before⟩
    · subst same; cases active; exact absurd rfl its
    · exact lasts.sole e q before active
  · intro i new found same
    rcases update_some found with ⟨_,rfl⟩ | ⟨_,before⟩
    · exact absurd same other
    · exact lasts.own i new before same
  · rintro i ⟨o,found,part⟩
    dsimp only [Dispatch.assign] at found
    obtain ⟨old,before,same⟩ := rewritten_some found
    refine ⟨old,before,?_⟩
    rw [same] at part
    split at part
    · cases part; exact absurd rfl its
    · exact part

-- What a sweep's snapshot says of the outage: its deliverer's entry lists every
-- order of the job, and the entries of other deliverers none.
structure Noticed (k : Outage) (s : StaleDeliverer) (now : Nat) (c : Dispatch) : Prop where
  same : s.id = k.deliverer ↔ s.jobId = k.job
  since : s.jobId = k.job → s.lastSeenAt = k.seen ∧ k.seen < now
  running : s.jobId = k.job → ∃ a, s.job = some a ∧ a.status = .inProgress
  once : (s.orders.map Prod.fst).Nodup
  whole : s.jobId = k.job → ∀ i, k.Carried c i → i ∈ s.orders.map Prod.fst
  batch : s.jobId ≠ k.job → ∀ a, s.job = some a → a.batchId ≠ k.batch
  foreign : s.jobId ≠ k.job → ∀ i ∈ s.orders.map Prod.fst, ¬k.Carried c i

theorem noticed_goes (noticed : k.Noticed s now c) (goes : k.Goes c c') (later : now ≤ now') : k.Noticed s now' c' where
  same := noticed.same
  since its := ⟨(noticed.since its).1,Nat.lt_of_lt_of_le (noticed.since its).2 later⟩
  running := noticed.running
  once := noticed.once
  whole its i carried := noticed.whole its i (goes.carried i carried)
  batch := noticed.batch
  foreign other i member carried := noticed.foreign other i member (goes.carried i carried)

theorem noticed_read {env : Env} {v : Database} (lasts : k.Lasts (dispatch v)) (member : s ∈ staleDeliverers env v) :
    k.Noticed s v.clock (dispatch v) := by
  obtain ⟨d,listed,stale⟩ := List.mem_filterMap.mp member
  have at_deliverer : (dispatch v).deliverer d.1 = some d.2 := v.mem_all.mp ((env.scan_perm v _).mem_iff.mp listed)
  obtain ⟨p,u,at_holder,holds,at_user,seen⟩ := lasts.holder
  obtain ⟨a,at_job,running,batch⟩ := lasts.started
  unfold staleDeliverer at stale
  split at stale
  case h_2 => cases stale
  rename_i jobId user active known
  split at stale
  case h_2 => cases stale
  rename_i last at_last
  split at stale
  case isFalse => cases stale
  rename_i cutoff
  cases stale
  have grace : 0 < DELIVERER_GRACE_MS := by decide
  have keys : ((v.matching .order fun _ (o : Order) => o.deliveryJobId = some jobId).map Prod.fst).Nodup :=
    (v.all_keys_nodup _).sublist (List.filter_sublist.map _)
  have holder : jobId = k.job → d.1 = k.deliverer := fun its => lasts.sole d.1 d.2 at_deliverer (by rw [active,its])
  have row : d.1 = k.deliverer → d.2 = p := by
    intro same
    rw [same,at_holder] at at_deliverer
    exact (Option.some.inj at_deliverer).symm
  refine ⟨⟨?_,holder⟩,?_,?_,keys,?_,?_,?_⟩
  · intro same
    rw [row same,holds] at active
    exact (Option.some.inj active).symm
  · intro its
    dsimp only at its ⊢
    rw [row (holder its)] at known
    have its_user : v.rows .user p.userId = some u := at_user
    rw [its_user] at known
    cases known
    rw [seen] at at_last
    cases at_last
    exact ⟨rfl,by omega⟩
  · rintro rfl
    exact ⟨a,at_job,running⟩
  · rintro rfl i ⟨o,found,part⟩
    have listed : (i,o) ∈ v.matching .order fun _ (o : Order) => o.deliveryJobId = some k.job :=
      v.mem_matching.mpr ⟨found,decide_eq_true part⟩
    exact List.mem_map.mpr ⟨_,listed,rfl⟩
  · intro other row at_row same
    exact other (lasts.own jobId row at_row same)
  · rintro other i member ⟨o,found,part⟩
    obtain ⟨⟨n,order⟩,listed,rfl⟩ := List.mem_map.mp member
    dsimp only at listed
    obtain ⟨at_order,hit⟩ := v.mem_matching.mp listed
    have same : (dispatch v).order n = some order := at_order
    rw [same] at found
    cases found
    have its := (of_decide_eq_true hit).symm.trans part
    exact other (Option.some.inj its)

-- A sweep's snapshot has the outage once the time of grace is over.
theorem stale_listed {env : Env} {v : Database} (lasts : k.Lasts (dispatch v)) (elapsed : k.seen+DELIVERER_GRACE_MS < v.clock) :
    ∃ s ∈ staleDeliverers env v, s.jobId = k.job := by
  obtain ⟨p,u,at_holder,holds,at_user,seen⟩ := lasts.holder
  have listed : (k.deliverer,p) ∈ env.scan v (v.all .delivererProfile) :=
    (env.scan_perm v _).mem_iff.mpr (v.mem_all.mpr at_holder)
  have known : v.rows .user p.userId = some u := at_user
  have entry : staleDeliverer v (k.deliverer,p) = some ⟨k.deliverer,p.userId,k.seen,k.job,v.rows .deliveryJob k.job,
      v.matching .order fun _ (o : Order) => o.deliveryJobId = some k.job⟩ := by
    unfold staleDeliverer
    simp only [holds,known,seen]
    rw [if_pos elapsed]
  exact ⟨_,List.mem_filterMap.mpr ⟨_,listed,entry⟩,rfl⟩

end Rows
end Outage
end MesyafMarket
