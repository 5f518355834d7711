import MesyafMarket.EventLogGrowth
import MesyafMarket.TimelineRebuild
import MesyafMarket.Dispatch.Duties

namespace MesyafMarket
open Relational OrderService DelivererAssignmentService DelivererJobService DelivererRecoveryService
open EventLogService VendorService SessionService AdminService

-- The status in the order's latest timeline row, by source event, that has one.
def LatestStatus (v : Database) (orderId : Nat) (status : OrderStatus) : Prop :=
  ∃ i row event, v.rows .orderTimeline i = some row ∧ row.orderId = orderId ∧ row.status = some status ∧
    row.sourceEventId = some event ∧ ∀ j (other : OrderTimeline) later, v.rows .orderTimeline j = some other →
      other.orderId = orderId → other.status ≠ none → other.sourceEventId = some later → later ≤ event

def Told (v : Database) : Prop := ∀ i o, v.rows .order i = some o → LatestStatus v i o.status

-- What every service does to the log and to the order timeline: rows stay, and a new
-- row is that of an event logged with it.
structure Extends (v v' : Database) : Prop where
  seq : v.seq .eventLog ≤ v'.seq .eventLog
  log : ∀ i event, v.rows .eventLog i = some event → v'.rows .eventLog i = some event
  kept : ∀ i row, v.rows .orderTimeline i = some row → v'.rows .orderTimeline i = some row
  added : ∀ i row, v'.rows .orderTimeline i = some row → v.rows .orderTimeline i = some row ∨
    ∃ eventId event, v.seq .eventLog ≤ eventId ∧ v'.rows .eventLog eventId = some event ∧
      event.entityType = .order ∧ row = OrderTimelineProjectionService.rowOf eventId event
  sourced : Sourced v → Sourced v'

theorem Extends.refl (v : Database) : Extends v v :=
  ⟨Nat.le_refl _,fun _ _ found => found,fun _ _ found => found,fun _ _ found => .inl found,id⟩

theorem Extends.trans (v v₁ v₂ : Database) (first : Extends v v₁) (second : Extends v₁ v₂) : Extends v v₂ := by
  refine ⟨Nat.le_trans first.seq second.seq,fun i event found => second.log i event (first.log i event found),
    fun i row found => second.kept i row (first.kept i row found),?_,second.sourced ∘ first.sourced⟩
  intro i row found
  rcases second.added i row found with before | ⟨eventId,event,above,rest⟩
  · rcases first.added i row before with earlier | ⟨eventId,event,above,logged,rest⟩
    · exact .inl earlier
    · exact .inr ⟨eventId,event,above,second.log _ _ logged,rest⟩
  · exact .inr ⟨eventId,event,Nat.le_trans first.seq above,rest⟩

theorem extends_plain {x : Transaction α} (within : Confined (fun t => t.books = false) x) : Follows Extends x := by
  intro v r ran
  have quiet := quiet_run within ran
  refine ⟨Nat.le_of_eq quiet.seq.symm,?_,?_,?_,fun sourced => sourced_quiet sourced quiet⟩
  · intro i event found
    rw [quiet.rows .eventLog rfl]; exact found
  · intro i row found
    rw [quiet.rows .orderTimeline rfl]; exact found
  · intro i row found
    rw [quiet.rows .orderTimeline rfl] at found; exact .inl found

theorem extends_createEvent : Follows Extends (createEvent params) := by
  intro v r ran
  obtain ⟨_,log,seq,orders,jobs⟩ := createEvent_books ran
  refine ⟨by omega,?_,fun i row found => by rw [orders]; exact found,fun i row found => .inl (by rw [← orders]; exact found),?_⟩
  · intro i event found
    rw [log,Function.update_of_ne (Nat.ne_of_lt (v.below found))]; exact found
  · intro sourced
    refine ⟨fun i row event found source => ?_,fun i row event found source => ?_⟩
    · rw [orders] at found
      have earlier := sourced.order i row event found source
      omega
    · rw [jobs] at found
      have earlier := sourced.job i row event found source
      omega

theorem projects_seq {P : Projection t} (projects : Projects P v eventId event v') :
    v'.seq .eventLog = v.seq .eventLog := by
  cases projects with
  | foreign | present => rfl
  | inserted =>
    have aside := P.aside
    simp [Db.apply,Db.inserts,Writes.onTable,aside]

-- A projection adds one row to one timeline, if any.
theorem projectEvent_rows {event : EventLog} (ran : (projectEvent eventId event).run v = .ok (u,v')) :
    v'.rows .eventLog = v.rows .eventLog ∧ v'.seq .eventLog = v.seq .eventLog ∧
      (∀ i row, v.rows .orderTimeline i = some row → v'.rows .orderTimeline i = some row) ∧
      (∀ i row, v'.rows .orderTimeline i = some row → v.rows .orderTimeline i = some row ∨
        (event.entityType = .order ∧ row = OrderTimelineProjectionService.rowOf eventId event)) ∧
      ∀ i row, v'.rows .jobTimeline i = some row → v.rows .jobTimeline i = some row ∨
        (event.entityType = .job ∧ row = JobTimelineProjectionService.rowOf eventId event) := by
  unfold projectEvent at ran
  split at ran
  · have projects := projection_parts orderProjection v eventId event
    have same : performed (orderProjection.project eventId event) v = v' := by
      unfold performed
      rw [← orderProjection_project,ran]
    rw [same] at projects
    refine ⟨projects_log orderProjection projects,projects_seq projects,
      fun i row found => projects_keeps orderProjection projects found,?_,?_⟩
    · intro i row found
      cases projects with
      | foreign | present => exact .inl found
      | inserted kind =>
        rw [v.apply_insert] at found
        exact (update_some found).symm.imp And.right fun new => ⟨kind,new.2⟩
    · intro i row found
      cases projects with
      | foreign | present => exact .inl found
      | inserted =>
        rw [v.apply_inserts_other _ (by exact nofun)] at found
        exact .inl found
  · have projects := projection_parts jobProjection v eventId event
    have same : performed (jobProjection.project eventId event) v = v' := by
      unfold performed
      rw [← jobProjection_project,ran]
    rw [same] at projects
    have untouched : v'.rows .orderTimeline = v.rows .orderTimeline := by
      cases projects with
      | foreign | present => rfl
      | inserted => exact v.apply_inserts_other _ nofun
    refine ⟨projects_log jobProjection projects,projects_seq projects,?_,?_,?_⟩
    · intro i row found
      rw [untouched]; exact found
    · intro i row found
      rw [untouched] at found; exact .inl found
    · intro i row found
      cases projects with
      | foreign | present => exact .inl found
      | inserted kind =>
        rw [v.apply_insert] at found
        exact (update_some found).symm.imp And.right fun new => ⟨kind,new.2⟩

theorem sourced_projectEvent {event : EventLog} (sourced : Sourced v) (logged : eventId < v.seq .eventLog)
    (ran : (projectEvent eventId event).run v = .ok (u,v')) : Sourced v' := by
  obtain ⟨_,seq,_,orders,jobs⟩ := projectEvent_rows ran
  refine ⟨fun i row other found source => ?_,fun i row other found source => ?_⟩
  · rw [seq]
    rcases orders i row found with before | ⟨_,rfl⟩
    · exact sourced.order i row other before source
    · cases source; exact logged
  · rw [seq]
    rcases jobs i row found with before | ⟨_,rfl⟩
    · exact sourced.job i row other before source
    · cases source; exact logged

theorem extends_recordEvent : Follows Extends (recordEvent params) := by
  rintro v ⟨u,v'⟩ ran
  obtain ⟨event,middle,created,projected⟩ := Tx.run_bind_ok.mp ran
  have first : Extends v middle := extends_createEvent _ _ created
  obtain ⟨rfl,log,seq,orders,_⟩ := createEvent_books created
  obtain ⟨sameLog,sameSeq,kept,added,_⟩ := projectEvent_rows projected
  have logged : middle.rows .eventLog (v.seq .eventLog) = some (params.event v.clock) := by rw [log,Function.update_self]
  have grows : v.seq .eventLog ≤ v'.seq .eventLog := by omega
  refine ⟨grows,fun i event found => by rw [sameLog]; exact first.log i event found,
    fun i row found => kept i row (first.kept i row found),?_,?_⟩
  · intro i row found
    rcases added i row found with before | ⟨kind,same⟩
    · rw [orders] at before; exact .inl before
    · exact .inr ⟨_,_,Nat.le_refl _,by rw [sameLog]; exact logged,kind,same⟩
  · intro sourced
    exact sourced_projectEvent (first.sourced sourced) (by omega) projected

theorem extends_recording : Recording (fun t => t.books = false) Extends where
  order := rfl
  orderItem := rfl
  batch := rfl
  job := rfl
  stop := rfl
  deliverer := rfl
  refl := Extends.refl
  trans := Extends.trans
  plain := extends_plain
  recorded _ := extends_recordEvent

theorem confined_updateUser {T : Tab → Prop} {f : Nat → User → User} (user : T .user) : Confined T (updateUser userId f) :=
  confined_update user

-- The second half of an event recorded outside a transaction.
def Proc.projecting : Proc → Prop
  | projectEvent .. => True
  | _ => False

theorem extends_commit {env : Env} {x : Proc} (whole : ¬x.projecting) (at_tx : Proc.next env x = .tx body) : Follows Extends body := by
  have keeps := extends_recording
  cases x <;> simp only [Proc.next,reduceCtorEq] at at_tx
  case notifyCustomers => split at at_tx <;> cases at_tx
  case requeue => split at at_tx <;> cases at_tx
  all_goals cases at_tx
  case insertOrder => exact keeps.bind (recording_createOrderTx keeps) fun _ => keeps.ret _
  case claimReady => exact keeps.bind (recording_vendorMarkReadyTx keeps) fun _ => keeps.ret _
  case closeBatch => exact keeps.after (confined_updateMany rfl) fun _ => keeps.ret _
  case updateDecided => exact keeps.after (confined_update rfl) fun _ => keeps.ret _
  case recordEvent => exact keeps.bind extends_createEvent fun _ => keeps.ret _
  case projectEvent => exact absurd trivial whole
  case assign => exact keeps.bind (recording_assignTx keeps) fun _ => keeps.ret _
  case startJob => exact keeps.bind (recording_startJobTx keeps) fun _ => keeps.ret _
  case completeDropOff => exact keeps.bind (recording_completeDropOffTx keeps) fun _ => keeps.ret _
  case completeJob => exact keeps.bind (recording_completeJobTx keeps) fun _ => keeps.ret _
  case writeLocation => exact keeps.after (confined_update rfl) fun _ => keeps.ret _
  case recoverUnstartedJob => exact keeps.after (confined_recoverTx rfl rfl rfl rfl) fun _ => keeps.ret _
  case writeProfile => exact keeps.after (confined_update rfl) fun _ => keeps.ret _
  case markPresence => exact keeps.after (confined_updateUser rfl) fun _ => keeps.ret _
  case deleteProfile => exact keeps.after (confined_deleteProfileTx rfl rfl rfl rfl) fun _ => keeps.ret _
  case demote => exact keeps.after (confined_updateUser rfl) fun _ => keeps.ret _
  case promote => exact keeps.after (confined_updateUser rfl) fun _ => keeps.ret _
  case createProfile => exact keeps.after (confined_createProfileTx rfl) fun _ => keeps.ret _

section Telling
variable {v v' : Database}

theorem latest_kept (kept : ∀ i row, v.rows .orderTimeline i = some row → v'.rows .orderTimeline i = some row)
    (added : ∀ i (row : OrderTimeline), v'.rows .orderTimeline i = some row → v.rows .orderTimeline i = some row ∨
      row.orderId ≠ orderId ∨ row.status = none)
    (latest : LatestStatus v orderId status) : LatestStatus v' orderId status := by
  obtain ⟨i,row,event,found,own,has,source,last⟩ := latest
  refine ⟨i,row,event,kept i row found,own,has,source,?_⟩
  intro j other later at_j ofOrder stated sourced
  rcases added j other at_j with before | foreign | untold
  · exact last j other later before ofOrder stated sourced
  · exact absurd ofOrder foreign
  · exact absurd untold stated

-- No order has another status, and no event says that one has.
theorem told_silently (told : Told v) (within : Extends v v')
    (silent : ∀ eventId event, v.seq .eventLog ≤ eventId → v'.rows .eventLog eventId = some event →
      event.entityType ≠ .order)
    (same : ∀ i o', v'.rows .order i = some o' → ∃ o, v.rows .order i = some o ∧ Order.status o' = Order.status o) :
    Told v' := by
  intro i o' found
  obtain ⟨o,before,status⟩ := same i o' found
  rw [status]
  refine latest_kept within.kept ?_ (told i o before)
  intro j row at_j
  rcases within.added j row at_j with earlier | ⟨eventId,event,above,logged,kind,_⟩
  · exact .inl earlier
  · exact absurd kind (silent eventId event above logged)

theorem booked_event (booked : Booked v now ps v') (above : v.seq .eventLog ≤ eventId)
    (logged : v'.rows .eventLog eventId = some event) :
    ∃ params, ps[eventId-v.seq .eventLog]? = some params ∧ event = params.event now := by
  rw [booked.events] at logged
  unfold inserted at logged
  rw [if_pos above,List.getElem?_map] at logged
  obtain ⟨params,found,same⟩ := Option.map_eq_some_iff.mp logged
  exact ⟨params,found,same.symm⟩

-- An order takes a status, and the one event of an order says so.
theorem told_recorded (told : Told v) (sourced : Sourced v) (within : Extends v v')
    (booked : Booked v now (⟨.order,orderId,eventType,orderPayload orderId status.name⟩::jobs) v')
    (jobs_ : ∀ params ∈ jobs, Params.entityType params = .job)
    (own : ∀ o', v'.rows .order orderId = some o' → Order.status o' = status)
    (others : ∀ i o', i ≠ orderId → v'.rows .order i = some o' →
      ∃ o, v.rows .order i = some o ∧ Order.status o' = Order.status o) : Told v' := by
  have logged : v'.rows .eventLog (v.seq .eventLog) =
      some ((⟨.order,orderId,eventType,orderPayload orderId status.name⟩ : Params).event now) := by
    rw [booked.events]
    simp [inserted]
  have only : ∀ eventId event, v.seq .eventLog ≤ eventId → v'.rows .eventLog eventId = some event →
      event.entityType = .order → eventId = v.seq .eventLog ∧ event.entityId = orderId := by
    intro eventId event above at_event kind
    obtain ⟨params,found,rfl⟩ := booked_event booked above at_event
    cases place : eventId-v.seq .eventLog with
    | zero =>
      rw [place] at found
      cases found
      exact ⟨by omega,rfl⟩
    | succ n =>
      rw [place,List.getElem?_cons_succ] at found
      have job := jobs_ params (List.mem_of_getElem? found)
      exact absurd (kind.symm.trans job) nofun
  intro i o' found
  by_cases same : i = orderId
  · subst i
    rw [own o' found]
    obtain ⟨k,at_k⟩ : ∃ k, v'.rows .orderTimeline k = some (OrderTimelineProjectionService.rowOf (v.seq .eventLog)
        ((⟨.order,orderId,eventType,orderPayload orderId status.name⟩ : Params).event now)) :=
      booked.projected _ _ (Nat.le_refl _) logged
    refine ⟨k,_,_,at_k,rfl,OrderStatus.ofJson_name status,rfl,?_⟩
    intro j other later at_j _ _ source
    rcases within.added j other at_j with before | ⟨eventId,event,above,at_event,kind,rfl⟩
    · exact Nat.le_of_lt (sourced.order j other later before source)
    · cases source
      exact Nat.le_of_eq (only later event above at_event kind).1
  · obtain ⟨o,before,sameStatus⟩ := others i o' same found
    rw [sameStatus]
    refine latest_kept within.kept ?_ (told i o before)
    intro j row at_j
    rcases within.added j row at_j with earlier | ⟨eventId,event,above,at_event,kind,rfl⟩
    · exact .inl earlier
    · refine .inr (.inl ?_)
      rw [show (OrderTimelineProjectionService.rowOf eventId event).orderId = event.entityId from rfl,
        (only eventId event above at_event kind).2]
      exact Ne.symm same

end Telling

-- The step writes no order a status that no event of the order tells: nobody decides,
-- nothing is assigned, started, recovered or finished, or the orders have the status.
def Proc.TellsStatus (c : Dispatch) : Proc → Prop
  | updateDecided decision orderId _ => ∀ o, c.order orderId = some o → o.status = decision.status
  | assign batchId _ delivererId _ => ∀ k p, c.batch batchId = some k → k.delivererId = none → k.status = .inProgress →
      c.deliverer delivererId = some p → p.availability = true → p.activeJobId = none →
      ∀ i o, c.order i = some o → o.deliveryBatchId = some batchId → o.status = .waitingForDeliverer
  | startJob jobId delivererId => ∀ job, c.job jobId = some job → job.delivererId = some delivererId →
      job.status = .assigned → ∀ i o, c.order i = some o → o.deliveryJobId = some jobId → o.status = .inProgress
  | completeDropOff jobId dropOffId delivererId => ∀ job stop, c.job jobId = some job →
      job.delivererId = some delivererId → job.status = .inProgress →
      c.stop dropOffId = some stop → stop.jobId = jobId → stop.status ≠ .completed →
      (∀ i other, i ≠ dropOffId → c.stop i = some other → other.jobId = jobId → other.status = .completed) →
      ∀ i o, c.order i = some o → i ≠ stop.orderId → o.deliveryJobId = some jobId → o.status = .completed
  | completeJob jobId delivererId => ∀ job, c.job jobId = some job → job.delivererId = some delivererId →
      job.status = .inProgress → ∀ i o, c.order i = some o → o.deliveryJobId = some jobId → o.status = .completed
  | recoverUnstartedJob deliverer _ _ => ∀ job, c.job deliverer.jobId = some job → job.status = .assigned →
      ∀ i o, c.order i = some o → o.deliveryJobId = some deliverer.jobId → o.status = .waitingForDeliverer
  | _ => True

-- The order whose status the step's own event tells.
def Proc.tells (c : Dispatch) : Proc → Option Nat
  | claimReady orderId _ _ => some orderId
  | completeDropOff _ dropOffId _ => (c.stop dropOffId).map DeliveryDropOff.orderId
  | _ => none

theorem rewritten_status {P : Nat → Order → Bool} {f : Order → Order} {orders : Nat → Option Order}
    (found : rewritten P f orders i = some o') (same : ∀ o, orders i = some o → P i o = true → (f o).status = o.status) :
    ∃ o, orders i = some o ∧ o'.status = o.status := by
  obtain ⟨o,before,rfl⟩ := rewritten_some found
  refine ⟨o,before,?_⟩
  split
  · rename_i hit; exact same o before hit
  · rfl

theorem order_status (commit : Committed now x c y c') (tells : x.TellsStatus c) (found : c'.order i = some o')
    (untold : x.tells c ≠ some i) : (∃ o, c.order i = some o ∧ o'.status = o.status) ∨
      (∃ dto vendorId costumerId vendor, x = .insertOrder dto vendorId costumerId vendor ∧ y = .notifyNewOrder vendorId i) := by
  cases commit with
  | insertOrder fresh =>
    rcases update_some found with ⟨rfl,_⟩ | ⟨_,before⟩
    · exact .inr ⟨_,_,_,_,rfl,rfl⟩
    · exact .inl ⟨o',before,rfl⟩
  | joinBatch | openBatch =>
    rcases update_some found with ⟨rfl,_⟩ | ⟨_,before⟩
    · exact absurd rfl untold
    · exact .inl ⟨o',before,rfl⟩
  | updateDecided at_order =>
    rcases update_some found with ⟨rfl,rfl⟩ | ⟨_,before⟩
    · exact .inl ⟨_,at_order,(tells _ at_order).symm⟩
    · exact .inl ⟨o',before,rfl⟩
  | assign at_batch unclaimed closed at_deliverer available free =>
    dsimp only [Dispatch.assign] at found
    refine .inl (rewritten_status found fun o before part => ?_)
    exact (tells _ _ at_batch unclaimed closed at_deliverer available free i o before (of_decide_eq_true part)).symm
  | startJob at_job own ready =>
    dsimp only at found
    refine .inl (rewritten_status found fun o before part => ?_)
    exact (tells _ at_job own ready i o before (of_decide_eq_true part)).symm
  | completeDropOff at_job own started at_stop =>
    dsimp only [Dispatch.dropOff] at found
    refine .inl (rewritten_status found fun o before hit => ?_)
    refine absurd ?_ untold
    rw [Proc.tells,at_stop,Option.map_some,(of_decide_eq_true hit).1]
  | completeLast at_job own started at_stop part pending all at_batch at_deliverer =>
    rename_i job d stop j k p s
    have apart : i ≠ stop.orderId := fun same => untold (by rw [Proc.tells,at_stop,Option.map_some,same])
    have others : ∀ k other, k ≠ s → c.stop k = some other → other.jobId = j → other.status = .completed := by
      intro k other different at_k ofJob
      refine all k other ?_ ofJob
      dsimp only [Dispatch.dropOff]
      rw [Function.update_of_ne different]; exact at_k
    dsimp only [Dispatch.finish,Dispatch.dropOff] at found
    obtain ⟨middle,between,last⟩ := rewritten_some found
    obtain ⟨o,before,first⟩ := rewritten_some between
    rw [if_neg fun hit => apart (of_decide_eq_true hit).1] at first
    subst first
    refine .inl ⟨middle,before,?_⟩
    rw [last]
    split
    · rename_i hit
      obtain ⟨ofJob,open_⟩ := of_decide_eq_true hit
      exact absurd (tells _ _ at_job own started at_stop part pending others i middle before apart ofJob) open_
    · rfl
  | completeJob at_job own started =>
    dsimp only [Dispatch.finish] at found
    refine .inl (rewritten_status found fun o before hit => ?_)
    exact (tells _ at_job own started i o before (of_decide_eq_true hit).1).symm
  | recoverUnstartedJob at_deliverer at_job unstarted =>
    dsimp only [Dispatch.recover] at found
    refine .inl (rewritten_status found fun o before part => ?_)
    exact (tells _ at_job unstarted i o before (of_decide_eq_true part)).symm
  | deleteProfile =>
    rw [Dispatch.forget_order] at found
    exact .inl (rewritten_status found fun _ _ _ => rfl)
  | _ => exact .inl ⟨o',found,rfl⟩

-- An event that is recorded outside a transaction tells no status.
def Untelling (v : Database) : Proc → Prop
  | .recordEvent params _ => params.entityType = .order → OrderStatus.ofJson (params.payload.field "status") = none
  | .projectEvent eventId event _ => v.rows .eventLog eventId = some event ∧
      (event.entityType = .order → OrderStatus.ofJson (event.payload.field "status") = none)
  | _ => True

theorem untelling_uncommitted {y : Proc} (reached : y.uncommitted) : Untelling v y := by
  cases y with
  | recordEvent params caller =>
    cases caller with
    | escalated => cases reached; exact nofun
    | issue => cases reached; exact fun _ => rfl
    | decision | recovered => cases reached
  | projectEvent => cases reached
  | _ => trivial

theorem untelling_log {x : Proc} (known : Untelling v x)
    (log : ∀ i event, v.rows .eventLog i = some event → v'.rows .eventLog i = some event) : Untelling v' x := by
  cases x with
  | projectEvent eventId event => exact ⟨log _ _ known.1,known.2⟩
  | recordEvent => exact known
  | _ => trivial

theorem decision_untelling (decision : Decision) (orderId : Nat) :
    OrderStatus.ofJson ((decisionEvent decision orderId).payload.field "status") = none := by
  cases decision <;> rfl

theorem untelling_commit {env : Env} (known : Untelling v x) (at_tx : Proc.next env x = .tx body)
    (ran : body.run v = .ok (y,v')) : Untelling v' y := by
  cases x <;> simp only [Proc.next,reduceCtorEq] at at_tx
  case notifyCustomers => split at at_tx <;> cases at_tx
  case requeue => split at at_tx <;> cases at_tx
  all_goals
    cases at_tx
    obtain ⟨r,middle,first,ended⟩ := Tx.run_bind_ok.mp ran
    cases ended
  case updateDecided decision orderId _ => exact fun _ => decision_untelling decision orderId
  case recoverUnstartedJob => exact (fun no => by cases no)
  case recordEvent params caller =>
    obtain ⟨rfl,log,_⟩ := createEvent_books first
    exact ⟨by rw [log,Function.update_self],known⟩
  case claimReady =>
    split
    · trivial
    · exact untelling_uncommitted (afterBatching_uncommitted)
  case closeBatch =>
    split
    · exact untelling_uncommitted (closed_uncommitted _)
    · trivial
  case projectEvent => exact untelling_uncommitted (recorded_uncommitted _)
  case writeLocation => exact untelling_uncommitted (flushed_uncommitted _)
  case completeDropOff => split <;> trivial
  all_goals trivial

-- No event of an order is logged.
def Silent (v v' : Database) : Prop :=
  ∀ eventId event, v.seq .eventLog ≤ eventId → v'.rows .eventLog eventId = some event → event.entityType ≠ .order

theorem silent_quiet (quiet : Quiet v v') : Silent v v' := by
  intro eventId event above logged
  rw [quiet.rows .eventLog rfl,v.bounded .eventLog eventId above] at logged
  cases logged

theorem silent_booked (booked : Booked v now ps v') (jobs : ∀ params ∈ ps, Params.entityType params = .job) :
    Silent v v' := by
  intro eventId event above logged kind
  obtain ⟨params,found,rfl⟩ := booked_event booked above logged
  exact absurd (kind.symm.trans (jobs params (List.mem_of_getElem? found))) nofun

theorem completeJobTx_silent (sourced : Sourced v) (ran : (completeJobTx j d).run v = .ok (u,v')) : Silent v v' := by
  unfold completeJobTx at ran
  have checks := lockedJob_parts ran
  split at checks
  · cases checks
  split at checks
  · cases checks
  split at checks
  · cases checks
  refine silent_booked (finishJob_books (booked_nil v) sourced checks) ?_
  intro params member
  rw [List.mem_singleton.mp member]; rfl

-- An order is completed by its stop, and stays so when the job is.
theorem dropped_status (ran : (completeDropOffTx j s d).run v = .ok (done,v')) :
    ∃ stop, (dispatch v).stop s = some stop ∧ ∀ o', (dispatch v').order stop.orderId = some o' →
      o'.status = .completed ∧ ∃ o, (dispatch v).order stop.orderId = some o := by
  obtain ⟨job,stop,_,_,_,at_stop,_,_,after⟩ := completeDropOffTx_parts ran
  have dropped : ∀ o', ((dispatch v).dropOff v.clock s stop).order stop.orderId = some o' →
      o'.status = .completed ∧ ∃ o, (dispatch v).order stop.orderId = some o := by
    intro o' found
    dsimp only [Dispatch.dropOff] at found
    obtain ⟨o,before,same⟩ := rewritten_some found
    refine ⟨?_,o,before⟩
    rw [same]
    by_cases open_ : o.status = .completed
    · rw [if_neg (by simp [open_])]; exact open_
    · rw [if_pos (by simp [open_])]; rfl
  refine ⟨stop,at_stop,?_⟩
  intro o' found
  rcases after with ⟨_,same,_⟩ | ⟨_,_,k,p,_,_,same⟩
  · rw [same] at found
    exact dropped o' found
  · rw [same] at found
    dsimp only [Dispatch.finish] at found
    obtain ⟨middle,between,last⟩ := rewritten_some found
    obtain ⟨completed,before⟩ := dropped middle between
    refine ⟨?_,before⟩
    rw [last,if_neg (by simp [completed])]
    exact completed

theorem told_completeDropOff {env : Env} (told : Told v) (sourced : Sourced v)
    (tells : (Proc.completeDropOff j s d).TellsStatus (dispatch v))
    (at_tx : Proc.next env (.completeDropOff j s d) = .tx body) (ran : body.run v = .ok (y,v'))
    (first : (completeDropOffTx j s d).run v = .ok (done,v')) : Told v' := by
  have commit := committed at_tx ran
  have within := extends_commit id at_tx _ _ ran
  obtain ⟨stop,at_stop,booked⟩ := completeDropOffTx_books sourced first
  obtain ⟨stop',at_stop',completed⟩ := dropped_status first
  obtain rfl : stop' = stop := Option.some.inj (at_stop'.symm.trans at_stop)
  have others : ∀ i o', i ≠ stop'.orderId → v'.rows .order i = some o' →
      ∃ o, v.rows .order i = some o ∧ Order.status o' = Order.status o := by
    intro i o' different found
    have untold : (Proc.completeDropOff j s d).tells (dispatch v) ≠ some i := by
      rw [Proc.tells,at_stop]
      exact fun same => different (Option.some.inj same).symm
    rcases order_status commit tells found untold with before | ⟨_,_,_,_,other,_⟩
    · exact before
    · cases other
  have jobs : ∀ params ∈ (if done then [jobCompletedEvent j] else []), Params.entityType params = .job := by
    intro params member
    split at member
    · rw [List.mem_singleton.mp member]; rfl
    · cases member
  by_cases open_ : ∃ o, (dispatch v).order stop'.orderId = some o ∧ o.status ≠ .completed
  · obtain ⟨o,before,pending⟩ := open_
    have events : orderEvents (dispatch v) stop'.orderId =
        [⟨.order,stop'.orderId,EVENTS.ORDER.COMPLETED,orderPayload stop'.orderId OrderStatus.completed.name⟩] := by
      simp only [orderEvents,before,if_pos pending]
    rw [events] at booked
    exact told_recorded told sourced within booked jobs (fun o' found => (completed o' found).1) others
  · have events : orderEvents (dispatch v) stop'.orderId = [] := by
      unfold orderEvents
      split
      · rename_i o before
        rw [if_neg fun pending => open_ ⟨o,before,pending⟩]
      · rfl
    rw [events,List.nil_append] at booked
    refine told_silently told within (silent_booked booked jobs) ?_
    intro i o' found
    by_cases same : i = stop'.orderId
    · subst i
      obtain ⟨done,o,before⟩ := completed o' found
      refine ⟨o,before,?_⟩
      rw [done]
      by_contra pending
      exact open_ ⟨o,before,Ne.symm pending⟩
    · exact others i o' same found

-- The steps that record no event of an order.
def Proc.silent : Proc → Prop
  | insertOrder .. | claimReady .. | completeDropOff .. | recordEvent .. | projectEvent .. => False
  | _ => True

theorem silent_untold (silent : Proc.silent x) : x.tells c ≠ some i := by
  cases x with
  | claimReady | completeDropOff => exact silent.elim
  | _ => exact nofun

theorem silent_commit {env : Env} (sourced : Sourced v) (silent : x.silent) (at_tx : Proc.next env x = .tx body)
    (ran : body.run v = .ok (y,v')) : Silent v v' := by
  cases x <;> simp only [Proc.next,reduceCtorEq] at at_tx
  case notifyCustomers => split at at_tx <;> cases at_tx
  case requeue => split at at_tx <;> cases at_tx
  case insertOrder | claimReady | completeDropOff | recordEvent | projectEvent => exact silent.elim
  all_goals
    cases at_tx
    obtain ⟨r,middle,first,ended⟩ := Tx.run_bind_ok.mp ran
    cases ended
  case assign => exact silent_booked (assignTx_books sourced first) (List.forall_mem_singleton.mpr rfl)
  case startJob => exact silent_booked (startJobTx_books sourced first) (List.forall_mem_singleton.mpr rfl)
  case completeJob => exact completeJobTx_silent sourced first
  case closeBatch => exact silent_quiet (quiet_run (confined_updateMany rfl) first)
  case updateDecided => exact silent_quiet (quiet_run (confined_update rfl) first)
  case writeLocation => exact silent_quiet (quiet_run (confined_update rfl) first)
  case recoverUnstartedJob => exact silent_quiet (quiet_run (confined_recoverTx rfl rfl rfl rfl) first)
  case writeProfile => exact silent_quiet (quiet_run (confined_update rfl) first)
  case deleteProfile => exact silent_quiet (quiet_run (confined_deleteProfileTx rfl rfl rfl rfl) first)
  case createProfile => exact silent_quiet (quiet_run (confined_createProfileTx rfl) first)
  case markPresence | demote | promote => exact silent_quiet (quiet_run (confined_updateUser rfl) first)

theorem told_commit {env : Env} (told : Told v) (sourced : Sourced v) (known : Untelling v x)
    (tells : x.TellsStatus (dispatch v)) (at_tx : Proc.next env x = .tx body) (ran : body.run v = .ok (y,v')) :
    Told v' := by
  have commit := committed at_tx ran
  have at_step := at_tx
  by_cases silent : x.silent
  · have whole : ¬x.projecting := by
      cases x with
      | projectEvent => exact silent.elim
      | _ => exact id
    refine told_silently told (extends_commit whole at_tx _ _ ran) (silent_commit sourced silent at_tx ran) ?_
    intro i o' found
    rcases order_status commit tells found (silent_untold silent) with before | ⟨_,_,_,_,rfl,_⟩
    · exact before
    · exact silent.elim
  cases x with
  | insertOrder dto vendorId costumerId vendor =>
    cases at_tx
    obtain ⟨o,middle,first,ended⟩ := Tx.run_bind_ok.mp ran
    cases ended
    obtain ⟨fresh,same⟩ := createOrderTx_parts first
    have rows : v'.rows .order =
        Function.update (v.rows .order) o (some (newOrder dto vendorId costumerId vendor v.clock)) :=
      congrArg Dispatch.order same
    have within := extends_commit id at_step _ _ ran
    refine told_recorded told sourced within (createOrderTx_books sourced first) (fun _ member => nomatch member) ?_ ?_
    · intro o' found
      rw [rows,Function.update_self] at found
      cases found; rfl
    · intro i o' different found
      rw [rows,Function.update_of_ne different] at found
      exact ⟨o',found,rfl⟩
  | claimReady orderId customerId orderType =>
    cases at_tx
    obtain ⟨outcome,middle,first,ended⟩ := Tx.run_bind_ok.mp ran
    cases ended
    have within := extends_commit id at_step _ _ ran
    obtain ⟨r,at_order,_,after⟩ := vendorMarkReadyTx_parts first
    have rows : ∃ b, v'.rows .order =
        Function.update (v.rows .order) orderId (some (joined b (readied orderType v.clock r))) := by
      rcases after with ⟨b,k,close,_,_,_,same⟩ | ⟨b,_,_,same⟩
      · exact ⟨b,congrArg Dispatch.order same⟩
      · exact ⟨b,congrArg Dispatch.order same⟩
    obtain ⟨b,rows⟩ := rows
    refine told_recorded told sourced within (vendorMarkReadyTx_books sourced first) (fun _ member => nomatch member) ?_ ?_
    · intro o' found
      rw [rows,Function.update_self] at found
      cases found; rfl
    · intro i o' different found
      rw [rows,Function.update_of_ne different] at found
      exact ⟨o',found,rfl⟩
  | completeDropOff jobId dropOffId delivererId =>
    cases at_tx
    obtain ⟨done,middle,first,ended⟩ := Tx.run_bind_ok.mp ran
    have last : middle = v' := by
      split at ended <;> cases ended <;> rfl
    rw [last] at first
    exact told_completeDropOff told sourced tells at_step ran first
  | recordEvent params caller =>
    cases at_tx
    obtain ⟨event,middle,first,ended⟩ := Tx.run_bind_ok.mp ran
    cases ended
    obtain ⟨_,_,_,orders,_⟩ := createEvent_books first
    intro i o found
    obtain ⟨_,before,same⟩ | ⟨_,_,_,_,other,_⟩ := order_status commit tells found nofun
    · rw [same]
      exact latest_kept (fun i row at_i => by rw [orders]; exact at_i) (fun i row at_i => .inl (by rw [← orders]; exact at_i))
        (told i _ before)
    · cases other
  | projectEvent eventId event caller =>
    cases at_tx
    obtain ⟨_,middle,first,ended⟩ := Tx.run_bind_ok.mp ran
    cases ended
    obtain ⟨_,_,kept,added,_⟩ := projectEvent_rows first
    intro i o found
    obtain ⟨_,before,same⟩ | ⟨_,_,_,_,other,_⟩ := order_status commit tells found nofun
    · rw [same]
      refine latest_kept kept ?_ (told i _ before)
      intro j row at_j
      rcases added j row at_j with earlier | ⟨kind,rfl⟩
      · exact .inl earlier
      · exact .inr (.inr (known.2 kind))
    · cases other
  | _ => exact absurd trivial silent

theorem kept_commit {env : Env} (known : Untelling v x) (at_tx : Proc.next env x = .tx body)
    (ran : body.run v = .ok (y,v')) : (Sourced v → Sourced v') ∧
      ∀ i event, v.rows .eventLog i = some event → v'.rows .eventLog i = some event := by
  by_cases whole : x.projecting
  · cases x with
    | projectEvent eventId event caller =>
      cases at_tx
      obtain ⟨_,middle,first,ended⟩ := Tx.run_bind_ok.mp ran
      cases ended
      refine ⟨fun sourced => sourced_projectEvent sourced (v.below known.1) first,?_⟩
      intro i event found
      rw [(projectEvent_rows first).1]; exact found
    | _ => exact whole.elim
  · have within := extends_commit whole at_tx _ _ ran
    exact ⟨within.sourced,within.log⟩

theorem untelling_entry (entry : Entry x) : Untelling v x := by
  cases entry <;> trivial

theorem sound_told {env : Env} : Sound (market env) (fun v => Told v ∧ Sourced v) (fun x v => Untelling v x)
    (fun _ _ => True) (fun w m => Admitted w m ∧ Guarded (fun x c => x.TellsStatus c) w m) where
  spawn w x _ allowed := untelling_entry allowed.1
  work w task _ _ := by cases task <;> trivial
  query w p x read _ _ at_query := untelling_uncommitted (query_uncommitted at_query w.db)
  input x v read i _ at_input := untelling_uncommitted (input_uncommitted at_input i)
  add x v task next _ _ at_add := ⟨untelling_uncommitted (add_uncommitted at_add),trivial⟩
  emit x v note next _ at_emit := untelling_uncommitted (emit_uncommitted at_emit)
  caught x v e _ := untelling_uncommitted (caught_uncommitted x e)
  commit w p x body i y v' valid found allowed at_tx ran := by
    have known := valid.fact p x found
    obtain ⟨told,sourced⟩ := valid.inv
    obtain ⟨sources,log⟩ := kept_commit known at_tx ran
    refine ⟨⟨told_commit told sourced known (allowed.2 p i x rfl found) at_tx ran,sources sourced⟩,
      untelling_commit known at_tx ran,?_,fun _ _ => trivial⟩
    intro q z _ at_q
    exact untelling_log (valid.fact q z at_q) log
  tick w ms valid := by
    refine ⟨⟨valid.inv.1,valid.inv.2.order,valid.inv.2.job⟩,?_,fun _ _ => trivial⟩
    intro p x found
    exact untelling_log (valid.fact p x found) fun _ _ at_i => at_i

theorem timeline_tells_status {env : Env} (opening : Opening start)
    (unwritten : ∀ i, start.db.rows .orderTimeline i = none) (jobless : ∀ i, start.db.rows .jobTimeline i = none)
    (path : Reached (market env) (fun w m => Admitted w m ∧ Guarded (fun x c => x.TellsStatus c) w m) start w) :
    Told w.db := by
  have told : Told start.db := by
    intro i o found
    have empty := opening.order i
    exact absurd (empty.symm.trans found) nofun
  have sourced : Sourced start.db :=
    ⟨fun i row event found => absurd ((unwritten i).symm.trans found) nofun,
      fun i row event found => absurd ((jobless i).symm.trans found) nofun⟩
  refine (holds_reached sound_told ⟨⟨told,sourced⟩,?_,fun _ _ => trivial⟩ path).inv.1
  intro p x found
  exact absurd ((opening.threads p).symm.trans found) nofun

-- The steps that write no status but the one that their event tells.
def Proc.outright : Proc → Bool
  | updateDecided .. | assign .. | startJob .. | completeDropOff .. | completeJob .. | recoverUnstartedJob .. => false
  | _ => true

theorem outright_tells (outright : Proc.outright x = true) : x.TellsStatus c := by
  cases x <;> trivial

def telling (w : Market) (m : MarketMove) : Bool :=
  enters m && match m with
    | .step p _ => ((w.threads p).map Proc.outright).getD true
    | _ => true

theorem telling_parts (passed : telling w m = true) : Admitted w m ∧ Guarded (fun x c => x.TellsStatus c) w m := by
  obtain ⟨entry,outright⟩ := Bool.and_eq_true_iff.mp passed
  refine ⟨enters_admitted entry,?_⟩
  rintro p i x rfl found
  simp only [found,Option.map_some,Option.getD_some] at outright
  exact outright_tells outright

-- An order is placed, made ready, and its batch closed.
def readiedOrder : List MarketMove :=
  ask (.createOrder ⟨[],none,some 0,some 0,none,none⟩ 0 0) 0 3 ++ ask (.vendorMarkReady 0 1) 1 5 ++ .work 0::steps 2 2

theorem timeline_tells_status_readied : Told (morning.run (market village) readiedOrder).db := by
  refine timeline_tells_status opening_morning (fun _ => rfl) (fun _ => rfl) (reached_run .refl readiedOrder ?_)
  have checked : (morning.trace (market village) readiedOrder).all (fun made => telling made.1 made.2) = true := by
    decide +kernel
  exact fun made member => telling_parts (List.all_eq_true.mp checked made member)

-- No operation and no worker starts before the last one has answered, and nothing fails.
def OneAtATime (w : Market) : MarketMove → Prop
  | .spawn _ | .work _ => ∀ p < w.spawned, ∃ reply, w.threads p = some (.returned reply)
  | .step _ _ | .tick _ => True
  | _ => False

def Proc.answered : Proc → Bool
  | returned _ => true
  | _ => false

def answeredAll (w : Market) : Bool := (List.range w.spawned).all fun p => ((w.threads p).map Proc.answered).getD false

theorem answeredAll_parts (all : answeredAll w = true) : ∀ p < w.spawned, ∃ reply, w.threads p = some (.returned reply) := by
  intro p below
  have answered := List.all_eq_true.mp all p (List.mem_range.mpr below)
  cases found : w.threads p with
  | none => rw [found] at answered; cases answered
  | some x =>
    rw [found] at answered
    cases x with
    | returned reply => exact ⟨reply,rfl⟩
    | _ => cases answered

def consecutive (w : Market) (m : MarketMove) : Bool :=
  enters m && match m with
    | .spawn _ | .work _ => answeredAll w
    | .step _ _ | .tick _ => true
    | _ => false

theorem consecutive_parts (passed : consecutive w m = true) : Admitted w m ∧ OneAtATime w m := by
  obtain ⟨entry,alone⟩ := Bool.and_eq_true_iff.mp passed
  refine ⟨enters_admitted entry,?_⟩
  cases m with
  | spawn | work => exact answeredAll_parts alone
  | step | tick => trivial
  | _ => cases alone

-- A shop accepts the only order, and nothing else happens.
def acceptance : List MarketMove :=
  ask (.createOrder ⟨[],none,some 0,some 0,none,none⟩ 0 0) 0 3 ++ ask (.vendorDecide .vendorAcceptOrder 0 1) 1 6

theorem accepted_untold : ¬∀ (env : Env) (start w : Market), Opening start →
    (∀ i, start.db.rows .orderTimeline i = none) → (∀ i, start.db.rows .jobTimeline i = none) →
    Reached (market env) (fun w m => Admitted w m ∧ OneAtATime w m) start w →
    (∀ p < w.spawned, ∃ reply, w.threads p = some (.returned reply)) → Told w.db := by
  intro claim
  have checked : (morning.trace (market village) acceptance).all (fun made => consecutive made.1 made.2) = true := by
    decide +kernel
  have path : Reached (market village) (fun w m => Admitted w m ∧ OneAtATime w m) morning
      (morning.run (market village) acceptance) :=
    reached_run .refl acceptance fun made member => consecutive_parts (List.all_eq_true.mp checked made member)
  have last : answeredAll (morning.run (market village) acceptance) = true := by decide +kernel
  have status : ((morning.run (market village) acceptance).db.rows .order 0).map Order.status = some .vendorAccepted := by
    decide +kernel
  have rows : ∀ i < (morning.run (market village) acceptance).db.seq .orderTimeline,
      ((morning.run (market village) acceptance).db.rows .orderTimeline i).bind OrderTimeline.status ≠
        some .vendorAccepted := by
    decide +kernel
  have told := claim village morning _ opening_morning (fun _ => rfl) (fun _ => rfl) path (answeredAll_parts last)
  obtain ⟨o,found,accepted⟩ := Option.map_eq_some_iff.mp status
  obtain ⟨i,row,event,at_row,_,has,_⟩ := told 0 o found
  refine rows i (Db.below _ at_row) ?_
  rw [at_row,Option.bind_some,has,accepted]

end MesyafMarket
