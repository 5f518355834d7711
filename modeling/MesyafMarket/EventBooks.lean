import MesyafMarket.Relational.Frame
import MesyafMarket.Dispatch.Commit

namespace MesyafMarket
open Relational OrderService DelivererAssignmentService DelivererJobService DelivererRecoveryService
open EventLogService

-- The tables that events are recorded in.
def Tab.books : Tab → Bool
  | .eventLog | .orderTimeline | .jobTimeline => true
  | _ => false

structure Quiet (v v' : Database) : Prop where
  rows : ∀ t, t.books = true → v'.rows t = v.rows t
  seq : v'.seq .eventLog = v.seq .eventLog

theorem Quiet.trans (first : Quiet v v₁) (second : Quiet v₁ v₂) : Quiet v v₂ :=
  ⟨fun t books => (second.rows t books).trans (first.rows t books),second.seq.trans first.seq⟩

theorem quiet_run {x : Transaction α} (within : Confined (fun t => t.books = false) x) (ran : x.run v = .ok r) :
    Quiet v r.2 := by
  refine ⟨?_,(confined_run within ran (by exact nofun)).2⟩
  intro t books
  exact (confined_run within ran (by rw [books]; exact nofun)).1

-- A timeline row names an event that has been logged.
structure Sourced (v : Database) : Prop where
  order : ∀ i row event, v.rows .orderTimeline i = some row → row.sourceEventId = some event → event < v.seq .eventLog
  job : ∀ i row event, v.rows .jobTimeline i = some row → row.sourceEventId = some event → event < v.seq .eventLog

theorem sourced_quiet (sourced : Sourced v) (quiet : Quiet v v') : Sourced v' := by
  refine ⟨?_,?_⟩
  · intro i row event found
    rw [quiet.rows .orderTimeline rfl] at found
    rw [quiet.seq]; exact sourced.order i row event found
  · intro i row event found
    rw [quiet.rows .jobTimeline rfl] at found
    rw [quiet.seq]; exact sourced.job i row event found

-- The timeline row projected from a logged event.
def Projected (v : Database) (eventId : Nat) (event : EventLog) : Prop :=
  match event.entityType with
  | .order => ∃ i, v.rows .orderTimeline i = some (OrderTimelineProjectionService.rowOf eventId event)
  | .job => ∃ i, v.rows .jobTimeline i = some (JobTimelineProjectionService.rowOf eventId event)

theorem projected_quiet (projected : Projected v eventId event) (quiet : Quiet v v') : Projected v' eventId event := by
  unfold Projected at projected ⊢
  rw [quiet.rows .orderTimeline rfl,quiet.rows .jobTimeline rfl]
  exact projected

-- Since `v₀` exactly the events `ps` have been logged, each with its timeline row.
structure Booked (v₀ : Database) (now : Nat) (ps : List Params) (v : Database) : Prop where
  events : v.rows .eventLog = inserted (v₀.seq .eventLog) (ps.map fun params => params.event now) (v₀.rows .eventLog)
  next : v.seq .eventLog = v₀.seq .eventLog+ps.length
  projected : ∀ eventId event, v₀.seq .eventLog ≤ eventId → v.rows .eventLog eventId = some event →
    Projected v eventId event

theorem booked_nil (v : Database) : Booked v now [] v := by
  refine ⟨?_,rfl,?_⟩
  · funext i
    unfold inserted
    split
    · rename_i above; rw [v.bounded .eventLog i above]; rfl
    · rfl
  · intro eventId event above found
    rw [v.bounded .eventLog eventId above] at found; cases found

theorem booked_quiet (booked : Booked v₀ now ps v) (quiet : Quiet v v') : Booked v₀ now ps v' := by
  refine ⟨(quiet.rows .eventLog rfl).trans booked.events,quiet.seq.trans booked.next,?_⟩
  intro eventId event above found
  rw [quiet.rows .eventLog rfl] at found
  exact projected_quiet (booked.projected eventId event above found) quiet

theorem inserted_snoc {rows : Nat → Option R} (new : List R) (row : R) :
    inserted base (new ++ [row]) rows = Function.update (inserted base new rows) (base+new.length) (some row) := by
  funext i
  unfold inserted
  by_cases same : i = base+new.length
  · subst i
    rw [Function.update_self,if_pos (by omega),List.getElem?_append_right (by omega)]
    simp
  · rw [Function.update_of_ne same]
    split
    · rename_i above
      by_cases inside : i-base < new.length
      · rw [List.getElem?_append_left inside]
      · rw [List.getElem?_eq_none (by simp only [List.length_append,List.length_singleton]; omega),
          List.getElem?_eq_none (by omega)]
    · rfl

-- The first write of recordEvent.
theorem createEvent_books (ran : (createEvent params).run v = .ok (r,v')) :
    r = (v.seq .eventLog,params.event v.clock) ∧
      v'.rows .eventLog = Function.update (v.rows .eventLog) (v.seq .eventLog) (some (params.event v.clock)) ∧
      v'.seq .eventLog = v.seq .eventLog+1 ∧ v'.rows .orderTimeline = v.rows .orderTimeline ∧
      v'.rows .jobTimeline = v.rows .jobTimeline := by
  unfold createEvent at ran
  rw [Tx.run_create] at ran
  cases ran
  have seq : (v.apply (v.inserts .eventLog [params.event v.clock])).seq .eventLog = v.seq .eventLog+1 := by
    simp [Db.apply,Db.inserts,Writes.onTable]
  exact ⟨rfl,v.apply_insert _,seq,v.apply_inserts_other _ (by decide),v.apply_inserts_other _ (by decide)⟩

-- The second: no timeline row of the event is there yet.
theorem projectEvent_books {event : EventLog}
    (free : (∀ i row, v.rows .orderTimeline i = some row → row.sourceEventId ≠ some eventId) ∧
      ∀ i row, v.rows .jobTimeline i = some row → row.sourceEventId ≠ some eventId)
    (ran : (projectEvent eventId event).run v = .ok (u,v')) :
    v'.rows .eventLog = v.rows .eventLog ∧ v'.seq .eventLog = v.seq .eventLog ∧ Projected v' eventId event ∧
      (∀ i row, v'.rows .orderTimeline i = some row → v.rows .orderTimeline i = some row ∨ row.sourceEventId = some eventId) ∧
      (∀ i row, v'.rows .jobTimeline i = some row → v.rows .jobTimeline i = some row ∨ row.sourceEventId = some eventId) ∧
      ∀ i other, Projected v i other → Projected v' i other := by
  have kept : ∀ {t : Tab} (row : Row t) i old, v.rows t i = some old →
      (v.apply (v.inserts t [row])).rows t i = some old := by
    intro t row i old found
    rw [v.apply_insert,Function.update_of_ne (Nat.ne_of_lt (v.below found))]; exact found
  unfold projectEvent at ran
  split at ran
  · rename_i kind
    unfold OrderTimelineProjectionService.project at ran
    rw [if_neg (by rw [kind]; exact fun no => no rfl)] at ran
    obtain ⟨n,middle,created,ended⟩ := Tx.run_bind_ok.mp ran
    cases ended
    have absent : v.matching .orderTimeline (fun _ (row : OrderTimeline) => row.sourceEventId = some eventId) = [] :=
      v.matching_nil.mpr fun i row found => decide_eq_false (free.1 i row found)
    rw [Tx.run_createUnlessPresent v absent] at created
    cases created
    refine ⟨v.apply_inserts_other _ (by decide),by simp [Db.apply,Db.inserts,Writes.onTable],?_,?_,?_,?_⟩
    · unfold Projected
      rw [kind]
      exact ⟨v.seq .orderTimeline,by rw [v.apply_insert,Function.update_self]⟩
    · intro i row found
      rw [v.apply_insert] at found
      rcases update_some found with ⟨_,same⟩ | ⟨_,before⟩
      · exact .inr (by rw [same]; rfl)
      · exact .inl before
    · intro i row found
      rw [v.apply_inserts_other _ (by exact (by decide))] at found
      exact .inl found
    · intro i other projected
      unfold Projected at projected ⊢
      split at projected
      · obtain ⟨k,found⟩ := projected
        exact ⟨k,kept _ k _ found⟩
      · rw [v.apply_inserts_other _ (by exact (by decide))]; exact projected
  · rename_i kind
    unfold JobTimelineProjectionService.project at ran
    rw [if_neg (by rw [kind]; exact fun no => no rfl)] at ran
    obtain ⟨n,middle,created,ended⟩ := Tx.run_bind_ok.mp ran
    cases ended
    have absent : v.matching .jobTimeline (fun _ (row : JobTimeline) => row.sourceEventId = some eventId) = [] :=
      v.matching_nil.mpr fun i row found => decide_eq_false (free.2 i row found)
    rw [Tx.run_createUnlessPresent v absent] at created
    cases created
    refine ⟨v.apply_inserts_other _ (by decide),by simp [Db.apply,Db.inserts,Writes.onTable],?_,?_,?_,?_⟩
    · unfold Projected
      rw [kind]
      exact ⟨v.seq .jobTimeline,by rw [v.apply_insert,Function.update_self]⟩
    · intro i row found
      rw [v.apply_inserts_other _ (by exact (by decide))] at found
      exact .inl found
    · intro i row found
      rw [v.apply_insert] at found
      rcases update_some found with ⟨_,same⟩ | ⟨_,before⟩
      · exact .inr (by rw [same]; rfl)
      · exact .inl before
    · intro i other projected
      unfold Projected at projected ⊢
      split at projected
      · rw [v.apply_inserts_other _ (by exact (by decide))]; exact projected
      · obtain ⟨k,found⟩ := projected
        exact ⟨k,kept _ k _ found⟩

theorem booked_record (booked : Booked v₀ v.clock ps v) (sourced : Sourced v)
    (ran : (recordEvent params).run v = .ok (u,v')) : Booked v₀ v.clock (ps ++ [params]) v' ∧ Sourced v' := by
  unfold recordEvent at ran
  obtain ⟨event,middle,created,projected⟩ := Tx.run_bind_ok.mp ran
  obtain ⟨rfl,log,seq,orders,jobs⟩ := createEvent_books created
  have free : (∀ i row, middle.rows .orderTimeline i = some row → row.sourceEventId ≠ some (v.seq .eventLog)) ∧
      ∀ i row, middle.rows .jobTimeline i = some row → row.sourceEventId ≠ some (v.seq .eventLog) := by
    rw [orders,jobs]
    exact ⟨fun i row found same => Nat.lt_irrefl _ (sourced.order i row _ found same),
      fun i row found same => Nat.lt_irrefl _ (sourced.job i row _ found same)⟩
  obtain ⟨sameLog,sameSeq,own,ordersAfter,jobsAfter,others⟩ := projectEvent_books free projected
  refine ⟨⟨?_,?_,?_⟩,?_,?_⟩
  · rw [sameLog,log,booked.events,List.map_append,List.map_singleton,inserted_snoc,List.length_map,booked.next]
  · rw [sameSeq,seq,booked.next,List.length_append,List.length_singleton]; omega
  · intro eventId event above found
    rw [sameLog,log] at found
    rcases update_some found with ⟨same,is⟩ | ⟨_,before⟩
    · rw [same,is]; exact own
    · refine others eventId event ?_
      have earlier := booked.projected eventId event above before
      unfold Projected at earlier ⊢
      rw [orders,jobs]; exact earlier
  · intro i row event found source
    rw [sameSeq,seq]
    rcases ordersAfter i row found with before | same
    · rw [orders] at before
      have earlier := sourced.order i row event before source
      omega
    · rw [same] at source
      cases source
      omega
  · intro i row event found source
    rw [sameSeq,seq]
    rcases jobsAfter i row found with before | same
    · rw [jobs] at before
      have earlier := sourced.job i row event before source
      omega
    · rw [same] at source
      cases source
      omega

-- A transaction that writes elsewhere and then records one event.
theorem books_once (sourced : Sourced v) (quiet : Quiet v v₁) (clock : v₁.clock = v.clock)
    (ran : (recordEvent params).run v₁ = .ok (u,v₂)) : Booked v v.clock [params] v₂ := by
  have booked := booked_record (booked_quiet (booked_nil v) quiet) (sourced_quiet sourced quiet) ran
  rw [clock] at booked
  exact booked.1

section Bodies
variable {v v' : Database}

theorem createOrderTx_books (sourced : Sourced v)
    (ran : (createOrderTx dto vendorId costumerId vendor).run v = .ok (o,v')) :
    Booked v v.clock [⟨.order,o,EVENTS.ORDER.CREATED,orderPayload o OrderStatus.pendingVendorConfirmation.name⟩] v' := by
  unfold createOrderTx at ran
  obtain ⟨referenced,start,selected,ran⟩ := Tx.run_bind_ok.mp ran
  rw [Tx.run_select] at selected
  cases selected
  split at ran
  · cases ran
  obtain ⟨order,first,created,ran⟩ := Tx.run_bind_ok.mp ran
  obtain ⟨_,second,items,ran⟩ := Tx.run_bind_ok.mp ran
  have quiet := (quiet_run (confined_create rfl) created).trans (quiet_run (confined_createMany rfl) items)
  have clock := (run_clock items).trans (run_clock created)
  obtain ⟨_,third,recorded,ended⟩ := Tx.run_bind_ok.mp ran
  cases ended
  exact books_once sourced quiet clock recorded

theorem confined_projectEvent {T : Tab → Prop} (order : T .orderTimeline) (job : T .jobTimeline) :
    Confined T (EventLogService.projectEvent eventId event) := by
  unfold EventLogService.projectEvent
  split
  · unfold OrderTimelineProjectionService.project
    split
    · trivial
    · exact confined_bind (confined_createUnlessPresent order _) fun _ => trivial
  · unfold JobTimelineProjectionService.project
    split
    · trivial
    · exact confined_bind (confined_createUnlessPresent job _) fun _ => trivial

theorem confined_recordEvent {T : Tab → Prop} (log : T .eventLog) (order : T .orderTimeline) (job : T .jobTimeline) :
    Confined T (EventLogService.recordEvent params) :=
  confined_bind (confined_create log) fun _ => confined_projectEvent order job

theorem confined_connectOrder {T : Tab → Prop} (order : T .order) : Confined T (connectOrder b o) := by
  refine confined_updates order ?_
  intro v
  split <;> trivial

theorem confined_assignToBatch {env : Env} {T : Tab → Prop} (order : T .order) (batch : T .deliveryBatch) :
    Confined T (assignToBatch env o r) := by
  have loop : ∀ batches, Confined T (assignToBatchLoop env o r batches) := by
    intro batches
    induction batches with
    | nil => exact confined_bind (confined_create batch) fun _ => confined_bind (confined_connectOrder order) fun _ => trivial
    | cons batch rest ih =>
      unfold assignToBatchLoop
      split
      · exact ih
      · exact confined_bind (confined_connectOrder order) fun _ => trivial
  exact confined_bind confined_selectLocking fun _ => confined_bind confined_select fun _ =>
    confined_bind confined_selectLocking loop

theorem vendorMarkReadyTx_books {env : Env} (sourced : Sourced v)
    (ran : (vendorMarkReadyTx env o orderType).run v = .ok (outcome,v')) :
    Booked v v.clock [⟨.order,o,EVENTS.ORDER.READY,orderPayload o OrderStatus.readyForDelivery.name⟩] v' := by
  unfold vendorMarkReadyTx at ran
  obtain ⟨claimed,first,updated,ran⟩ := Tx.run_bind_ok.mp ran
  split at ran
  · cases ran
  obtain ⟨readyOrder,second,read,ran⟩ := Tx.run_bind_ok.mp ran
  obtain ⟨batching,third,batched,ran⟩ := Tx.run_bind_ok.mp ran
  have quiet := ((quiet_run (confined_updateMany rfl) updated).trans
    (quiet_run confined_findUniqueOrThrow read)).trans (quiet_run (confined_assignToBatch rfl rfl) batched)
  have clock := ((run_clock batched).trans (run_clock read)).trans (run_clock updated)
  obtain ⟨_,fourth,recorded,ended⟩ := Tx.run_bind_ok.mp ran
  cases ended
  exact books_once sourced quiet clock recorded

theorem confined_upsertJob {T : Tab → Prop} (job : T .deliveryJob) : Confined T (upsertJob b d n) := by
  intro v
  refine ⟨?_,?_⟩
  · intro t other
    beta_reduce
    split
    · exact updates_outside v (apart_of job other)
    · exact inserts_outside v _ (apart_of job other)
  · beta_reduce
    split <;> trivial

theorem confined_claimDeliverer {T : Tab → Prop} (deliverer : T .delivererProfile) :
    Confined T (claimDeliverer d j) := by
  refine confined_updates deliverer ?_
  intro v
  split
  · trivial
  · split <;> trivial

theorem assignTx_books (sourced : Sourced v) (ran : (assignTx b orders d).run v = .ok (j,v')) :
    Booked v v.clock [⟨.job,j,EVENTS.JOB.ASSIGNED,jobPayload j .assigned⟩] v' := by
  unfold assignTx at ran
  obtain ⟨jobId,first,upserted,ran⟩ := Tx.run_bind_ok.mp ran
  obtain ⟨updatedBatch,second,claimed,ran⟩ := Tx.run_bind_ok.mp ran
  split at ran
  · cases ran
  obtain ⟨_,third,taken,ran⟩ := Tx.run_bind_ok.mp ran
  obtain ⟨_,fourth,ordersHanded,ran⟩ := Tx.run_bind_ok.mp ran
  obtain ⟨_,fifth,cleared,ran⟩ := Tx.run_bind_ok.mp ran
  obtain ⟨_,sixth,created,ran⟩ := Tx.run_bind_ok.mp ran
  have quiet := (((((quiet_run (confined_upsertJob rfl) upserted).trans (quiet_run (confined_updateMany rfl) claimed)).trans
    (quiet_run (confined_claimDeliverer rfl) taken)).trans (quiet_run (confined_updateMany rfl) ordersHanded)).trans
    (quiet_run (confined_deleteMany rfl) cleared)).trans (quiet_run (confined_createMany rfl) created)
  have clock := ((((run_clock created).trans (run_clock cleared)).trans (run_clock ordersHanded)).trans
    ((run_clock taken).trans (run_clock claimed))).trans (run_clock upserted)
  obtain ⟨_,seventh,recorded,ended⟩ := Tx.run_bind_ok.mp ran
  cases ended
  exact books_once sourced quiet clock recorded

theorem confined_recoverTx {T : Tab → Prop} (deliverer : T .delivererProfile) (job : T .deliveryJob)
    (batch : T .deliveryBatch) (order : T .order) : Confined T (recoverTx d j b) :=
  confined_bind (confined_update deliverer) fun _ => confined_bind (confined_update job) fun _ =>
    confined_bind (confined_update batch) fun _ => confined_bind (confined_updateMany order) fun _ => trivial

theorem startJobTx_books (sourced : Sourced v) (ran : (startJobTx j d).run v = .ok (u,v')) :
    Booked v v.clock [⟨.job,j,EVENTS.JOB.STARTED,jobPayload j .inProgress⟩] v' := by
  unfold startJobTx at ran
  obtain ⟨started,first,updated,ran⟩ := Tx.run_bind_ok.mp ran
  split at ran
  · obtain ⟨found,_,read,ran⟩ := Tx.run_bind_ok.mp ran
    split at ran
    · cases ran
    · split at ran <;> cases ran
  obtain ⟨_,second,moved,recorded⟩ := Tx.run_bind_ok.mp ran
  exact books_once sourced ((quiet_run (confined_updateMany rfl) updated).trans (quiet_run (confined_updateMany rfl) moved))
    ((run_clock moved).trans (run_clock updated)) recorded

def jobCompletedEvent (j : Nat) : Params := ⟨.job,j,EVENTS.JOB.COMPLETED,jobPayload j .completed⟩

theorem finishJob_books (booked : Booked v₀ v.clock ps v) (sourced : Sourced v)
    (ran : (finishJob j d b).run v = .ok (u,v')) : Booked v₀ v.clock (ps ++ [jobCompletedEvent j]) v' := by
  unfold finishJob at ran
  obtain ⟨done,first,updated,ran⟩ := Tx.run_bind_ok.mp ran
  split at ran
  · cases ran
  obtain ⟨_,second,closed,ran⟩ := Tx.run_bind_ok.mp ran
  obtain ⟨_,third,freed,ran⟩ := Tx.run_bind_ok.mp ran
  obtain ⟨_,fourth,moved,recorded⟩ := Tx.run_bind_ok.mp ran
  have quiet := (((quiet_run (confined_updateMany rfl) updated).trans (quiet_run (confined_update rfl) closed)).trans
    (quiet_run (confined_update rfl) freed)).trans (quiet_run (confined_updateMany rfl) moved)
  have clock := ((run_clock moved).trans (run_clock freed)).trans ((run_clock closed).trans (run_clock updated))
  have result := booked_record (by rw [clock]; exact booked_quiet booked quiet) (sourced_quiet sourced quiet) recorded
  rw [clock] at result
  exact result.1

-- The event of a stop's order: none if the order was completed already.
def orderEvents (c : Dispatch) (o : Nat) : List Params :=
  match c.order o with
  | some r => if r.status ≠ .completed then
      [⟨.order,o,EVENTS.ORDER.COMPLETED,orderPayload o OrderStatus.completed.name⟩] else []
  | none => []

theorem recordOrderCompleted_books (booked : Booked v₀ v.clock ps v) (sourced : Sourced v)
    (count : n = (before.matching .order fun i (r : Order) => i = o ∧ r.status ≠ .completed).length)
    (ran : (recordOrderCompleted o n).run v = .ok (u,v')) :
    Booked v₀ v.clock (ps ++ orderEvents (dispatch before) o) v' ∧ Sourced v' := by
  subst count
  unfold recordOrderCompleted at ran
  split at ran
  · rename_i one
    obtain ⟨i,r,found,hit⟩ := matching_length (by rw [one]; exact nofun)
    obtain ⟨rfl,open_⟩ := of_decide_eq_true hit
    have events : orderEvents (dispatch before) i =
        [⟨.order,i,EVENTS.ORDER.COMPLETED,orderPayload i OrderStatus.completed.name⟩] := by
      have at_order : (dispatch before).order i = some r := found
      simp only [orderEvents,at_order,if_pos open_]
    rw [events]
    exact booked_record booked sourced ran
  · rename_i other
    cases ran
    have events : orderEvents (dispatch before) o = [] := by
      unfold orderEvents
      split
      · rename_i r found
        split
        · rename_i open_
          have row : before.rows .order o = some r := found
          rw [before.matching_key (k := o) (fun i r hit => (of_decide_eq_true hit).1) row
            (decide_eq_true ⟨rfl,open_⟩)] at other
          exact absurd rfl other
        · rfl
      · rfl
    rw [events,List.append_nil]
    exact ⟨booked,sourced⟩

theorem completeDropOffTx_books (sourced : Sourced v) (ran : (completeDropOffTx j s d).run v = .ok (done,v')) :
    ∃ stop, (dispatch v).stop s = some stop ∧
      Booked v v.clock (orderEvents (dispatch v) stop.orderId ++ if done then [jobCompletedEvent j] else []) v' := by
  unfold completeDropOffTx at ran
  have checks := lockedJob_parts ran
  split at checks
  · cases checks
  split at checks
  · cases checks
  split at checks
  · cases checks
  obtain ⟨_,first,updated,claim⟩ := Tx.run_bind_ok.mp checks
  split at claim
  · cases claim
  rename_i claimed
  obtain ⟨rfl,atFirst⟩ := updateMany_parts updated
  obtain ⟨i,stop,found,hit⟩ := matching_length claimed
  obtain ⟨rfl,_⟩ := of_decide_eq_true hit
  have at_stop : (dispatch v).stop i = some stop := found
  obtain ⟨dropOff,kept,read,afterRead⟩ := Tx.run_bind_ok.mp claim
  obtain ⟨at_row,same⟩ := Tx.run_findUniqueOrThrow_ok read
  rw [same] at afterRead
  obtain ⟨orderDone,second,moved,afterOrder⟩ := Tx.run_bind_ok.mp afterRead
  obtain ⟨count,_⟩ := updateMany_parts moved
  obtain ⟨_,third,recorded,afterEvent⟩ := Tx.run_bind_ok.mp afterOrder
  obtain ⟨_,fourth,counted,ended⟩ := Tx.run_bind_ok.mp afterEvent
  rw [Tx.run_count] at counted
  cases counted
  have sameOrder : dropOff.orderId = stop.orderId := by
    rw [atFirst,Db.apply_updates] at at_row
    dsimp only at at_row
    rw [found,Option.map_some,if_pos hit] at at_row
    rw [← Option.some.inj at_row]
  have sameRows : orderEvents (dispatch first) dropOff.orderId = orderEvents (dispatch v) stop.orderId := by
    rw [sameOrder]
    unfold orderEvents
    rw [atFirst,dispatch_updates_stop]
  have clock : second.clock = v.clock := (run_clock moved).trans (run_clock updated)
  have quiet := (quiet_run (confined_updateMany rfl) updated).trans (quiet_run (confined_updateMany rfl) moved)
  obtain ⟨booked,sourcedThird⟩ := recordOrderCompleted_books (booked_quiet (booked_nil v) quiet)
    (sourced_quiet sourced quiet) count recorded
  rw [sameRows,List.nil_append] at booked
  refine ⟨stop,at_stop,?_⟩
  have clockThird : third.clock = second.clock := run_clock recorded
  split at ended
  · obtain ⟨_,last,finished,ended⟩ := Tx.run_bind_ok.mp ended
    cases ended
    have result := finishJob_books (by rw [clockThird]; exact booked) sourcedThird finished
    rw [clockThird,clock] at result
    exact result
  · cases ended
    rw [clock] at booked
    simpa using booked

end Bodies
end MesyafMarket
