import MesyafMarket.Dispatch.State

namespace MesyafMarket
open Relational OrderService DelivererAssignmentService DelivererJobService DelivererRecoveryService
open VendorService SessionService DelivererService DelivererLocationService AdminService

namespace Dispatch

-- The new rows of each operation that writes more than one of them.
def assign (c : Dispatch) (now b d j base : Nat) (orders : List (Nat × Order)) (k : DeliveryBatch)
    (p : DelivererProfile) : Dispatch :=
  {c with
    job := Function.update c.job j (some (assignedJob b d orders.length now))
    batch := Function.update c.batch b (some {k with delivererId := some d})
    deliverer := Function.update c.deliverer d (some {p with availability := false,activeJobId := some j})
    order := rewritten (fun _ o => o.deliveryBatchId = some b) (handed d j) c.order
    stop := inserted base (dropOffs j orders) (removed (fun _ s => s.jobId = j) c.stop)}

def dropOff (c : Dispatch) (now s : Nat) (stop : DeliveryDropOff) : Dispatch :=
  {c with
    stop := Function.update c.stop s (some {stop with status := .completed,completedAt := some now})
    order := rewritten (fun i o => i = stop.orderId ∧ o.status ≠ .completed) (delivered now) c.order}

def finish (c : Dispatch) (now j d : Nat) (job : DeliveryJob) (k : DeliveryBatch) (p : DelivererProfile) :
    Dispatch :=
  {c with
    job := Function.update c.job j (some {job with status := .completed,completedAt := some now})
    batch := Function.update c.batch job.batchId (some {k with status := .completed})
    deliverer := Function.update c.deliverer d (some {p with availability := true,activeJobId := none})
    order := rewritten (fun _ o => o.deliveryJobId = some j ∧ o.status ≠ .completed) (delivered now) c.order}

def recover (c : Dispatch) (d j b : Nat) (p : DelivererProfile) (job : DeliveryJob) (k : DeliveryBatch) :
    Dispatch :=
  {c with
    deliverer := Function.update c.deliverer d (some {p with activeJobId := none,availability := true})
    job := Function.update c.job j (some {job with status := .pending,delivererId := none})
    batch := Function.update c.batch b (some {k with delivererId := none,status := .inProgress})
    order := rewritten (fun _ o => o.deliveryJobId = some j) released c.order}

def forget (c : Dispatch) (d : Nat) : Dispatch :=
  {c with
    job := rewritten (fun _ j => j.delivererId = some d) (fun j => {j with delivererId := none}) c.job
    batch := rewritten (fun _ b => b.delivererId = some d) (fun b => {b with delivererId := none}) c.batch
    order := rewritten (fun _ o => o.delivererId = some d) (fun o => {o with delivererId := none}) c.order
    deliverer := removed (fun i _ => i = d) c.deliverer}

@[simp] theorem dropOff_job (c : Dispatch) : (c.dropOff now s row).job = c.job := rfl
@[simp] theorem dropOff_batch (c : Dispatch) : (c.dropOff now s row).batch = c.batch := rfl
@[simp] theorem dropOff_deliverer (c : Dispatch) : (c.dropOff now s row).deliverer = c.deliverer := rfl
@[simp] theorem dropOff_user (c : Dispatch) : (c.dropOff now s row).user = c.user := rfl
@[simp] theorem finish_stop (c : Dispatch) : (c.finish now j d row k p).stop = c.stop := rfl
@[simp] theorem finish_user (c : Dispatch) : (c.finish now j d row k p).user = c.user := rfl
@[simp] theorem forget_job (c : Dispatch) : (c.forget d).job =
    rewritten (fun _ j => j.delivererId = some d) (fun j => {j with delivererId := none}) c.job := rfl
@[simp] theorem forget_batch (c : Dispatch) : (c.forget d).batch =
    rewritten (fun _ b => b.delivererId = some d) (fun b => {b with delivererId := none}) c.batch := rfl
@[simp] theorem forget_order (c : Dispatch) : (c.forget d).order =
    rewritten (fun _ o => o.delivererId = some d) (fun o => {o with delivererId := none}) c.order := rfl
@[simp] theorem forget_deliverer (c : Dispatch) :
    (c.forget d).deliverer = removed (fun i _ => i = d) c.deliverer := rfl
@[simp] theorem forget_stop (c : Dispatch) : (c.forget d).stop = c.stop := rfl
@[simp] theorem forget_user (c : Dispatch) : (c.forget d).user = c.user := rfl

end Dispatch

-- What the commit of a process at `x` can do to the dispatch rows, and where the
-- process goes on.
inductive Committed (now : Nat) : Proc → Dispatch → Proc → Dispatch → Prop where
  | insertOrder (fresh : c.order o = none) :
      Committed now (.insertOrder dto vendorId costumerId vendor) c (.notifyNewOrder vendorId o)
        {c with order := Function.update c.order o (some (newOrder dto vendorId costumerId vendor now))}
  | joinBatch (found : c.order o = some r) (readyable : r.status ∈ READYABLE_STATUSES)
      (at_batch : c.batch b = some k) (pending : k.status = .pending) :
      Committed now (.claimReady o customerId orderType) c (.afterBatching ⟨b,false,close⟩ customerId o)
        {c with order := Function.update c.order o (some (joined b (readied orderType now r)))}
  | openBatch (found : c.order o = some r) (readyable : r.status ∈ READYABLE_STATUSES)
      (fresh : c.batch b = none) :
      Committed now (.claimReady o customerId orderType) c (.scheduleBatchTimeout ⟨b,true,false⟩ customerId o)
        {c with batch := Function.update c.batch b (some ⟨none,.pending,now⟩)
                order := Function.update c.order o (some (joined b (readied orderType now r)))}
  | closeBatch (at_batch : c.batch b = some k) (pending : k.status = .pending) :
      Committed now (.closeBatch b caller) c (.queueAssignment b caller)
        {c with batch := Function.update c.batch b (some {k with status := .inProgress})}
  | closedAlready (closed : ∀ k, c.batch b = some k → k.status ≠ .pending) :
      Committed now (.closeBatch b caller) c (.closed caller) c
  | updateDecided (found : c.order o = some r) :
      Committed now (.updateDecided decision o customerId) c
        (.recordEvent (decisionEvent decision o) (.decision customerId o decision.status))
        {c with order := Function.update c.order o (some {r with status := decision.status})}
  | recordEvent : Committed now (.recordEvent params caller) c (.projectEvent eventId (params.event now) caller) c
  | projectEvent : Committed now (.projectEvent eventId event caller) c (.recorded caller) c
  | assign (at_batch : c.batch b = some k) (unclaimed : k.delivererId = none) (closed : k.status = .inProgress)
      (at_deliverer : c.deliverer d = some p) (available : p.availability = true) (free : p.activeJobId = none)
      (only : ∀ i p', i ≠ d → c.deliverer i = some p' → p'.activeJobId ≠ some j)
      (job : (∃ old, c.job j = some old ∧ old.batchId = b) ∨
        (c.job j = none ∧ ∀ i old, c.job i = some old → old.batchId ≠ b))
      (fresh : ∀ s, base ≤ s → c.stop s = none) :
      Committed now (.assign b orders d caller) c (.notifyAssigned j b d orders caller)
        (c.assign now b d j base orders k p)
  | startJob (at_job : c.job j = some job) (own : job.delivererId = some d) (ready : job.status = .assigned) :
      Committed now (.startJob j d) c (.returned .done)
        {c with job := Function.update c.job j (some {job with status := .inProgress,startedAt := some now})
                order := rewritten (fun _ o => o.deliveryJobId = some j) underway c.order}
  | completeDropOff (at_job : c.job j = some job) (own : job.delivererId = some d)
      (started : job.status = .inProgress) (at_stop : c.stop s = some stop) (part : stop.jobId = j)
      (pending : stop.status ≠ .completed)
      (remaining : ∃ i rest, (c.dropOff now s stop).stop i = some rest ∧ rest.jobId = j ∧ rest.status ≠ .completed) :
      Committed now (.completeDropOff j s d) c (.returned (.jobCompleted false)) (c.dropOff now s stop)
  | completeLast (at_job : c.job j = some job) (own : job.delivererId = some d)
      (started : job.status = .inProgress) (at_stop : c.stop s = some stop) (part : stop.jobId = j)
      (pending : stop.status ≠ .completed)
      (all : ∀ i rest, (c.dropOff now s stop).stop i = some rest → rest.jobId = j → rest.status = .completed)
      (at_batch : c.batch job.batchId = some k) (at_deliverer : c.deliverer d = some p) :
      Committed now (.completeDropOff j s d) c (.flushToDb d (.afterJob (.jobCompleted true)))
        ((c.dropOff now s stop).finish now j d job k p)
  | completeJob (at_job : c.job j = some job) (own : job.delivererId = some d)
      (started : job.status = .inProgress)
      (at_batch : c.batch job.batchId = some k) (at_deliverer : c.deliverer d = some p) :
      Committed now (.completeJob j d) c (.flushToDb d (.afterJob .done)) (c.finish now j d job k p)
  | writeLocation (at_deliverer : c.deliverer d = some p) :
      Committed now (.writeLocation d loc caller) c (.flushed caller)
        {c with deliverer := Function.update c.deliverer d
                  (some {p with currentLat := some loc.lat,currentLng := some loc.lng})}
  | recoverUnstartedJob (at_deliverer : c.deliverer stale.id = some p) (at_job : c.job stale.jobId = some job)
      (unstarted : job.status = .assigned) (at_batch : c.batch snapshot.batchId = some k) :
      Committed now (.recoverUnstartedJob stale snapshot rest) c
        (.recordEvent (recoveredEvent stale.jobId) (.recovered snapshot.batchId rest))
        (c.recover stale.id stale.jobId snapshot.batchId p job k)
  | writeProfile :
      Committed now (.writeProfile userId data) c (.returned .done)
        {c with deliverer := rewritten (fun _ d => d.userId = userId)
                  (fun d => {d with currentLat := data.currentLat,currentLng := data.currentLng,
                                    availability := data.availability}) c.deliverer}
  | markPresence (at_user : c.user userId = some u) :
      Committed now (.markPresence presence userId) c (.returned .done)
        {c with user := Function.update c.user userId (some (presence.apply now u))}
  | deleteProfile (at_deliverer : c.deliverer d = some p) (own : p.userId = userId) :
      Committed now (.deleteProfile userId) c (.demote userId) (c.forget d)
  | demote (at_user : c.user userId = some u) :
      Committed now (.demote userId) c (.returned .done)
        {c with user := Function.update c.user userId (some {u with role := .customer})}
  | promote (at_user : c.user userId = some u) :
      Committed now (.promote userId) c (.createProfile userId)
        {c with user := Function.update c.user userId (some {u with role := .deliverer})}
  | createProfile (at_user : c.user userId = some u)
      (only : ∀ d p, c.deliverer d = some p → p.userId ≠ userId) (fresh : c.deliverer d = none) :
      Committed now (.createProfile userId) c (.returned .done)
        {c with deliverer := Function.update c.deliverer d (some ⟨userId,none,none,true,none⟩)}

section Bodies
variable {db db' : Database}

theorem update_parts {t : Tab} {P : Nat → Row t → Bool} {f : Nat → Row t → Row t}
    (ran : (Tx.update t P f missing : Transaction Unit).run db = .ok (u,db')) :
    db' = db.apply (db.updates t P (f db.clock)) ∧ ∃ i row, db.rows t i = some row ∧ P i row = true := by
  obtain ⟨found,same⟩ := Tx.run_update_ok ran
  cases same
  exact ⟨rfl,matching_some found⟩

theorem updateMany_parts {t : Tab} {P : Nat → Row t → Bool} {f : Nat → Row t → Row t}
    (ran : (Tx.updateMany t P f : Transaction Nat).run db = .ok (n,db')) :
    n = (db.matching t P).length ∧ db' = db.apply (db.updates t P (f db.clock)) := by
  rw [Tx.run_updateMany] at ran
  cases ran
  exact ⟨rfl,rfl⟩

theorem project_parts {new : Row t} (aside : Aside t) {P : Nat → Row t → Bool}
    (ran : (Tx.createUnlessPresent t P new : Transaction Nat).run db = .ok (n,db')) :
    dispatch db' = dispatch db := by
  unfold Tx.createUnlessPresent at ran
  simp only [Tx.run] at ran
  split at ran
  · cases ran; exact dispatch_inserts_aside db aside [new]
  · cases ran; simp [Effect.none]

theorem orderProjection_parts
    (ran : (OrderTimelineProjectionService.project eventId event).run db = .ok (u,db')) :
    dispatch db' = dispatch db := by
  unfold OrderTimelineProjectionService.project at ran
  split at ran
  · cases ran; rfl
  · obtain ⟨n,middle,projected,ended⟩ := Tx.run_bind_ok.mp ran
    cases ended
    exact project_parts .orderTimeline projected

theorem jobProjection_parts
    (ran : (JobTimelineProjectionService.project eventId event).run db = .ok (u,db')) :
    dispatch db' = dispatch db := by
  unfold JobTimelineProjectionService.project at ran
  split at ran
  · cases ran; rfl
  · obtain ⟨n,middle,projected,ended⟩ := Tx.run_bind_ok.mp ran
    cases ended
    exact project_parts .jobTimeline projected

theorem projectEvent_parts (ran : (EventLogService.projectEvent eventId event).run db = .ok (u,db')) :
    dispatch db' = dispatch db := by
  unfold EventLogService.projectEvent at ran
  split at ran
  · exact orderProjection_parts ran
  · exact jobProjection_parts ran

theorem createEvent_parts (ran : (EventLogService.createEvent params).run db = .ok (r,db')) :
    r = (db.seq .eventLog,params.event db.clock) ∧ dispatch db' = dispatch db := by
  unfold EventLogService.createEvent at ran
  rw [Tx.run_create] at ran
  cases ran
  exact ⟨rfl,dispatch_inserts_aside db .eventLog _⟩

theorem recordEvent_parts (ran : (EventLogService.recordEvent params).run db = .ok (u,db')) :
    dispatch db' = dispatch db := by
  unfold EventLogService.recordEvent at ran
  obtain ⟨event,middle,created,projected⟩ := Tx.run_bind_ok.mp ran
  exact (projectEvent_parts projected).trans (createEvent_parts created).2

theorem createOrderTx_parts (ran : (createOrderTx dto vendorId costumerId vendor).run db = .ok (o,db')) :
    (dispatch db).order o = none ∧
      dispatch db' = {dispatch db with
        order := Function.update (dispatch db).order o (some (newOrder dto vendorId costumerId vendor db.clock))} := by
  unfold createOrderTx at ran
  obtain ⟨referenced,start,selected,ran⟩ := Tx.run_bind_ok.mp ran
  rw [Tx.run_select] at selected
  cases selected
  split at ran
  · cases ran
  obtain ⟨order,first,created,ran⟩ := Tx.run_bind_ok.mp ran
  rw [Tx.run_create] at created
  cases created
  obtain ⟨_,second,items,ran⟩ := Tx.run_bind_ok.mp ran
  rw [Tx.run_createMany] at items
  cases items
  obtain ⟨_,third,recorded,ended⟩ := Tx.run_bind_ok.mp ran
  cases ended
  have fresh : ∀ i, db.seq .order ≤ i → (dispatch db).order i = none := fun i above => db.bounded .order i above
  refine ⟨fresh _ (Nat.le_refl _),?_⟩
  rw [recordEvent_parts recorded,dispatch_inserts_aside _ .orderItem,dispatch_inserts_order,inserted_one fresh]

theorem openBatches_pending {env : Env} (member : batch ∈ openBatches env db) :
    (dispatch db).batch batch.1 = some batch.2.1 ∧ batch.2.1.status = .pending := by
  unfold openBatches at member
  obtain ⟨b,sorted,rfl⟩ := List.mem_map.mp member
  have scanned := (env.scan_perm db _).mem_iff.mp ((List.mem_insertionSort _).mp sorted)
  obtain ⟨found,pending⟩ := db.mem_matching.mp scanned
  exact ⟨found,by simpa using pending⟩

theorem connectOrder_parts (ran : (connectOrder b o).run db = .ok (now,db')) :
    now = db.clock ∧ db' = db.apply (db.updates .order (fun i _ => i = o) (joined b)) := by
  unfold connectOrder at ran
  simp only [Tx.run] at ran
  split at ran
  · cases ran
  · cases ran; exact ⟨rfl,rfl⟩

-- The two ways out of the batching step.
theorem assignToBatchLoop_parts {env : Env} (batches : List OpenBatch)
    (valid : ∀ batch ∈ batches, (dispatch db).batch batch.1 = some batch.2.1 ∧ batch.2.1.status = .pending)
    (found : (dispatch db).order o = some r)
    (ran : (assignToBatchLoop env o order batches).run db = .ok (outcome,db')) :
    (∃ b k close, (dispatch db).batch b = some k ∧ k.status = .pending ∧ outcome = ⟨b,false,close⟩ ∧
      dispatch db' = {dispatch db with
        order := Function.update (dispatch db).order o (some (joined b r))}) ∨
    (∃ b, (dispatch db).batch b = none ∧ outcome = ⟨b,true,false⟩ ∧
      dispatch db' = {dispatch db with
        batch := Function.update (dispatch db).batch b (some ⟨none,.pending,db.clock⟩)
        order := Function.update (dispatch db).order o (some (joined b r))}) := by
  induction batches with
  | nil =>
    right
    simp only [assignToBatchLoop] at ran
    obtain ⟨created,middle,opened,ran⟩ := Tx.run_bind_ok.mp ran
    rw [Tx.run_create] at opened
    cases opened
    obtain ⟨now,last,connected,ended⟩ := Tx.run_bind_ok.mp ran
    cases ended
    obtain ⟨_,rfl⟩ := connectOrder_parts connected
    have fresh : ∀ i, db.seq .deliveryBatch ≤ i → (dispatch db).batch i = none :=
      fun i above => db.bounded .deliveryBatch i above
    refine ⟨db.seq .deliveryBatch,fresh _ (Nat.le_refl _),rfl,?_⟩
    rw [dispatch_updates_order,dispatch_inserts_batch,inserted_one fresh]
    dsimp only
    rw [rewritten_only found]
  | cons batch rest ih =>
    simp only [assignToBatchLoop] at ran
    split at ran
    · exact ih (fun b member => valid b (List.mem_cons_of_mem _ member)) ran
    · left
      obtain ⟨now,last,connected,ended⟩ := Tx.run_bind_ok.mp ran
      cases ended
      obtain ⟨rfl,rfl⟩ := connectOrder_parts connected
      obtain ⟨at_batch,pending⟩ := valid batch List.mem_cons_self
      refine ⟨batch.1,batch.2.1,_,at_batch,pending,rfl,?_⟩
      rw [dispatch_updates_order,rewritten_only found]

theorem vendorMarkReadyTx_parts {env : Env}
    (ran : (vendorMarkReadyTx env o orderType).run db = .ok (outcome,db')) :
    ∃ r, (dispatch db).order o = some r ∧ r.status ∈ READYABLE_STATUSES ∧
      ((∃ b k close, (dispatch db).batch b = some k ∧ k.status = .pending ∧ outcome = ⟨b,false,close⟩ ∧
        dispatch db' = {dispatch db with
          order := Function.update (dispatch db).order o (some (joined b (readied orderType db.clock r)))}) ∨
      (∃ b, (dispatch db).batch b = none ∧ outcome = ⟨b,true,false⟩ ∧
        dispatch db' = {dispatch db with
          batch := Function.update (dispatch db).batch b (some ⟨none,.pending,db.clock⟩)
          order := Function.update (dispatch db).order o (some (joined b (readied orderType db.clock r)))})) := by
  unfold vendorMarkReadyTx at ran
  obtain ⟨claimed,middle,updated,ran⟩ := Tx.run_bind_ok.mp ran
  rw [Tx.run_updateMany] at updated
  cases updated
  split at ran
  · cases ran
  rename_i claimed
  obtain ⟨i,r,found,hit⟩ := matching_length claimed
  obtain ⟨rfl,readyable⟩ : i = o ∧ r.status ∈ READYABLE_STATUSES := by simpa using hit
  have at_order : (dispatch db).order i = some r := found
  obtain ⟨readyOrder,_,read,ran⟩ := Tx.run_bind_ok.mp ran
  obtain ⟨_,rfl⟩ := Tx.run_findUniqueOrThrow_ok read
  obtain ⟨batching,last,batched,ran⟩ := Tx.run_bind_ok.mp ran
  obtain ⟨_,final,recorded,ended⟩ := Tx.run_bind_ok.mp ran
  cases ended
  have same := recordEvent_parts recorded
  unfold assignToBatch at batched
  obtain ⟨_,_,locked,batched⟩ := Tx.run_bind_ok.mp batched
  rw [Tx.run_lock] at locked
  cases locked
  obtain ⟨pending,_,selected,batched⟩ := Tx.run_bind_ok.mp batched
  rw [Tx.run_select] at selected
  cases selected
  obtain ⟨batches,_,selected,batched⟩ := Tx.run_bind_ok.mp batched
  rw [Tx.run_selectLocking] at selected
  cases selected
  have key := rewritten_key (P := fun r : Order => r.status ∈ READYABLE_STATUSES)
    (f := readied orderType db.clock) at_order readyable
  have parts := assignToBatchLoop_parts (o := i) (r := readied orderType db.clock r) _ (fun _ member => openBatches_pending member)
    (by rw [dispatch_updates_order,key]; exact Function.update_self ..) batched
  refine ⟨r,at_order,readyable,?_⟩
  rw [same]
  rw [dispatch_updates_order,key] at parts
  simpa only [Function.update_idem,Db.apply_clock] using parts

theorem closeBatchUpdate_parts (ran : (closeBatchUpdate b).run db = .ok (count,db')) :
    (count = 0 ∧ dispatch db' = dispatch db ∧ ∀ k, (dispatch db).batch b = some k → k.status ≠ .pending) ∨
    (count ≠ 0 ∧ ∃ k, (dispatch db).batch b = some k ∧ k.status = .pending ∧
      dispatch db' = {dispatch db with
        batch := Function.update (dispatch db).batch b (some {k with status := .inProgress})}) := by
  unfold closeBatchUpdate at ran
  rw [Tx.run_updateMany] at ran
  cases ran
  rw [dispatch_updates_batch]
  by_cases none : (db.matching .deliveryBatch fun i (k : DeliveryBatch) => i = b ∧ k.status = .pending).length = 0
  · left
    have closed := matching_empty none
    refine ⟨none,?_,?_⟩
    · have still : rewritten (fun i (k : DeliveryBatch) => i = b ∧ k.status = .pending)
          (fun k => {k with status := .inProgress}) (dispatch db).batch = (dispatch db).batch := by
        funext i
        cases found : (dispatch db).batch i with
        | none => unfold rewritten; rw [found]; rfl
        | some k => rw [rewritten_of found,closed i k found]; simp
      rw [still]
    · intro k found pending
      have missed := closed b k found
      simp [pending] at missed
  · right
    obtain ⟨i,k,found,hit⟩ := matching_length none
    obtain ⟨rfl,pending⟩ : i = b ∧ k.status = .pending := by simpa using hit
    have at_batch : (dispatch db).batch i = some k := found
    exact ⟨none,k,at_batch,pending,by
      rw [rewritten_key (P := fun k : DeliveryBatch => k.status = .pending) at_batch pending]⟩

theorem decideTx_parts (ran : (decideTx decision o).run db = .ok (u,db')) :
    ∃ r, (dispatch db).order o = some r ∧
      dispatch db' = {dispatch db with
        order := Function.update (dispatch db).order o (some {r with status := decision.status})} := by
  obtain ⟨rfl,i,r,found,hit⟩ := update_parts ran
  obtain rfl : i = o := by simpa using hit
  have at_order : (dispatch db).order i = some r := found
  exact ⟨r,at_order,by rw [dispatch_updates_order,rewritten_only at_order]⟩

theorem jobOfBatch_some (found : jobOfBatch db b = some (j,job)) :
    (dispatch db).job j = some job ∧ job.batchId = b := by
  unfold jobOfBatch at found
  obtain ⟨at_job,same⟩ := db.mem_matching.mp (List.mem_of_head? found)
  exact ⟨at_job,by simpa using same⟩

theorem jobOfBatch_none (none : jobOfBatch db b = none) (found : (dispatch db).job j = some job) :
    job.batchId ≠ b := by
  unfold jobOfBatch at none
  have empty := db.matching_nil.mp (List.head?_eq_none_iff.mp none) j job found
  simpa using empty

theorem upsertJob_parts (ran : (upsertJob b d n).run db = .ok (j,db')) :
    ((∃ old, (dispatch db).job j = some old ∧ old.batchId = b) ∨
      ((dispatch db).job j = none ∧ ∀ i old, (dispatch db).job i = some old → old.batchId ≠ b)) ∧
    dispatch db' = {dispatch db with
      job := Function.update (dispatch db).job j (some (assignedJob b d n db.clock))} := by
  unfold upsertJob at ran
  simp only [Tx.run] at ran
  split at ran
  · cases ran
  cases found : jobOfBatch db b with
  | none =>
    rw [found] at ran
    cases ran
    have fresh : ∀ i, db.seq .deliveryJob ≤ i → (dispatch db).job i = none :=
      fun i above => db.bounded .deliveryJob i above
    refine ⟨.inr ⟨fresh _ (Nat.le_refl _),fun i old at_job => jobOfBatch_none found at_job⟩,?_⟩
    change dispatch (db.apply (db.inserts .deliveryJob _)) = _
    rw [dispatch_inserts_job,inserted_one fresh]
  | some entry =>
    obtain ⟨i,job⟩ := entry
    rw [found] at ran
    cases ran
    obtain ⟨at_job,same⟩ := jobOfBatch_some found
    refine ⟨.inl ⟨job,at_job,same⟩,?_⟩
    change dispatch (db.apply (db.updates .deliveryJob _ _)) = _
    rw [dispatch_updates_job,rewritten_only at_job]

theorem claimDeliverer_parts (ran : (claimDeliverer d j).run db = .ok (u,db')) :
    ∃ p, (dispatch db).deliverer d = some p ∧ p.availability = true ∧ p.activeJobId = none ∧
      (∀ i p', i ≠ d → (dispatch db).deliverer i = some p' → p'.activeJobId ≠ some j) ∧
      dispatch db' = {dispatch db with
        deliverer := Function.update (dispatch db).deliverer d
          (some {p with availability := false,activeJobId := some j})} := by
  unfold claimDeliverer at ran
  simp only [Tx.run] at ran
  split at ran
  · cases ran
  rename_i claimed
  split at ran
  · cases ran
  rename_i alone
  cases ran
  have nonempty : db.matching .delivererProfile (claimable d) ≠ [] := fun empty => claimed (by rw [empty]; rfl)
  obtain ⟨i,p,found,hit⟩ := matching_some nonempty
  obtain ⟨rfl,available,free⟩ : i = d ∧ p.availability = true ∧ p.activeJobId = none := by
    simpa [claimable] using hit
  have at_deliverer : (dispatch db).deliverer i = some p := found
  refine ⟨p,at_deliverer,available,free,?_,?_⟩
  · intro k p' other at_other held
    apply alone
    unfold holdsElsewhere
    rw [Bool.not_eq_true',List.isEmpty_eq_false_iff]
    intro empty
    have missed := db.matching_nil.mp empty k p' at_other
    simp [other,held] at missed
  · change dispatch (db.apply (db.updates .delivererProfile (claimable i) _)) = _
    rw [dispatch_updates_deliverer]
    unfold claimable
    rw [rewritten_key (P := fun p : DelivererProfile => p.availability = true ∧ p.activeJobId = none)
      at_deliverer ⟨available,free⟩]

theorem assignTx_parts (ran : (assignTx b orders d).run db = .ok (j,db')) :
    ∃ k p base, (dispatch db).batch b = some k ∧ k.delivererId = none ∧ k.status = .inProgress ∧
      (dispatch db).deliverer d = some p ∧ p.availability = true ∧ p.activeJobId = none ∧
      (∀ i p', i ≠ d → (dispatch db).deliverer i = some p' → p'.activeJobId ≠ some j) ∧
      ((∃ old, (dispatch db).job j = some old ∧ old.batchId = b) ∨
        ((dispatch db).job j = none ∧ ∀ i old, (dispatch db).job i = some old → old.batchId ≠ b)) ∧
      (∀ s, base ≤ s → (dispatch db).stop s = none) ∧
      dispatch db' = (dispatch db).assign db.clock b d j base orders k p := by
  unfold assignTx at ran
  obtain ⟨jobId,first,upserted,ran⟩ := Tx.run_bind_ok.mp ran
  obtain ⟨job,atFirst⟩ := upsertJob_parts upserted
  obtain ⟨updatedBatch,second,claimed,ran⟩ := Tx.run_bind_ok.mp ran
  rw [Tx.run_updateMany] at claimed
  cases claimed
  split at ran
  · cases ran
  rename_i claimed
  obtain ⟨i,k,found,hit⟩ := matching_length claimed
  obtain ⟨rfl,unclaimed,closed⟩ : i = b ∧ k.delivererId = none ∧ k.status = .inProgress := by simpa using hit
  have at_batch : (dispatch first).batch i = some k := found
  obtain ⟨_,third,taken,ran⟩ := Tx.run_bind_ok.mp ran
  obtain ⟨p,at_deliverer,available,free,only,atThird⟩ := claimDeliverer_parts taken
  obtain ⟨_,fourth,ordersHanded,ran⟩ := Tx.run_bind_ok.mp ran
  rw [Tx.run_updateMany] at ordersHanded
  cases ordersHanded
  obtain ⟨_,fifth,cleared,ran⟩ := Tx.run_bind_ok.mp ran
  have grown : db.seq .deliveryDropOff ≤ fifth.seq .deliveryDropOff :=
    Nat.le_trans (run_seq upserted) (Nat.le_trans (Nat.le_max_left _ _) (Nat.le_trans (run_seq taken)
      (Nat.le_trans (Nat.le_max_left _ _) (run_seq cleared))))
  rw [Tx.run_deleteMany] at cleared
  cases cleared
  obtain ⟨_,sixth,created,ran⟩ := Tx.run_bind_ok.mp ran
  rw [Tx.run_createMany] at created
  cases created
  obtain ⟨_,seventh,recorded,ended⟩ := Tx.run_bind_ok.mp ran
  cases ended
  rw [dispatch_updates_batch] at at_deliverer only atThird
  rw [atFirst] at at_batch at_deliverer only atThird
  refine ⟨k,p,_,at_batch,unclaimed,closed,at_deliverer,available,free,only,job,
    fun s above => db.bounded .deliveryDropOff s (Nat.le_trans grown above),?_⟩
  · rw [recordEvent_parts recorded,dispatch_inserts_stop,dispatch_deletes_stop,dispatch_updates_order,atThird,
      rewritten_key (P := fun k : DeliveryBatch => k.delivererId = none ∧ k.status = .inProgress) at_batch
        ⟨unclaimed,closed⟩]
    rfl

theorem startJobTx_parts (ran : (startJobTx j d).run db = .ok (u,db')) :
    ∃ job, (dispatch db).job j = some job ∧ job.delivererId = some d ∧ job.status = .assigned ∧
      dispatch db' = {dispatch db with
        job := Function.update (dispatch db).job j (some {job with status := .inProgress,startedAt := some db.clock})
        order := rewritten (fun _ o => o.deliveryJobId = some j) underway (dispatch db).order} := by
  unfold startJobTx at ran
  obtain ⟨started,first,updated,ran⟩ := Tx.run_bind_ok.mp ran
  rw [Tx.run_updateMany] at updated
  cases updated
  split at ran
  · obtain ⟨found,_,read,ran⟩ := Tx.run_bind_ok.mp ran
    rw [Tx.run_findUnique] at read
    cases read
    split at ran
    · cases ran
    · split at ran <;> cases ran
  rename_i claimed
  obtain ⟨i,job,found,hit⟩ := matching_length claimed
  obtain ⟨rfl,own,ready⟩ : i = j ∧ job.delivererId = some d ∧ job.status = .assigned := by simpa using hit
  have at_job : (dispatch db).job i = some job := found
  obtain ⟨_,second,moved,ran⟩ := Tx.run_bind_ok.mp ran
  rw [Tx.run_updateMany] at moved
  cases moved
  refine ⟨job,at_job,own,ready,?_⟩
  rw [recordEvent_parts ran,dispatch_updates_order,dispatch_updates_job,
    rewritten_key (P := fun job : DeliveryJob => job.delivererId = some d ∧ job.status = .assigned) at_job ⟨own,ready⟩]

theorem finishJob_parts (ran : (finishJob j d b).run db = .ok (u,db')) :
    ∃ job k p, (dispatch db).job j = some job ∧ job.status = .inProgress ∧ (dispatch db).batch b = some k ∧
      (dispatch db).deliverer d = some p ∧
      (job.batchId = b → dispatch db' = (dispatch db).finish db.clock j d job k p) := by
  unfold finishJob at ran
  obtain ⟨done,first,updated,claim⟩ := Tx.run_bind_ok.mp ran
  obtain ⟨rfl,atFirst⟩ := updateMany_parts updated
  split at claim
  · cases claim
  rename_i claimed
  obtain ⟨i,job,found,hit⟩ := matching_length claimed
  obtain ⟨rfl,started⟩ : i = j ∧ job.status = .inProgress := by simpa using hit
  have at_job : (dispatch db).job i = some job := found
  obtain ⟨_,second,closed,afterBatch⟩ := Tx.run_bind_ok.mp claim
  obtain ⟨atSecond,b',k,found,hit⟩ := update_parts closed
  obtain rfl : b' = b := by simpa using hit
  have at_batch : (dispatch first).batch b' = some k := found
  obtain ⟨_,third,freed,afterDeliverer⟩ := Tx.run_bind_ok.mp afterBatch
  obtain ⟨atThird,d',p,found,hit⟩ := update_parts freed
  obtain rfl : d' = d := by simpa using hit
  have at_deliverer : (dispatch second).deliverer d' = some p := found
  obtain ⟨_,fourth,moved,recorded⟩ := Tx.run_bind_ok.mp afterDeliverer
  obtain ⟨_,atFourth⟩ := updateMany_parts moved
  have sameBatch : (dispatch first).batch = (dispatch db).batch := by rw [atFirst,dispatch_updates_job]
  have sameDeliverer : (dispatch second).deliverer = (dispatch db).deliverer := by
    rw [atSecond,dispatch_updates_batch,atFirst,dispatch_updates_job]
  refine ⟨job,k,p,at_job,started,sameBatch ▸ at_batch,sameDeliverer ▸ at_deliverer,?_⟩
  rintro rfl
  have clock : third.clock = db.clock := by rw [atThird,atSecond,atFirst]; rfl
  rw [recordEvent_parts recorded,atFourth,dispatch_updates_order,clock,atThird,dispatch_updates_deliverer,
    rewritten_only at_deliverer,atSecond,dispatch_updates_batch,rewritten_only at_batch,atFirst,
    dispatch_updates_job,
    rewritten_key (P := fun job : DeliveryJob => job.status = .inProgress) at_job started]
  rfl

theorem lockedJob_parts {body : Option DeliveryJob → Transaction α}
    (ran : (do
      Tx.lock fun v => if (v.rows .deliveryJob j).isSome then [Lock.row Tab.deliveryJob j] else []
      body (← Tx.findUnique Tab.deliveryJob j) : Transaction α).run db = .ok r) :
    (body ((dispatch db).job j)).run db = .ok r := by
  obtain ⟨_,_,locked,rest⟩ := Tx.run_bind_ok.mp ran
  rw [Tx.run_lock] at locked
  cases locked
  obtain ⟨found,_,read,rest⟩ := Tx.run_bind_ok.mp rest
  rw [Tx.run_findUnique] at read
  cases read
  exact rest

theorem completeDropOffTx_parts (ran : (completeDropOffTx j s d).run db = .ok (done,db')) :
    ∃ job stop, (dispatch db).job j = some job ∧ job.delivererId = some d ∧ job.status = .inProgress ∧
      (dispatch db).stop s = some stop ∧ stop.jobId = j ∧ stop.status ≠ .completed ∧
      ((done = false ∧ dispatch db' = (dispatch db).dropOff db.clock s stop ∧
        ∃ i rest, ((dispatch db).dropOff db.clock s stop).stop i = some rest ∧ rest.jobId = j ∧
          rest.status ≠ .completed) ∨
      (done = true ∧
        (∀ i rest, ((dispatch db).dropOff db.clock s stop).stop i = some rest → rest.jobId = j →
          rest.status = .completed) ∧
        ∃ k p, (dispatch db).batch job.batchId = some k ∧ (dispatch db).deliverer d = some p ∧
          dispatch db' = ((dispatch db).dropOff db.clock s stop).finish db.clock j d job k p)) := by
  unfold completeDropOffTx at ran
  have checks := lockedJob_parts ran
  split at checks
  · cases checks
  rename_i job at_job
  split at checks
  · cases checks
  rename_i own
  split at checks
  · cases checks
  rename_i started
  obtain ⟨_,_,updated,claim⟩ := Tx.run_bind_ok.mp checks
  obtain ⟨rfl,atFirst⟩ := updateMany_parts updated
  split at claim
  · cases claim
  rename_i claimed
  obtain ⟨i,stop,found,hit⟩ := matching_length claimed
  obtain ⟨rfl,part,pending⟩ : i = s ∧ stop.jobId = j ∧ stop.status ≠ .completed := by simpa [openStop] using hit
  have at_stop : (dispatch db).stop i = some stop := found
  obtain ⟨dropOff,first,read,afterRead⟩ := Tx.run_bind_ok.mp claim
  obtain ⟨at_row,rfl⟩ := Tx.run_findUniqueOrThrow_ok read
  obtain ⟨_,second,moved,afterOrder⟩ := Tx.run_bind_ok.mp afterRead
  obtain ⟨rfl,atSecond⟩ := updateMany_parts moved
  obtain ⟨_,third,recorded,afterEvent⟩ := Tx.run_bind_ok.mp afterOrder
  obtain ⟨_,fourth,counted,ended⟩ := Tx.run_bind_ok.mp afterEvent
  rw [Tx.run_count] at counted
  cases counted
  have firstStops : dispatch first = {dispatch db with
      stop := Function.update (dispatch db).stop i (some {stop with status := .completed,completedAt := some db.clock})} := by
    rw [atFirst,dispatch_updates_stop]
    have key := rewritten_key (P := fun r : DeliveryDropOff => openStop j r)
      (f := fun r => {r with status := .completed,completedAt := some db.clock}) at_stop (by simp [openStop,part,pending])
    rw [key]
  have sameOrder : dropOff.orderId = stop.orderId := by
    have at_first : (dispatch first).stop i = some dropOff := at_row
    rw [firstStops] at at_first
    simp only [Function.update_self,Option.some.injEq] at at_first
    rw [← at_first]
  have clockFirst : first.clock = db.clock := by rw [atFirst]; rfl
  have secondState : dispatch second = (dispatch db).dropOff db.clock i stop := by
    rw [atSecond,dispatch_updates_order,firstStops,sameOrder,clockFirst]; rfl
  have thirdState : dispatch third = (dispatch db).dropOff db.clock i stop := by
    rw [← secondState]
    unfold recordOrderCompleted at recorded
    split at recorded
    · exact recordEvent_parts recorded
    · cases recorded; rfl
  have clockThird : third.clock = db.clock := by rw [run_clock recorded,atSecond]; exact clockFirst
  refine ⟨job,stop,at_job,Classical.not_not.mp own,Classical.not_not.mp started,at_stop,part,pending,?_⟩
  split at ended
  · rename_i none
    right
    have all := matching_empty none
    obtain ⟨_,last,finished,ended⟩ := Tx.run_bind_ok.mp ended
    cases ended
    obtain ⟨job',k,p,at_job',_,at_batch,at_deliverer,final⟩ := finishJob_parts finished
    rw [thirdState] at at_job' at_batch at_deliverer final
    obtain rfl : job' = job := Option.some.inj (at_job'.symm.trans at_job)
    refine ⟨rfl,?_,k,p,at_batch,at_deliverer,?_⟩
    · intro i' rest found part
      rw [← thirdState] at found
      have closed := all i' rest found
      simpa [openStop,part] using closed
    · rw [final rfl,clockThird]
  · rename_i some
    left
    cases ended
    obtain ⟨i',rest,found,hit⟩ := matching_length some
    have opened : rest.jobId = j ∧ rest.status ≠ .completed := by simpa [openStop] using hit
    exact ⟨rfl,thirdState,i',rest,by rw [← thirdState]; exact found,opened⟩

theorem completeJobTx_parts (ran : (completeJobTx j d).run db = .ok (u,db')) :
    ∃ job k p, (dispatch db).job j = some job ∧ job.delivererId = some d ∧ job.status = .inProgress ∧
      (dispatch db).batch job.batchId = some k ∧ (dispatch db).deliverer d = some p ∧
      dispatch db' = (dispatch db).finish db.clock j d job k p := by
  unfold completeJobTx at ran
  have checks := lockedJob_parts ran
  split at checks
  · cases checks
  rename_i job at_job
  split at checks
  · cases checks
  rename_i own
  split at checks
  · cases checks
  rename_i started
  obtain ⟨job',k,p,at_job',_,at_batch,at_deliverer,final⟩ := finishJob_parts checks
  obtain rfl : job' = job := Option.some.inj (at_job'.symm.trans at_job)
  exact ⟨job',k,p,at_job,Classical.not_not.mp own,Classical.not_not.mp started,at_batch,at_deliverer,final rfl⟩

theorem recoverTx_parts (ran : (recoverTx d j b).run db = .ok (u,db')) :
    ∃ p job k, (dispatch db).deliverer d = some p ∧ (dispatch db).job j = some job ∧ job.status = .assigned ∧
      (dispatch db).batch b = some k ∧ dispatch db' = (dispatch db).recover d j b p job k := by
  unfold recoverTx at ran
  obtain ⟨_,first,freed,afterDeliverer⟩ := Tx.run_bind_ok.mp ran
  obtain ⟨atFirst,d',p,found,hit⟩ := update_parts freed
  obtain rfl : d' = d := by simpa using hit
  have at_deliverer : (dispatch db).deliverer d' = some p := found
  obtain ⟨_,second,reset,afterJob⟩ := Tx.run_bind_ok.mp afterDeliverer
  obtain ⟨atSecond,j',job,found,hit⟩ := update_parts reset
  obtain ⟨rfl,unstarted⟩ : j' = j ∧ job.status = .assigned := by simpa using hit
  have at_job : (dispatch first).job j' = some job := found
  obtain ⟨_,third,opened,afterBatch⟩ := Tx.run_bind_ok.mp afterJob
  obtain ⟨atThird,b',k,found,hit⟩ := update_parts opened
  obtain rfl : b' = b := by simpa using hit
  have at_batch : (dispatch second).batch b' = some k := found
  obtain ⟨_,fourth,moved,ended⟩ := Tx.run_bind_ok.mp afterBatch
  obtain ⟨_,atFourth⟩ := updateMany_parts moved
  cases ended
  have sameJob : (dispatch first).job = (dispatch db).job := by rw [atFirst,dispatch_updates_deliverer]
  have sameBatch : (dispatch second).batch = (dispatch db).batch := by
    rw [atSecond,dispatch_updates_job,atFirst,dispatch_updates_deliverer]
  refine ⟨p,job,k,at_deliverer,sameJob ▸ at_job,unstarted,sameBatch ▸ at_batch,?_⟩
  rw [atFourth,dispatch_updates_order,atThird,dispatch_updates_batch,rewritten_only at_batch,atSecond,
    dispatch_updates_job,rewritten_key (P := fun job : DeliveryJob => job.status = .assigned) at_job unstarted,
    atFirst,dispatch_updates_deliverer,rewritten_only at_deliverer]
  rfl

theorem writeLocationTx_parts (ran : (writeLocationTx d loc).run db = .ok (u,db')) :
    ∃ p, (dispatch db).deliverer d = some p ∧
      dispatch db' = {dispatch db with
        deliverer := Function.update (dispatch db).deliverer d
          (some {p with currentLat := some loc.lat,currentLng := some loc.lng})} := by
  obtain ⟨rfl,i,p,found,hit⟩ := update_parts ran
  obtain rfl : i = d := by simpa using hit
  have at_deliverer : (dispatch db).deliverer i = some p := found
  exact ⟨p,at_deliverer,by rw [dispatch_updates_deliverer,rewritten_only at_deliverer]⟩

theorem updateUser_parts {f : Nat → User → User} (ran : (updateUser userId f).run db = .ok (u,db')) :
    ∃ r, (dispatch db).user userId = some r ∧
      dispatch db' = {dispatch db with user := Function.update (dispatch db).user userId (some (f db.clock r))} := by
  obtain ⟨rfl,i,r,found,hit⟩ := update_parts ran
  obtain rfl : i = userId := by simpa using hit
  have at_user : (dispatch db).user i = some r := found
  exact ⟨r,at_user,by rw [dispatch_updates_user,rewritten_only at_user]⟩

theorem delivererByUser_some (found : delivererByUser db userId = some (d,p)) :
    (dispatch db).deliverer d = some p ∧ p.userId = userId := by
  obtain ⟨at_deliverer,same⟩ := db.mem_matching.mp (List.mem_of_head? found)
  exact ⟨at_deliverer,by simpa using same⟩

theorem delivererByUser_none (none : delivererByUser db userId = none)
    (found : (dispatch db).deliverer d = some p) : p.userId ≠ userId := by
  have empty := db.matching_nil.mp (List.head?_eq_none_iff.mp none) d p found
  simpa using empty

theorem deleteProfileTx_parts (ran : (deleteProfileTx userId).run db = .ok (u,db')) :
    ∃ d p, (dispatch db).deliverer d = some p ∧ p.userId = userId ∧ dispatch db' = (dispatch db).forget d := by
  unfold deleteProfileTx at ran
  obtain ⟨found,_,selected,rest⟩ := Tx.run_bind_ok.mp ran
  rw [Tx.run_select] at selected
  cases selected
  split at rest
  · cases rest
  rename_i entry found
  obtain ⟨d,p⟩ := entry
  obtain ⟨at_deliverer,own⟩ := delivererByUser_some found
  refine ⟨d,p,at_deliverer,own,?_⟩
  obtain ⟨_,forgot,references,deleted⟩ := Tx.run_bind_ok.mp rest
  obtain ⟨_,last,removed,ended⟩ := Tx.run_bind_ok.mp deleted
  cases ended
  rw [Tx.run_deleteMany] at removed
  cases removed
  unfold forgetDeliverer at references
  obtain ⟨_,first,jobs,references⟩ := Tx.run_bind_ok.mp references
  obtain ⟨_,atFirst⟩ := updateMany_parts jobs
  obtain ⟨_,second,batches,references⟩ := Tx.run_bind_ok.mp references
  obtain ⟨_,atSecond⟩ := updateMany_parts batches
  obtain ⟨_,third,orders,ended⟩ := Tx.run_bind_ok.mp references
  obtain ⟨_,atThird⟩ := updateMany_parts orders
  cases ended
  rw [dispatch_deletes_deliverer,atThird,dispatch_updates_order,atSecond,dispatch_updates_batch,atFirst,
    dispatch_updates_job]
  rfl

theorem createProfileTx_parts (ran : (createProfileTx userId).run db = .ok (u,db')) :
    ∃ d r, (dispatch db).user userId = some r ∧ (dispatch db).deliverer d = none ∧
      (∀ i p, (dispatch db).deliverer i = some p → p.userId ≠ userId) ∧
      dispatch db' = {dispatch db with
        deliverer := Function.update (dispatch db).deliverer d (some ⟨userId,none,none,true,none⟩)} := by
  unfold createProfileTx at ran
  obtain ⟨found,_,selected,rest⟩ := Tx.run_bind_ok.mp ran
  rw [Tx.run_select] at selected
  cases selected
  obtain ⟨user,_,read,rest⟩ := Tx.run_bind_ok.mp rest
  rw [Tx.run_findUnique] at read
  cases read
  split at rest
  · cases rest
  rename_i alone
  split at rest
  · cases rest
  rename_i known
  obtain ⟨_,last,created,ended⟩ := Tx.run_bind_ok.mp rest
  cases ended
  rw [Tx.run_create] at created
  cases created
  have fresh : ∀ i, db.seq .delivererProfile ≤ i → (dispatch db).deliverer i = none :=
    fun i above => db.bounded .delivererProfile i above
  obtain ⟨r,at_user⟩ : ∃ r, db.rows .user userId = some r := by
    cases at_user : db.rows .user userId with
    | none => rw [at_user] at known; exact absurd rfl known
    | some r => exact ⟨r,rfl⟩
  refine ⟨db.seq .delivererProfile,r,at_user,fresh _ (Nat.le_refl _),?_,?_⟩
  · intro i p found
    exact delivererByUser_none (by simpa using alone) found
  · rw [dispatch_inserts_deliverer,inserted_one fresh]

-- Each transaction of each process, run on the committed rows, is one of the
-- commits above.
theorem committed {env : Env} (at_tx : Proc.next env x = .tx body) (ran : body.run db = .ok (y,db')) :
    Committed db.clock x (dispatch db) y (dispatch db') := by
  cases x <;> simp only [Proc.next,reduceCtorEq] at at_tx
  case notifyCustomers => split at at_tx <;> cases at_tx
  case requeue => split at at_tx <;> cases at_tx
  case insertOrder dto vendorId costumerId vendor =>
    cases at_tx
    obtain ⟨o,_,created,ended⟩ := Tx.run_bind_ok.mp ran
    cases ended
    obtain ⟨fresh,same⟩ := createOrderTx_parts created
    rw [same]; exact .insertOrder fresh
  case claimReady o customerId orderType =>
    cases at_tx
    obtain ⟨outcome,_,marked,ended⟩ := Tx.run_bind_ok.mp ran
    cases ended
    obtain ⟨r,found,readyable,⟨b,k,close,at_batch,pending,rfl,same⟩ | ⟨b,fresh,rfl,same⟩⟩ :=
      vendorMarkReadyTx_parts marked
    · rw [same]; exact .joinBatch found readyable at_batch pending
    · rw [same]; exact .openBatch found readyable fresh
  case closeBatch b caller =>
    cases at_tx
    obtain ⟨count,_,closed,ended⟩ := Tx.run_bind_ok.mp ran
    cases ended
    rcases closeBatchUpdate_parts closed with ⟨rfl,same,already⟩ | ⟨some,k,at_batch,pending,same⟩
    · rw [same,if_pos rfl]; exact .closedAlready already
    · rw [same,if_neg some]; exact .closeBatch at_batch pending
  case updateDecided decision o customerId =>
    cases at_tx
    obtain ⟨_,_,decided,ended⟩ := Tx.run_bind_ok.mp ran
    cases ended
    obtain ⟨r,found,same⟩ := decideTx_parts decided
    rw [same]; exact .updateDecided found
  case recordEvent params caller =>
    cases at_tx
    obtain ⟨event,_,created,ended⟩ := Tx.run_bind_ok.mp ran
    cases ended
    obtain ⟨rfl,same⟩ := createEvent_parts created
    rw [same]; exact .recordEvent
  case projectEvent eventId event caller =>
    cases at_tx
    obtain ⟨_,_,projected,ended⟩ := Tx.run_bind_ok.mp ran
    cases ended
    rw [projectEvent_parts projected]; exact .projectEvent
  case assign b orders d caller =>
    cases at_tx
    obtain ⟨j,_,made,ended⟩ := Tx.run_bind_ok.mp ran
    cases ended
    obtain ⟨k,p,base,at_batch,unclaimed,closed,at_deliverer,available,free,only,job,fresh,same⟩ :=
      assignTx_parts made
    rw [same]
    exact .assign at_batch unclaimed closed at_deliverer available free only job fresh
  case startJob j d =>
    cases at_tx
    obtain ⟨_,_,started,ended⟩ := Tx.run_bind_ok.mp ran
    cases ended
    obtain ⟨job,at_job,own,ready,same⟩ := startJobTx_parts started
    rw [same]; exact .startJob at_job own ready
  case completeDropOff j s d =>
    cases at_tx
    obtain ⟨done,_,completed,ended⟩ := Tx.run_bind_ok.mp ran
    cases ended
    obtain ⟨job,stop,at_job,own,started,at_stop,part,pending,
      ⟨rfl,same,remaining⟩ | ⟨rfl,all,k,p,at_batch,at_deliverer,same⟩⟩ := completeDropOffTx_parts completed
    · rw [same]; exact .completeDropOff at_job own started at_stop part pending remaining
    · rw [same]; exact .completeLast at_job own started at_stop part pending all at_batch at_deliverer
  case completeJob j d =>
    cases at_tx
    obtain ⟨_,_,completed,ended⟩ := Tx.run_bind_ok.mp ran
    cases ended
    obtain ⟨job,k,p,at_job,own,started,at_batch,at_deliverer,same⟩ := completeJobTx_parts completed
    rw [same]; exact .completeJob at_job own started at_batch at_deliverer
  case writeLocation d loc caller =>
    cases at_tx
    obtain ⟨_,_,written,ended⟩ := Tx.run_bind_ok.mp ran
    cases ended
    obtain ⟨p,at_deliverer,same⟩ := writeLocationTx_parts written
    rw [same]; exact .writeLocation at_deliverer
  case recoverUnstartedJob stale snapshot rest =>
    cases at_tx
    obtain ⟨_,_,recovered,ended⟩ := Tx.run_bind_ok.mp ran
    cases ended
    obtain ⟨p,job,k,at_deliverer,at_job,unstarted,at_batch,same⟩ := recoverTx_parts recovered
    rw [same]; exact .recoverUnstartedJob at_deliverer at_job unstarted at_batch
  case writeProfile userId data =>
    cases at_tx
    obtain ⟨_,_,written,ended⟩ := Tx.run_bind_ok.mp ran
    cases ended
    obtain ⟨rfl,_⟩ := update_parts written
    rw [dispatch_updates_deliverer]; exact .writeProfile
  case markPresence presence userId =>
    cases at_tx
    obtain ⟨_,_,marked,ended⟩ := Tx.run_bind_ok.mp ran
    cases ended
    obtain ⟨u,at_user,same⟩ := updateUser_parts marked
    rw [same]; exact .markPresence at_user
  case deleteProfile userId =>
    cases at_tx
    obtain ⟨_,_,deleted,ended⟩ := Tx.run_bind_ok.mp ran
    cases ended
    obtain ⟨d,p,at_deliverer,own,same⟩ := deleteProfileTx_parts deleted
    rw [same]; exact .deleteProfile at_deliverer own
  case demote userId =>
    cases at_tx
    obtain ⟨_,_,changed,ended⟩ := Tx.run_bind_ok.mp ran
    cases ended
    obtain ⟨u,at_user,same⟩ := updateUser_parts changed
    rw [same]; exact .demote at_user
  case promote userId =>
    cases at_tx
    obtain ⟨_,_,changed,ended⟩ := Tx.run_bind_ok.mp ran
    cases ended
    obtain ⟨u,at_user,same⟩ := updateUser_parts changed
    rw [same]; exact .promote at_user
  case createProfile userId =>
    cases at_tx
    obtain ⟨_,_,created,ended⟩ := Tx.run_bind_ok.mp ran
    cases ended
    obtain ⟨d,r,at_user,fresh,only,same⟩ := createProfileTx_parts created
    rw [same]; exact .createProfile at_user only fresh

end Bodies
end MesyafMarket
