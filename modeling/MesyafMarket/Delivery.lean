import MesyafMarket.Batching

namespace MesyafMarket
open Relational

namespace DelivererAssignmentService

def PRESENCE_WINDOW_MS := 2*60*1000

-- A JavaScript number that is a distance: NaN compares with nothing.
inductive Distance (K : Type) where
  | nan
  | km (value : K)

def Distance.lt [LT K] [DecidableLT K] : Distance K → Distance K → Bool
  | .km a,.km b => a < b
  | _,_ => false

-- `dist < minDistance`, where no minimum yet stands for Infinity.
def Distance.below [LT K] [DecidableLT K] (dist : Distance K) : Option (Distance K) → Bool
  | some minDistance => dist.lt minDistance
  | none => match dist with
    | .km _ => true
    | .nan => false

section Closest
variable {K : Type} [LT K] [DecidableLT K] (calcDistanceKm : Point → Point → Distance K)

def closestStep (pickup : Point) (best : Option (Nat × DelivererProfile) × Option (Distance K))
    (d : Nat × DelivererProfile) : Option (Nat × DelivererProfile) × Option (Distance K) :=
  match d.2.currentLat,d.2.currentLng with
  | some lat,some lng =>
    let dist := calcDistanceKm pickup ⟨lat,lng⟩
    if dist.below best.2 then (some d,some dist) else best
  | _,_ => best

def findClosestDeliverer (deliverers : List (Nat × DelivererProfile)) (pickupLat pickupLng : Rat) :
    Option (Nat × DelivererProfile) :=
  (deliverers.foldl (closestStep calcDistanceKm ⟨pickupLat,pickupLng⟩) (none,none)).1

theorem closestStep_mem (best : Option (Nat × DelivererProfile) × Option (Distance K))
    (chosen : (closestStep calcDistanceKm pickup best d).1 = some found) :
    best.1 = some found ∨ d = found := by
  unfold closestStep at chosen
  split at chosen
  · dsimp only at chosen
    split at chosen
    · exact .inr (Option.some.inj chosen)
    · exact .inl chosen
  · exact .inl chosen

theorem findClosestDeliverer_mem
    (chosen : findClosestDeliverer calcDistanceKm deliverers lat lng = some found) :
    found ∈ deliverers := by
  have scan : ∀ best : Option (Nat × DelivererProfile) × Option (Distance K),
      (deliverers.foldl (closestStep calcDistanceKm ⟨lat,lng⟩) best).1 = some found →
      best.1 = some found ∨ found ∈ deliverers := by
    clear chosen
    induction deliverers with
    | nil => intro best same; exact .inl same
    | cons d rest ih =>
      intro best same
      rcases ih _ same with earlier | later
      · rcases closestStep_mem _ _ earlier with kept | rfl
        · exact .inl kept
        · exact .inr List.mem_cons_self
      · exact .inr (List.mem_cons_of_mem _ later)
  rcases scan (none,none) chosen with none_yet | member
  · cases none_yet
  · exact member

end Closest

-- The batch with its orders by `readyAt`, nulls last.
def readyBefore (a b : Nat × Order) : Bool :=
  match a.2.readyAt,b.2.readyAt with
  | some x,some y => x ≤ y
  | some _,none => true
  | none,some _ => false
  | none,none => true

def batchOrders (env : Env) (v : Database) (batchId : Nat) : List (Nat × Order) :=
  (OrderService.ordersOf env v batchId).insertionSort fun a b => readyBefore a b = true

def isCandidate (v : Database) (d : DelivererProfile) : Bool :=
  d.availability && d.activeJobId.isNone && match v.rows .user d.userId with
    | some user => user.isOnline && match user.lastSeenAt with
      | some seen => v.clock < seen+PRESENCE_WINDOW_MS
      | none => false
    | none => false

def availableDeliverers (env : Env) (v : Database) : List (Nat × DelivererProfile) :=
  env.scan v (v.matching .delivererProfile fun _ d => isCandidate v d)

-- locationService.getMany: the Redis entry, else what the database says by then.
def getMany (redis : Nat → Option Point) (v : Database) (id : Nat) : Option Point :=
  (redis id).or <| match v.rows .delivererProfile id with
    | some r => match r.currentLat,r.currentLng with
      | some lat,some lng => some ⟨lat,lng⟩
      | _,_ => none
    | none => none

def withLocation (fresh : Nat → Option Point) (deliverers : List (Nat × DelivererProfile)) :
    List (Nat × DelivererProfile) :=
  deliverers.map fun d => match fresh d.1 with
    | some loc => (d.1,{d.2 with currentLat := some loc.lat,currentLng := some loc.lng})
    | none => d

def chosenDeliverer (env : Env) (located : List (Nat × DelivererProfile)) (lat lng : Rat) :
    Option (Nat × DelivererProfile) :=
  (env.findClosestDeliverer located lat lng).or located.head?

def jobOfBatch (v : Database) (batchId : Nat) : Option (Nat × DeliveryJob) :=
  (v.matching .deliveryJob fun _ (job : DeliveryJob) => job.batchId = batchId).head?

def assignedJob (batchId delivererId totalOrders now : Nat) : DeliveryJob :=
  ⟨some delivererId,batchId,.assigned,now,none,none,some totalOrders⟩

-- INSERT .. ON CONFLICT ("batchId") DO UPDATE. The update branch sets every column
-- but the batch id, which the conflict says is the same.
def upsertJob (batchId delivererId totalOrders : Nat) : Transaction Nat :=
  .stmt (fun v => match jobOfBatch v batchId with
      | some job => Tx.updatesEffect v .deliveryJob (fun i _ => i = job.1)
          (fun _ => assignedJob batchId delivererId totalOrders v.clock) [.key (.jobOfBatch batchId)]
      | none => Tx.insertsEffect v .deliveryJob [assignedJob batchId delivererId totalOrders v.clock]
          [.key (.jobOfBatch batchId)])
    fun v => if (v.rows .delivererProfile delivererId).isNone then .throw .foreignKeyViolation
      else .ret (match jobOfBatch v batchId with
        | some job => job.1
        | none => v.seq .deliveryJob)

def claimable (delivererId : Nat) (i : Nat) (d : DelivererProfile) : Bool :=
  i = delivererId ∧ d.availability ∧ d.activeJobId = none

def holdsElsewhere (v : Database) (delivererId jobId : Nat) : Bool :=
  !(v.matching .delivererProfile fun i (d : DelivererProfile) =>
    i ≠ delivererId ∧ d.activeJobId = some jobId).isEmpty

-- The conditional claim of the deliverer; activeJobId is unique.
def claimDeliverer (delivererId jobId : Nat) : Transaction Unit :=
  .stmt (fun v => Tx.updatesEffect v .delivererProfile (claimable delivererId)
      (fun d => {d with availability := false,activeJobId := some jobId}) [.key (.activeJob jobId)])
    fun v =>
      if (v.matching .delivererProfile (claimable delivererId)).isEmpty then
        .throw (.conflict "Deliverer no longer available")
      else if holdsElsewhere v delivererId jobId then .throw .uniqueViolation
      else .ret ()

def dropOffs (jobId : Nat) (orders : List (Nat × Order)) : List DeliveryDropOff :=
  orders.mapIdx fun index order =>
    ⟨jobId,order.1,index,.pending,order.2.customerLat,order.2.customerLng,none⟩

def jobPayload (jobId : Nat) (status : JobStatus) : Json :=
  .obj [("jobId",.num jobId),("status",.str status.name)]

def handed (delivererId jobId : Nat) (o : Order) : Order :=
  {o with delivererId := some delivererId,deliveryJobId := some jobId,status := .waitingForDeliverer}

-- `orders` is what the read at the head of assignDelivererToBatch found.
def assignTx (batchId : Nat) (orders : List (Nat × Order)) (delivererId : Nat) : Transaction Nat := do
  let jobId ← upsertJob batchId delivererId orders.length
  let updatedBatch ← Tx.updateMany .deliveryBatch
    (fun i (b : DeliveryBatch) => i = batchId ∧ b.delivererId = none ∧
      b.status = .inProgress)
    fun _ b => {b with delivererId := some delivererId}
  if updatedBatch = 0 then .throw (.conflict "Batch already claimed")
  else do
    claimDeliverer delivererId jobId
    let _ ← Tx.updateMany .order (fun _ (o : Order) => o.deliveryBatchId = some batchId)
      fun _ => handed delivererId jobId
    let _ ← Tx.deleteMany .deliveryDropOff fun _ (stop : DeliveryDropOff) => stop.jobId = jobId
    Tx.createMany .deliveryDropOff fun _ => dropOffs jobId orders
    EventLogService.recordEvent ⟨.job,jobId,EVENTS.JOB.ASSIGNED,jobPayload jobId .assigned⟩
    return jobId

end DelivererAssignmentService

namespace DelivererJobService
open DelivererAssignmentService (jobPayload)

def underway (o : Order) : Order := {o with status := .inProgress}

def delivered (now : Nat) (o : Order) : Order := {o with status := .completed,deliveredAt := some now}

def startJobTx (jobId delivererId : Nat) : Transaction Unit := do
  let started ← Tx.updateMany .deliveryJob
    (fun i (job : DeliveryJob) => i = jobId ∧ job.delivererId = some delivererId ∧
      job.status = .assigned)
    fun now job => {job with status := .inProgress,startedAt := some now}
  if started = 0 then do
    let job ← Tx.findUnique Tab.deliveryJob jobId
    match job with
    | none => .throw (.notFound "Job not found")
    | some job =>
      if job.delivererId ≠ some delivererId then .throw (.forbidden "Not your job")
      else .throw (.conflict "Job already started or not in a startable state")
  else do
    let _ ← Tx.updateMany .order (fun _ (o : Order) => o.deliveryJobId = some jobId) fun _ => underway
    EventLogService.recordEvent ⟨.job,jobId,EVENTS.JOB.STARTED,jobPayload jobId .inProgress⟩

def finishJob (jobId delivererId batchId : Nat) : Transaction Unit := do
  let done ← Tx.updateMany .deliveryJob
    (fun i (job : DeliveryJob) => i = jobId ∧ job.status = .inProgress)
    fun now job => {job with status := .completed,completedAt := some now}
  if done = 0 then .throw (.conflict "Job already completed")
  else do
    Tx.update .deliveryBatch (fun i _ => i = batchId)
      (fun _ b => {b with status := .completed}) .recordNotFound
    Tx.update .delivererProfile (fun i _ => i = delivererId)
      (fun _ d => {d with availability := true,activeJobId := none}) .recordNotFound
    let _ ← Tx.updateMany .order
      (fun _ (o : Order) => o.deliveryJobId = some jobId ∧ o.status ≠ .completed) delivered
    EventLogService.recordEvent ⟨.job,jobId,EVENTS.JOB.COMPLETED,jobPayload jobId .completed⟩

def openStop (jobId : Nat) (stop : DeliveryDropOff) : Bool :=
  stop.jobId = jobId ∧ stop.status ≠ .completed

def recordOrderCompleted (orderId orderDone : Nat) : Transaction Unit :=
  if orderDone = 1 then
    EventLogService.recordEvent ⟨.order,orderId,EVENTS.ORDER.COMPLETED,
      OrderService.orderPayload orderId OrderStatus.completed.name⟩
  else .ret ()

def completeDropOffTx (jobId dropOffId delivererId : Nat) : Transaction Bool := do
  -- SELECT id FROM "DeliveryJob" .. FOR UPDATE
  Tx.lock fun v => if (v.rows .deliveryJob jobId).isSome then [.row .deliveryJob jobId] else []
  let job ← Tx.findUnique Tab.deliveryJob jobId
  match job with
  | none => .throw (.notFound "Job not found")
  | some job =>
    if job.delivererId ≠ some delivererId then .throw (.forbidden "Not your job")
    else if job.status ≠ .inProgress then .throw (.badRequest "Job not in progress")
    else do
      let claimed ← Tx.updateMany .deliveryDropOff
        (fun i stop => i = dropOffId ∧ openStop jobId stop)
        fun now stop => {stop with status := .completed,completedAt := some now}
      if claimed = 0 then .throw (.conflict "Drop-off already completed or not part of this job")
      else do
        let dropOff ← Tx.findUniqueOrThrow Tab.deliveryDropOff dropOffId Err.recordNotFound
        let orderDone ← Tx.updateMany .order
          (fun i (o : Order) => i = dropOff.orderId ∧ o.status ≠ .completed) delivered
        recordOrderCompleted dropOff.orderId orderDone
        let remaining ← Tx.count .deliveryDropOff fun _ => openStop jobId
        if remaining = 0 then do
          finishJob jobId delivererId job.batchId
          return true
        else return false

def completeJobTx (jobId delivererId : Nat) : Transaction Unit := do
  Tx.lock fun v => if (v.rows .deliveryJob jobId).isSome then [.row .deliveryJob jobId] else []
  let job ← Tx.findUnique Tab.deliveryJob jobId
  match job with
  | none => .throw (.notFound "Job not found")
  | some job =>
    if job.delivererId ≠ some delivererId then .throw (.forbidden "Not your job")
    else if job.status ≠ .inProgress then .throw (.badRequest "Job not in progress")
    else finishJob jobId delivererId job.batchId

def stuckBatch (v : Database) : Option Nat :=
  (((v.matching .deliveryBatch fun _ (b : DeliveryBatch) =>
    b.status = .inProgress ∧ b.delivererId = none).insertionSort
    fun a b => a.2.createdAt ≤ b.2.createdAt).head?).map Prod.fst

end DelivererJobService

namespace DelivererRecoveryService

def DELIVERER_GRACE_MS := 2*60*1000
def STUCK_BATCH_MIN_AGE_MS := 60*1000

-- One row of the sweep's snapshot: a deliverer who holds a job and was last seen
-- before the cutoff, with that job and its orders as they were then.
structure StaleDeliverer where
  id : Nat
  userId : Nat
  lastSeenAt : Nat
  jobId : Nat
  job : Option DeliveryJob
  orders : List (Nat × Order)

def staleDeliverer (v : Database) (d : Nat × DelivererProfile) : Option StaleDeliverer :=
  match d.2.activeJobId,v.rows .user d.2.userId with
  | some jobId,some user => match user.lastSeenAt with
    | some seen =>
      if seen+DELIVERER_GRACE_MS < v.clock then
        some ⟨d.1,d.2.userId,seen,jobId,v.rows .deliveryJob jobId,
          v.matching .order fun _ (o : Order) => o.deliveryJobId = some jobId⟩
      else none
    | none => none
  | _,_ => none

def staleDeliverers (env : Env) (v : Database) : List StaleDeliverer :=
  (env.scan v (v.all .delivererProfile)).filterMap (staleDeliverer v)

def released (o : Order) : Order :=
  {o with status := .waitingForDeliverer,deliveryJobId := none,delivererId := none}

def recoverTx (delivererId jobId batchId : Nat) : Transaction Unit := do
  Tx.update .delivererProfile (fun i _ => i = delivererId)
    (fun _ d => {d with activeJobId := none,availability := true}) .recordNotFound
  Tx.update .deliveryJob
    (fun i (job : DeliveryJob) => i = jobId ∧ job.status = .assigned)
    (fun _ job => {job with status := .pending,delivererId := none}) .recordNotFound
  Tx.update .deliveryBatch (fun i _ => i = batchId)
    (fun _ b => {b with delivererId := none,status := .inProgress}) .recordNotFound
  let _ ← Tx.updateMany .order (fun _ (o : Order) => o.deliveryJobId = some jobId) fun _ => released

def recoveredEvent (jobId : Nat) : EventLogService.Params :=
  ⟨.job,jobId,EVENTS.JOB.RECOVERED,.obj [("reason",.str "DELIVERER_TIMEOUT_BEFORE_START")]⟩

def alreadyEscalated (jobId lastSeenAt : Nat) (v : Database) : Bool :=
  !(v.matching .eventLog fun _ (event : EventLog) =>
    event.entityType = .job ∧ event.entityId = jobId ∧
      event.eventType = EVENTS.JOB.ESCALATED ∧ lastSeenAt < event.createdAt).isEmpty

def escalatedEvent (jobId : Nat) : EventLogService.Params :=
  ⟨.job,jobId,EVENTS.JOB.ESCALATED,.obj [("reason",.str "DELIVERER_OFFLINE_DURING_DELIVERY")]⟩

def deliveryIssueEvent (jobId : Nat) (order : Nat × Order) : EventLogService.Params :=
  ⟨.order,order.1,EVENTS.ORDER.DELIVERY_ISSUE,.obj [("orderId",.num order.1),("jobId",.num jobId),
    ("reason",.str "DELIVERER_OFFLINE_DURING_DELIVERY"),("currentStatus",.str order.2.status.name)]⟩

def stuckBatches (v : Database) : List Nat :=
  ((v.matching .deliveryBatch fun _ (b : DeliveryBatch) =>
    b.status = .inProgress ∧ b.delivererId = none ∧
      b.createdAt+STUCK_BATCH_MIN_AGE_MS < v.clock).insertionSort
    fun a b => a.2.createdAt ≤ b.2.createdAt).map Prod.fst

def freeDeliverers (v : Database) : Nat :=
  (v.matching .delivererProfile fun _ (d : DelivererProfile) =>
    d.availability ∧ d.activeJobId = none).length

end DelivererRecoveryService
end MesyafMarket
