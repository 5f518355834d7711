import MesyafMarket.Accounts
import MesyafMarket.Relational.Processes

namespace MesyafMarket
open Relational OrderService DelivererAssignmentService DelivererJobService DelivererRecoveryService
open VendorService SessionService DelivererService DelivererLocationService AdminService

-- BullMQ jobs: ASSIGN_DELIVERER and CLOSE_BATCH_TIMEOUT.
inductive QueueJob where
  | assignDeliverer (batchId : Nat)
  | closeBatchTimeout (batchId : Nat)
  deriving DecidableEq

-- What the gateways send to rooms on behalf of the services.
inductive Notice where
  | newOrder (vendorId orderId : Nat)
  | orderReady (customerId orderId : Nat)
  | orderDecided (customerId orderId : Nat) (status : OrderStatus)
  | jobAssigned (delivererId jobId batchId totalOrders : Nat)
  | delivererAssigned (customerId jobId delivererId : Nat)
  | deliveryIssue (customerId jobId orderId : Nat)
  deriving DecidableEq

inductive Reply where
  | done
  | order (orderId : Nat)
  | jobCompleted (jobCompleted : Bool)
  | thrown (e : Err)
  deriving DecidableEq

-- Who called closeBatch: vendorMarkReady after its commit, the loop of
-- closeExpiredBatches with the batches still to close, the batch's timer.
inductive CloseCaller where
  | markReady (customerId orderId : Nat)
  | expired (rest : List Nat)
  | timer

-- Who called assignDelivererToBatch: a queue worker, or the recovery sweep with
-- the deliverers still to handle.
inductive AssignCaller where
  | worker
  | sweep (rest : List StaleDeliverer)

inductive FlushCaller where
  | afterJob (reply : Reply)
  | own

-- Who called recordEvent outside a transaction.
inductive RecordCaller where
  | decision (customerId orderId : Nat) (status : OrderStatus)
  | recovered (batchId : Nat) (rest : List StaleDeliverer)
  | escalated (jobId : Nat) (orders : List (Nat × Order)) (rest : List StaleDeliverer)
  | issue (jobId : Nat) (order : Nat × Order) (orders : List (Nat × Order)) (rest : List StaleDeliverer)

-- The program points of the services, one before each statement that reads or
-- writes outside the process, with the local variables that are live there.
inductive Proc where
  | createOrder (dto : CreateOrderDto) (vendorId costumerId : Nat)
  | insertOrder (dto : CreateOrderDto) (vendorId costumerId : Nat) (vendor : VendorProfile)
  | notifyNewOrder (vendorId orderId : Nat)
  | vendorMarkReady (orderId userId : Nat)
  | readReadyOrder (orderId : Nat) (vendor : Option Nat)
  | claimReady (orderId customerId : Nat) (orderType : OrderType)
  | scheduleBatchTimeout (outcome : BatchOutcome) (customerId orderId : Nat)
  | notifyReady (customerId orderId : Nat)
  | closeBatch (batchId : Nat) (caller : CloseCaller)
  | queueAssignment (batchId : Nat) (caller : CloseCaller)
  | closeExpiredBatches
  | vendorDecide (decision : Decision) (orderId userId : Nat)
  | readDecidedOrder (decision : Decision) (orderId : Nat) (vendorId : Nat)
  | updateDecided (decision : Decision) (orderId customerId : Nat)
  | recordEvent (params : EventLogService.Params) (caller : RecordCaller)
  | projectEvent (id : Nat) (event : EventLog) (caller : RecordCaller)
  | notifyDecision (customerId orderId : Nat) (status : OrderStatus)
  | assignDelivererToBatch (batchId : Nat) (caller : AssignCaller)
  | readCandidates (batchId : Nat) (orders : List (Nat × Order)) (lat lng : Rat) (caller : AssignCaller)
  | readPositions (batchId : Nat) (orders : List (Nat × Order)) (lat lng : Rat)
      (deliverers : List (Nat × DelivererProfile)) (caller : AssignCaller)
  | readMissing (batchId : Nat) (orders : List (Nat × Order)) (lat lng : Rat)
      (deliverers : List (Nat × DelivererProfile)) (redis : Nat → Option Point) (caller : AssignCaller)
  | assign (batchId : Nat) (orders : List (Nat × Order)) (delivererId : Nat) (caller : AssignCaller)
  | notifyAssigned (jobId batchId delivererId : Nat) (orders : List (Nat × Order)) (caller : AssignCaller)
  | notifyCustomers (jobId delivererId : Nat) (orders : List (Nat × Order)) (caller : AssignCaller)
  | startJob (jobId delivererId : Nat)
  | completeDropOff (jobId dropOffId delivererId : Nat)
  | completeJob (jobId delivererId : Nat)
  | flushToDb (delivererId : Nat) (caller : FlushCaller)
  | writeLocation (delivererId : Nat) (loc : Point) (caller : FlushCaller)
  | findStuckBatch (reply : Reply)
  | requeueStuckBatch (batchId : Nat) (reply : Reply)
  | checkDeliverers
  | recoverUnstartedJob (deliverer : StaleDeliverer) (job : DeliveryJob) (rest : List StaleDeliverer)
  | escalateStartedJob (deliverer : StaleDeliverer) (rest : List StaleDeliverer)
  | notifyIssue (jobId : Nat) (order : Nat × Order) (orders : List (Nat × Order)) (rest : List StaleDeliverer)
  | requeueStuckBatches
  | countFreeDeliverers (stuck : List Nat)
  | requeue (batches : List Nat)
  | updateProfile (userId : Nat) (dto : UpdateDelivererProfileDto)
  | writeProfile (userId : Nat) (data : ProfileData)
  | markPresence (presence : Presence) (userId : Nat)
  | removeDeliverer (userId : Nat)
  | deleteProfile (userId : Nat)
  | demote (userId : Nat)
  | promoteUserToDeliverer (userId : Nat)
  | promote (userId : Nat)
  | createProfile (userId : Nat)
  | returned (reply : Reply)

namespace Proc

def closed : CloseCaller → Proc
  | .markReady customerId orderId => notifyReady customerId orderId
  | .expired [] => returned .done
  | .expired (b::rest) => closeBatch b (.expired rest)
  | .timer => returned .done

-- An error of closeBatch is logged by vendorMarkReady and by the loop of the
-- sweep; the timer's worker fails with it.
def closeFailed (e : Err) : CloseCaller → Proc
  | .timer => returned (.thrown e)
  | caller => closed caller

def afterBatching (outcome : BatchOutcome) (customerId orderId : Nat) : Proc :=
  if outcome.close then closeBatch outcome.batchId (.markReady customerId orderId)
  else notifyReady customerId orderId

-- handleDeliverer for each deliverer of the snapshot, then the stuck batches.
def sweepNext : List StaleDeliverer → Proc
  | [] => requeueStuckBatches
  | d::rest => match d.job with
    | none => sweepNext rest
    | some job => match job.status with
      | .assigned => recoverUnstartedJob d job rest
      | .inProgress => escalateStartedJob d rest
      | _ => sweepNext rest

def assigned : AssignCaller → Proc
  | .worker => returned .done
  | .sweep rest => sweepNext rest

def assignFailed (e : Err) : AssignCaller → Proc
  | .worker => returned (.thrown e)
  | .sweep rest => sweepNext rest

def issueNext (jobId : Nat) (rest : List StaleDeliverer) : List (Nat × Order) → Proc
  | [] => sweepNext rest
  | order::orders => recordEvent (deliveryIssueEvent jobId order) (.issue jobId order orders rest)

def recorded : RecordCaller → Proc
  | .decision customerId orderId status => notifyDecision customerId orderId status
  | .recovered batchId rest => assignDelivererToBatch batchId (.sweep rest)
  | .escalated jobId orders rest => issueNext jobId rest orders
  | .issue jobId order orders rest => notifyIssue jobId order orders rest

def recordFailed (e : Err) : RecordCaller → Proc
  | .decision .. => returned (.thrown e)
  | .recovered _ rest => sweepNext rest
  | .escalated _ _ rest => sweepNext rest
  | .issue _ _ _ rest => sweepNext rest

def flushed : FlushCaller → Proc
  | .afterJob reply => findStuckBatch reply
  | .own => returned .done

def flushFailed (e : Err) : FlushCaller → Proc
  | .afterJob reply => findStuckBatch reply
  | .own => returned (.thrown e)

def requeueNext : List Nat → Proc
  | [] => returned .done
  | b::rest => requeue (b::rest)

def notifyNext (jobId delivererId : Nat) (caller : AssignCaller) : List (Nat × Order) → Proc
  | [] => assigned caller
  | orders => notifyCustomers jobId delivererId orders caller

def vendorOfOrder (v : Database) (vendorId : Nat) (go : VendorProfile → Proc) : Proc :=
  match v.rows .vendorProfile vendorId with
  | none => returned (.thrown (.notFound "Vendor profile not found"))
  | some vendor =>
    if !vendor.isActive || !vendor.isVerified then
      returned (.thrown (.forbidden "Vendor profile is inactive or not verified"))
    else go vendor

def readyOrder (v : Database) (orderId : Nat) (vendor : Option Nat) : Proc :=
  match v.rows .order orderId with
  | none => returned (.thrown (.notFound "Order not found"))
  | some order =>
    if vendor ≠ some order.vendorId then
      returned (.thrown (.forbidden "This order does not belong to your shop"))
    else claimReady orderId order.customerId (if hasFood v orderId then .food else .grocery)

def decidedOrder (v : Database) (decision : Decision) (orderId vendorId : Nat) : Proc :=
  match v.rows .order orderId with
  | none => returned (.thrown (.forbidden "Unauthorized"))
  | some order =>
    if order.vendorId ≠ vendorId then returned (.thrown (.forbidden "Unauthorized"))
    else if order.status ≠ .pendingVendorConfirmation then returned (.thrown (.error decision.refusal))
    else updateDecided decision orderId order.customerId

-- The batch read at the head of assignDelivererToBatch.
def batchToAssign (env : Env) (v : Database) (batchId : Nat) (caller : AssignCaller) : Proc :=
  match v.rows .deliveryBatch batchId,batchOrders env v batchId with
  | some batch,first::others =>
    if batch.delivererId.isSome then assigned caller
    else match first.2.vendorLat,first.2.vendorLng with
      | some lat,some lng => readCandidates batchId (first::others) lat lng caller
      | _,_ => assigned caller
  | _,_ => assigned caller

def candidates (env : Env) (v : Database) (batchId : Nat) (orders : List (Nat × Order)) (lat lng : Rat)
    (caller : AssignCaller) : Proc :=
  match availableDeliverers env v with
  | [] => assignFailed (.noDelivererAvailable batchId) caller
  | deliverers => readPositions batchId orders lat lng deliverers caller

def choose (env : Env) (fresh : Nat → Option Point) (batchId : Nat) (orders : List (Nat × Order))
    (lat lng : Rat) (deliverers : List (Nat × DelivererProfile)) (caller : AssignCaller) : Proc :=
  match chosenDeliverer env (withLocation fresh deliverers) lat lng with
  | some deliverer => assign batchId orders deliverer.1 caller
  | none => assigned caller

end Proc

abbrev Machine := Program Row Key Err QueueJob Notice (Nat → Option Point) Proc
abbrev Step := Instr Row Key Err QueueJob Notice (Nat → Option Point) Proc

open Proc in
def Proc.next (env : Env) : Proc → Step
  | createOrder dto vendorId costumerId =>
    .query fun v => vendorOfOrder v vendorId (insertOrder dto vendorId costumerId)
  | insertOrder dto vendorId costumerId vendor =>
    .tx do return notifyNewOrder vendorId (← createOrderTx dto vendorId costumerId vendor)
  | notifyNewOrder vendorId orderId => .emit (.newOrder vendorId orderId) (returned (.order orderId))
  | vendorMarkReady orderId userId =>
    .query fun v => readReadyOrder orderId ((vendorByUser v userId).map Prod.fst)
  | readReadyOrder orderId vendor => .query fun v => readyOrder v orderId vendor
  | claimReady orderId customerId orderType => .tx do
    let outcome ← vendorMarkReadyTx env orderId orderType
    return if outcome.created then scheduleBatchTimeout outcome customerId orderId
      else afterBatching outcome customerId orderId
  | scheduleBatchTimeout outcome customerId orderId =>
    .add (.closeBatchTimeout outcome.batchId) (afterBatching outcome customerId orderId)
  | notifyReady customerId orderId => .emit (.orderReady customerId orderId) (returned (.order orderId))
  | closeBatch batchId caller => .tx do
    let count ← closeBatchUpdate batchId
    return if count = 0 then closed caller else queueAssignment batchId caller
  | queueAssignment batchId caller => .add (.assignDeliverer batchId) (closed caller)
  | closeExpiredBatches => .query fun v => closed (.expired (expiredBatches env.WINDOW_MIN v))
  | vendorDecide decision orderId userId => .query fun v => match vendorByUser v userId with
    | none => returned (.thrown (.error "Vendor profile not found"))
    | some vendor => readDecidedOrder decision orderId vendor.1
  | readDecidedOrder decision orderId vendorId => .query fun v => decidedOrder v decision orderId vendorId
  | updateDecided decision orderId customerId => .tx do
    decideTx decision orderId
    return recordEvent (decisionEvent decision orderId) (.decision customerId orderId decision.status)
  | recordEvent params caller => .tx do
    let event ← EventLogService.createEvent params
    return projectEvent event.1 event.2 caller
  | projectEvent id event caller => .tx do
    EventLogService.projectEvent id event
    return recorded caller
  | notifyDecision customerId orderId status =>
    .emit (.orderDecided customerId orderId status) (returned (.order orderId))
  | assignDelivererToBatch batchId caller => .query fun v => batchToAssign env v batchId caller
  | readCandidates batchId orders lat lng caller => .query fun v => candidates env v batchId orders lat lng caller
  | readPositions batchId orders lat lng deliverers caller =>
    .input fun redis => readMissing batchId orders lat lng deliverers redis caller
  | readMissing batchId orders lat lng deliverers redis caller =>
    .query fun v => choose env (getMany redis v) batchId orders lat lng deliverers caller
  | assign batchId orders delivererId caller => .tx do
    let jobId ← assignTx batchId orders delivererId
    return notifyAssigned jobId batchId delivererId orders caller
  | notifyAssigned jobId batchId delivererId orders caller =>
    .emit (.jobAssigned delivererId jobId batchId orders.length) (notifyNext jobId delivererId caller orders)
  | notifyCustomers jobId delivererId orders caller => match orders with
    | [] => .done
    | order::rest => .emit (.delivererAssigned order.2.customerId jobId delivererId)
        (notifyNext jobId delivererId caller rest)
  | startJob jobId delivererId => .tx do
    startJobTx jobId delivererId
    return returned .done
  | completeDropOff jobId dropOffId delivererId => .tx do
    let jobCompleted ← completeDropOffTx jobId dropOffId delivererId
    return if jobCompleted then flushToDb delivererId (.afterJob (.jobCompleted true))
      else returned (.jobCompleted false)
  | completeJob jobId delivererId => .tx do
    completeJobTx jobId delivererId
    return flushToDb delivererId (.afterJob .done)
  | flushToDb delivererId caller => .input fun redis => match redis delivererId with
    | none => flushed caller
    | some loc => writeLocation delivererId loc caller
  | writeLocation delivererId loc caller => .tx do
    writeLocationTx delivererId loc
    return flushed caller
  | findStuckBatch reply => .query fun v => match stuckBatch v with
    | none => returned reply
    | some batchId => requeueStuckBatch batchId reply
  | requeueStuckBatch batchId reply => .add (.assignDeliverer batchId) (returned reply)
  | checkDeliverers => .query fun v => sweepNext (staleDeliverers env v)
  | recoverUnstartedJob deliverer job rest => .tx do
    recoverTx deliverer.id deliverer.jobId job.batchId
    return recordEvent (recoveredEvent deliverer.jobId) (.recovered job.batchId rest)
  | escalateStartedJob deliverer rest => .query fun v =>
    if alreadyEscalated deliverer.jobId deliverer.lastSeenAt v then sweepNext rest
    else recordEvent (escalatedEvent deliverer.jobId) (.escalated deliverer.jobId deliverer.orders rest)
  | notifyIssue jobId order orders rest =>
    .emit (.deliveryIssue order.2.customerId jobId order.1) (issueNext jobId rest orders)
  | requeueStuckBatches => .query fun v => match stuckBatches v with
    | [] => returned .done
    | stuck => countFreeDeliverers stuck
  | countFreeDeliverers stuck => .query fun v => requeueNext (stuck.take (freeDeliverers v))
  | requeue batches => match batches with
    | [] => .done
    | b::rest => .add (.assignDeliverer b) (requeueNext rest)
  | updateProfile userId dto => .query fun v => match delivererByUser v userId with
    | none => returned (.thrown (.notFound "Deliverer profile not found"))
    | some profile => writeProfile userId (profileData dto profile.2)
  | writeProfile userId data => .tx do
    updateProfileTx userId data
    return returned .done
  | markPresence presence userId => .tx do
    presenceTx presence userId
    return returned .done
  | removeDeliverer userId => .query fun v => match delivererByUser v userId with
    | none => returned (.thrown (.notFound "Deliverer profile not found"))
    | some _ => deleteProfile userId
  | deleteProfile userId => .tx do
    deleteProfileTx userId
    return demote userId
  | demote userId => .tx do
    setRoleTx userId .customer
    return returned .done
  | promoteUserToDeliverer userId => .query fun v => match v.rows .user userId with
    | none => returned (.thrown (.notFound "User not found"))
    | some _ => promote userId
  | promote userId => .tx do
    setRoleTx userId .deliverer
    return createProfile userId
  | createProfile userId => .tx do
    createProfileTx userId
    return returned .done
  | returned _ => .done

open Proc in
def Proc.caught : Proc → Err → Proc
  | scheduleBatchTimeout _ customerId orderId,_ => notifyReady customerId orderId
  | closeBatch _ caller,e => closeFailed e caller
  | queueAssignment _ caller,e => closeFailed e caller
  | recordEvent _ caller,e => recordFailed e caller
  | projectEvent _ _ caller,e => recordFailed e caller
  | assignDelivererToBatch _ caller,e => assignFailed e caller
  | readCandidates _ _ _ _ caller,e => assignFailed e caller
  | readPositions _ _ _ _ _ caller,e => assignFailed e caller
  | readMissing _ _ _ _ _ _ caller,e => assignFailed e caller
  | assign _ _ _ caller,e => assignFailed e caller
  -- A failed notification is logged.
  | notifyAssigned _ _ _ _ caller,_ => assigned caller
  | notifyCustomers _ _ _ caller,_ => assigned caller
  | flushToDb _ caller,e => flushFailed e caller
  | writeLocation _ _ caller,e => flushFailed e caller
  | findStuckBatch reply,_ => returned reply
  | requeueStuckBatch _ reply,_ => returned reply
  -- checkDeliverers catches what checkStaleDeliverers throws and goes on to the stuck batches.
  | checkDeliverers,_ => requeueStuckBatches
  | recoverUnstartedJob _ _ rest,_ => sweepNext rest
  | escalateStartedJob _ rest,_ => sweepNext rest
  | notifyIssue _ _ _ rest,_ => sweepNext rest
  | requeueStuckBatches,_ => returned .done
  | countFreeDeliverers _,_ => returned .done
  | requeue _,_ => returned .done
  | returned reply,_ => returned reply
  | _,e => returned (.thrown e)

def market (env : Env) : Machine where
  next := Proc.next env
  caught := Proc.caught
  worker
    | .assignDeliverer batchId => .assignDelivererToBatch batchId .worker
    | .closeBatchTimeout batchId => .closeBatch batchId .timer
  infrastructure := .infrastructure

-- Requests, socket messages and timers. Everything else runs inside one of these
-- or takes a queued job.
inductive Entry : Proc → Prop where
  | createOrder : Entry (.createOrder dto vendorId costumerId)
  | vendorMarkReady : Entry (.vendorMarkReady orderId userId)
  | vendorDecide : Entry (.vendorDecide decision orderId userId)
  | closeExpiredBatches : Entry .closeExpiredBatches
  | startJob : Entry (.startJob jobId delivererId)
  | completeDropOff : Entry (.completeDropOff jobId dropOffId delivererId)
  | completeJob : Entry (.completeJob jobId delivererId)
  | flushToDb : Entry (.flushToDb delivererId .own)
  | checkDeliverers : Entry .checkDeliverers
  | updateProfile : Entry (.updateProfile userId dto)
  | markPresence : Entry (.markPresence presence userId)
  | removeDeliverer : Entry (.removeDeliverer userId)
  | promoteUserToDeliverer : Entry (.promoteUserToDeliverer userId)

end MesyafMarket
