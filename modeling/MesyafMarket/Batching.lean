import Mathlib.Algebra.Field.Defs
import Mathlib.Order.Defs.LinearOrder
import MesyafMarket.Events

namespace MesyafMarket
open Relational

-- What the services compute from their configuration and from floating point
-- geometry, and the order in which Postgres returns rows of an unordered query.
structure Env where
  checkBatchEligibility : Order → List Order → Bool
  WINDOW_MIN : Nat
  findClosestDeliverer : List (Nat × DelivererProfile) → Rat → Rat → Option (Nat × DelivererProfile)
  scan : {α : Type} → Database → List α → List α
  scan_perm : ∀ {α : Type} (v : Database) (rows : List α), (scan v rows).Perm rows
  closest_mem : ∀ rows lat lng found, findClosestDeliverer rows lat lng = some found → found ∈ rows

namespace OrderService

structure CityRules (K : Type) where
  MAX_VENDOR_DIST : K
  MAX_DELAY_THRESHOLD : K
  WINDOW_MIN : Nat

def FOOD_MAX_BATCH := 3
def GROCERY_MAX_BATCH := 5

def READYABLE_STATUSES : List OrderStatus := [.pendingVendorConfirmation,.vendorAccepted]

section Rules
variable {K : Type} [Field K] [LinearOrder K] (calcDistanceKm : Point → Point → K)

def CITY_RULES : String → Option (CityRules K)
  | "SMALL" => some ⟨120,7,3⟩
  | "MEDIUM" => some ⟨60,5,4⟩
  | "LARGE" => some ⟨20,3,3⟩
  | _ => none

-- `process.env.CITY_TYPE || 'MEDIUM'`, and MEDIUM for a type that has no rules.
def rules (CITY_TYPE : Option String) : CityRules K :=
  (CITY_RULES (CITY_TYPE.getD "MEDIUM")).getD ⟨60,5,4⟩

-- The route so far: travel time and the point it has reached.
def routeTo (speedKmPerMin : K) (route : K × Point) (o : Order) : K × Point :=
  match o.customerLat,o.customerLng with
  | some lat,some lng =>
    (route.1+calcDistanceKm route.2 ⟨lat,lng⟩/speedKmPerMin,⟨lat,lng⟩)
  | _,_ => route

def estimateDelay (order : Order) (batchOrders : List Order) (speedKmPerHour : K) : K :=
  match order.vendorLat,order.vendorLng,order.customerLat,order.customerLng with
  | some vendorLat,some vendorLng,some customerLat,some customerLng =>
    let speedKmPerMin := speedKmPerHour/60
    let vendorPoint : Point := ⟨vendorLat,vendorLng⟩
    let customerPoint : Point := ⟨customerLat,customerLng⟩
    let soloTime := calcDistanceKm vendorPoint customerPoint/speedKmPerMin
    let route := batchOrders.foldl (routeTo calcDistanceKm speedKmPerMin) (0,vendorPoint)
    route.1+calcDistanceKm route.2 customerPoint/speedKmPerMin-soloTime
  | _,_,_,_ => 0

-- `order.vendorLat!`: a null coordinate counts as 0 in the subtraction.
def vendorPoint (o : Order) : Point := ⟨o.vendorLat.getD 0,o.vendorLng.getD 0⟩

def checkBatchEligibility (ALLOW_MULTI_VENDOR : Bool) (rules : CityRules K) (order : Order) :
    List Order → Bool
  | [] => true
  | first::others =>
    let batchOrders := first::others
    let max := if order.orderType = .food then FOOD_MAX_BATCH else GROCERY_MAX_BATCH
    if !ALLOW_MULTI_VENDOR && batchOrders.any (fun o => o.vendorId != order.vendorId) then false
    else if batchOrders.length ≥ max then false
    else if calcDistanceKm (vendorPoint order) (vendorPoint first)*1000 > rules.MAX_VENDOR_DIST then false
    else if estimateDelay calcDistanceKm order batchOrders 30 > rules.MAX_DELAY_THRESHOLD then false
    else true

end Rules

def shouldCloseBatch (windowMin now createdAt : Nat) (orders : List Order) : Bool :=
  if createdAt+windowMin*60000 ≤ now then true
  else if orders.isEmpty then false
  else
    let max := if orders.any (fun o => o.orderType = .food) then FOOD_MAX_BATCH else GROCERY_MAX_BATCH
    orders.length ≥ max

structure OrderItemDto where
  productId : Nat
  quantity : Int
  price : Rat
  deriving DecidableEq

structure CreateOrderDto where
  items : List OrderItemDto
  customerAddress : Option String
  customerLat : Option Rat
  customerLng : Option Rat
  estimatedPrepTime : Option Int
  deliveryFee : Option Int
  deriving DecidableEq

def orderPayload (orderId : Nat) (status : String) : Json :=
  .obj [("orderId",.num orderId),("status",.str status)]

def newOrder (dto : CreateOrderDto) (vendorId costumerId : Nat) (vendor : VendorProfile) (now : Nat) :
    Order where
  vendorId := vendorId
  customerId := costumerId
  status := .pendingVendorConfirmation
  orderType := .empty
  estimatedPrepTime := dto.estimatedPrepTime
  readyAt := none
  deliveredAt := none
  createdAt := now
  deliveryFee := dto.deliveryFee
  delivererId := none
  deliveryJobId := none
  deliveryBatchId := none
  vendorLat := vendor.latitude
  vendorLng := vendor.longitude
  customerAddress := dto.customerAddress
  customerLat := dto.customerLat
  customerLng := dto.customerLng

-- A foreign key violation: the customer, or a product of the items, is missing.
def orderReferences (dto : CreateOrderDto) (costumerId : Nat) (v : Database) : Bool :=
  (v.rows .user costumerId).isSome && dto.items.all fun it => (v.rows .product it.productId).isSome

def createOrderTx (dto : CreateOrderDto) (vendorId costumerId : Nat) (vendor : VendorProfile) :
    Transaction Nat := do
  let referenced ← Tx.select (orderReferences dto costumerId)
  if !referenced then .throw .foreignKeyViolation
  else do
    let order ← Tx.create Tab.order (newOrder dto vendorId costumerId vendor)
    Tx.createMany .orderItem fun _ =>
      dto.items.map fun it => (⟨order.1,it.productId,it.quantity,it.price⟩ : OrderItem)
    EventLogService.recordEvent ⟨.order,order.1,EVENTS.ORDER.CREATED,
      orderPayload order.1 OrderStatus.pendingVendorConfirmation.name⟩
    return order.1

def hasFood (v : Database) (orderId : Nat) : Bool :=
  (v.matching .orderItem fun _ (item : OrderItem) => item.orderId = orderId).any fun item =>
    match (v.rows .product item.2.productId).bind fun product => v.rows .category product.categoryId with
    | some category => category.name.toLower == "food"
    | none => false

structure BatchOutcome where
  batchId : Nat
  created : Bool
  close : Bool
  deriving DecidableEq

abbrev OpenBatch := Nat × DeliveryBatch × List Order

def ordersOf (env : Env) (v : Database) (batchId : Nat) : List (Nat × Order) :=
  env.scan v (v.matching .order fun _ (o : Order) => o.deliveryBatchId = some batchId)

-- Prisma reads the open batches with one query and, for `include`, their orders with a second.
def pendingBatches (env : Env) (v : Database) : List (Nat × DeliveryBatch) :=
  (env.scan v (v.matching .deliveryBatch fun _ (b : DeliveryBatch) => b.status = .pending)).insertionSort
    fun a b => a.2.createdAt ≤ b.2.createdAt

def withOrders (env : Env) (batches : List (Nat × DeliveryBatch)) (v : Database) : List OpenBatch :=
  batches.map fun b => (b.1,b.2,(ordersOf env v b.1).map Prod.snd)

def openBatches (env : Env) (v : Database) : List OpenBatch := withOrders env (pendingBatches env v) v

-- The first open batch that the loop will not `continue` past.
def picked (env : Env) (order : Order) (batches : List OpenBatch) : Option OpenBatch :=
  batches.find? fun batch => env.checkBatchEligibility order batch.2.2

def joined (batchId : Nat) (o : Order) : Order := {o with deliveryBatchId := some batchId}

def readied (orderType : OrderType) (now : Nat) (o : Order) : Order :=
  {o with status := .readyForDelivery,orderType := orderType,readyAt := some now}

-- `deliveryBatch.update` with a nested `connect` writes the foreign key of the
-- order row; no column of the batch row is written.
def connectOrder (batchId orderId : Nat) : Transaction Nat :=
  .stmt (fun v => Tx.updatesEffect v .order (fun i _ => i = orderId) (joined batchId) [])
    fun v => if (v.rows .deliveryBatch batchId).isNone || (v.rows .order orderId).isNone
      then .throw .recordNotFound else .ret v.clock

def assignToBatchLoop (env : Env) (orderId : Nat) (order : Order) : List OpenBatch → Transaction BatchOutcome
  | [] => do
    let created ← Tx.create Tab.deliveryBatch fun now => (⟨none,.pending,now⟩ : DeliveryBatch)
    let _ ← connectOrder created.1 orderId
    return ⟨created.1,true,false⟩
  | batch::rest =>
    if !env.checkBatchEligibility order batch.2.2 then assignToBatchLoop env orderId order rest
    else do
      let now ← connectOrder batch.1 orderId
      return ⟨batch.1,false,shouldCloseBatch env.WINDOW_MIN now batch.2.1.createdAt (batch.2.2 ++ [order])⟩

-- The read of their orders settles which batch the order joins; the pick is noted
-- with the advisory lock that is held from here to the commit.
def assignToBatch (env : Env) (orderId : Nat) (order : Order) : Transaction BatchOutcome := do
  Tx.lock fun _ => [.key .batchLock]
  let pending ← Tx.select (pendingBatches env)
  let batches ← Tx.selectLocking (withOrders env pending) fun v =>
    match picked env order (withOrders env pending v) with
    | some batch => [.key (.joins batch.1)]
    | none => []
  assignToBatchLoop env orderId order batches

def vendorMarkReadyTx (env : Env) (orderId : Nat) (orderType : OrderType) : Transaction BatchOutcome := do
  let claimed ← Tx.updateMany .order
    (fun i (o : Order) => i = orderId ∧ o.status ∈ READYABLE_STATUSES) (readied orderType)
  if claimed = 0 then
    .throw (.conflict "Order was already marked ready or cannot be marked ready")
  else do
    let readyOrder ← Tx.findUniqueOrThrow .order orderId .recordNotFound
    let batching ← assignToBatch env orderId readyOrder
    EventLogService.recordEvent ⟨.order,orderId,EVENTS.ORDER.READY,
      orderPayload orderId OrderStatus.readyForDelivery.name⟩
    return batching

def closeBatchUpdate (batchId : Nat) : Transaction Nat :=
  Tx.updateMany .deliveryBatch
    (fun i (b : DeliveryBatch) => i = batchId ∧ b.status = .pending)
    fun _ b => {b with status := .inProgress}

def expiredBatches (windowMin : Nat) (v : Database) : List Nat :=
  (v.matching .deliveryBatch fun _ (b : DeliveryBatch) =>
    b.status = .pending ∧ b.createdAt+(windowMin+1)*60000 < v.clock).map Prod.fst

end OrderService
end MesyafMarket
