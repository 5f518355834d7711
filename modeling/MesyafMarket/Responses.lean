import MesyafMarket.Gateways
import MesyafMarket.ProductReads

namespace MesyafMarket
open Relational VendorService

namespace Records
open Json

section Included
variable (r : Records) (scan : Scan)

def itemsOf (orderId : Nat) : Json :=
  .arr <| (scan.order (r.db.matching .orderItem fun _ (item : OrderItem) => item.orderId = orderId)).map fun item =>
    .obj (Rows.itemFields item.1 item.2 ++
      [("product",optional (r.product item.2.productId) (r.db.rows .product item.2.productId))])

-- `user: true`, all columns of the row.
def userOf (userId : Nat) : Json := optional (r.user userId) (r.db.rows .user userId)

def vendorOf (vendorId : Nat) : Json := optional (r.vendorProfile vendorId) (r.db.rows .vendorProfile vendorId)

def shopOf (userId : Nat) : Json := optional (fun p => r.vendorProfile p.1 p.2) (vendorByUser r.db userId)

def orderWithItems (i : Nat) (o : Order) : Json := .obj (r.orderFields i o ++ [("orderItems",r.itemsOf scan i)])

def orderWithCustomer (i : Nat) (o : Order) : Json :=
  .obj (r.orderFields i o ++ [("orderItems",r.itemsOf scan i),("customer",r.userOf o.customerId)])

def orderOfJob (i : Nat) (o : Order) : Json :=
  .obj (r.orderFields i o ++ [("orderItems",r.itemsOf scan i),("customer",r.userOf o.customerId),
    ("vendor",r.vendorOf o.vendorId)])

def jobOrders (jobId : Nat) : List (Nat × Order) := r.db.matching .order fun _ (o : Order) => o.deliveryJobId = some jobId

def jobWithOrders (i : Nat) (job : DeliveryJob) : Json :=
  .obj (r.jobFields i job ++ [
    ("orders",.arr ((scan.order (r.jobOrders i)).map fun o => r.orderOfJob scan o.1 o.2)),
    ("stops",.arr ((scan.order (r.db.matching .deliveryDropOff fun _ (stop : DeliveryDropOff) => stop.jobId = i)).map
      fun stop => Rows.dropOff stop.1 stop.2))])

def productWithTags (i : Nat) : Json :=
  .obj [("id",nat i),("name",.str (r.site.item i).name),("tags",r.tagsOf scan i)]

end Included
end Records

namespace OrderTimelineQueryService

-- The token's user has no `vendorId`.
def getOrderTimeline (scan : Scan) (r : Records) (orderId : Nat) (user : AuthenticatedUser) : Except Failure Json :=
  match r.db.rows .order orderId with
  | none => .error (.service (.notFound "Not Found"))
  | some order =>
    if user.role = .admin ∨ (user.role = .customer ∧ user.id = order.customerId) ∨
        (user.role = .vendor ∧ user.number "vendorId" = some order.vendorId) then
      let rows := scan.order (r.db.matching .orderTimeline fun _ (row : OrderTimeline) => row.orderId = orderId)
      .ok <| .obj [("orderId",.nat orderId),("timeline",.arr <|
        (rows.mergeSort fun a b => a.2.occurredAt ≤ b.2.occurredAt).map fun row => Rows.orderTimeline row.1 row.2)]
    else .error (.service (.forbidden "Forbidden"))

end OrderTimelineQueryService

namespace JobTimelineQueryService

def getJobTimeline (scan : Scan) (r : Records) (jobId : Nat) (user : AuthenticatedUser) : Except Failure Json :=
  match r.db.rows .deliveryJob jobId with
  | none => .error (.service (.notFound "Not Found"))
  | some job =>
    if user.role ≠ .admin ∧ user.delivererId ≠ job.delivererId then .error (.service (.forbidden "Forbidden"))
    else
      let rows := scan.order (r.db.matching .jobTimeline fun _ (row : JobTimeline) => row.jobId = jobId)
      .ok <| .obj [("jobId",.nat jobId),("timeline",.arr <|
        (rows.mergeSort fun a b => a.2.occurredAt ≤ b.2.occurredAt).map fun row => Rows.jobTimeline row.1 row.2)]

end JobTimelineQueryService

-- The requests that only read, with what their paths and queries say.
inductive ReadRequest where
  | getHello | check | testError
  | findAll | getProfile
  | getUserOrders (status : Option OrderStatus)
  | getMyVendorProfile | getAllVendors
  | getProfileByVendorId (vendorId : Nat)
  | getVendorOrders (status : OrderStatus)
  | getProduct (productId : Nat)
  | getMyProducts (filter : ProductFilterDto)
  | getVendorProducts (vendorId : Nat) (filter : ProductFilterDto)
  | getAllProducts (filter : ProductFilterDto)
  | getMyProfile
  | getProfileOf (userId : Nat)
  | getDelivererJobs (status : Option JobStatus)
  | getOrderTimeline (orderId : Nat)
  | getJobTimeline (jobId : Nat)

section Reads
variable (contains : Contains) (scan : Scan) (r : Records)

def UsersController.findAll (env : Env) (received : Request) : Except Failure Json := do
  let _ ← authGuard received
  return ResponseService.success "Users fetched successfully" (← ((UsersService.findAll env).run r).2)

def UsersService.findOne (id : Option Nat) : Except Failure (Option Json) := do
  let userId ← uniqueId id
  return (r.db.rows .user userId).map fun user => .obj (r.selectedFields userId user)

def UsersController.getProfile (received : Request) : Except Failure Json := do
  let user ← (← authGuard received).caller
  match ← UsersService.findOne r (user.number "userId") with
  | none => return ResponseService.error "User not found" 404
  | some user => return ResponseService.success "Profile fetched successfully" user

def UsersController.userOrders (received : Request) (status : Option OrderStatus) : Except Failure Json := do
  let req ← authGuard received
  let userId ← req.userNumber "userId"
  let rows := r.db.matching .order fun _ (o : Order) => filtered userId o.customerId && filtered status o.status
  return .arr ((scan.order rows).map fun o => r.orderWithItems scan o.1 o.2)

def VendorController.getMyVendorProfile (received : Request) : Except Failure Json := do
  match VendorService.getProfileByUserId r.db (← guardedId [.vendor] received) with
  | none => throw (.service (.notFound "Vendor profile not found"))
  | some vendorId => return r.vendorOf vendorId

def VendorService.getProfileByVendorId (vendorId : Nat) : Except Failure Json :=
  match r.db.rows .vendorProfile vendorId with
  | none => .error (.service (.notFound "Vendor profile not found"))
  | some profile =>
    if profile.isActive && profile.isVerified then
      .ok (ResponseService.success "Vendor profile retrieved successfully" (r.vendorProfile vendorId profile))
    else .error (.service (.notFound "Vendor profile not found"))

def VendorService.getAllVendors : Except Failure Json :=
  .ok <| ResponseService.success "All active vendors retrieved successfully" <| .arr <|
    (scan.order (r.db.matching .vendorProfile fun _ (p : VendorProfile) => p.isActive && p.isVerified)).map fun p =>
      r.vendorProfile p.1 p.2

-- The orders that a vendor is shown.
def VendorService.ordersOf (vendorId : Nat) (status : OrderStatus) : List (Nat × Order) :=
  r.db.matching .order fun _ (o : Order) => o.vendorId = vendorId && filtered (some status) o.status

def VendorController.vendorOrders (received : Request) (status : OrderStatus) : Except Failure Json := do
  let userId ← uniqueId (← (← authGuard received).userNumber "id")
  match vendorByUser r.db userId with
  | none => throw (.service (.notFound "Vendor profile not found"))
  | some vendor =>
    return .arr ((scan.order (VendorService.ordersOf r vendor.1 status)).map fun o => r.orderWithCustomer scan o.1 o.2)

def DelivererService.getProfileByUserId (userId : Nat) : Except Failure Json :=
  match delivererByUser r.db userId with
  | none => .error (.service (.notFound "Deliverer profile not found"))
  | some profile => .ok <| ResponseService.success "Deliverer profile retrieved successfully" <|
      .obj (r.delivererFields profile.1 profile.2 ++ [("user",r.userOf profile.2.userId)])

def DelivererController.getMyProfile (received : Request) : Except Failure Json := do
  DelivererService.getProfileByUserId r (← guardedId [.deliverer] received)

-- RolesGuard runs without AuthGuard.
def DelivererController.getProfile (received : Request) (userId : Nat) : Except Failure Json := do
  let _ ← RolesGuard.canActivate [.admin] received
  DelivererService.getProfileByUserId r userId

-- The jobs that a deliverer is shown.
def DelivererJobService.jobsOf (delivererId : Nat) (status : Option JobStatus) : List (Nat × DeliveryJob) :=
  r.db.matching .deliveryJob fun _ (job : DeliveryJob) => job.delivererId = some delivererId && filtered status job.status

def DelivererController.delivererJobs (received : Request) (status : Option JobStatus) : Except Failure Json := do
  let userId ← uniqueId (← (← authGuard received).userNumber "id")
  match DelivererService.delivererByUser r.db userId with
  | none => throw (.service (.notFound "Deliverer profile not found"))
  | some deliverer =>
    return .arr ((scan.order (DelivererJobService.jobsOf r deliverer.1 status)).map fun job => r.jobWithOrders scan job.1 job.2)

def TimeLineController.getOrderTimeline (received : Request) (orderId : Nat) : Except Failure Json := do
  let req ← RolesGuard.canActivate [.customer,.vendor,.admin] (← authGuard received)
  OrderTimelineQueryService.getOrderTimeline scan r orderId (← req.caller)

def TimeLineController.getJobTimeline (received : Request) (jobId : Nat) : Except Failure Json := do
  let req ← RolesGuard.canActivate [.deliverer,.admin] (← authGuard received)
  JobTimelineQueryService.getJobTimeline scan r jobId (← req.caller)

end Reads

def ReadRequest.answer (env : Env) (contains : Contains) (cache : ProductCache) (r : Records) (received : Request) :
    ReadRequest → Except Failure Json
  | getHello => .ok (.str "Hello World!")
  | check => .ok (.obj [("status",.str "ok")])
  | testError => .error (.service (.error "Something broke"))
  | findAll => UsersController.findAll r env received
  | getProfile => UsersController.getProfile r received
  | getUserOrders status => UsersController.userOrders (env.scanning r.db) r received status
  | getMyVendorProfile => VendorController.getMyVendorProfile r received
  | getAllVendors => VendorService.getAllVendors (env.scanning r.db) r
  | getProfileByVendorId vendorId => VendorService.getProfileByVendorId r vendorId
  | getVendorOrders status => VendorController.vendorOrders (env.scanning r.db) r received status
  | getProduct productId => do
    let _ ← authGuard received
    (ProductService.getProductById contains (env.scanning r.db) r cache productId).1
  | getMyProducts filter => do
    (ProductService.getVendorProductsByUser contains (env.scanning r.db) r cache (← guardedId [.vendor] received) filter).1
  | getVendorProducts vendorId filter => do
    let _ ← authGuard received
    (ProductService.getVendorProducts contains (env.scanning r.db) r cache vendorId filter).1
  | getAllProducts filter => (ProductService.getAllProducts contains (env.scanning r.db) r cache filter).1
  | getMyProfile => DelivererController.getMyProfile r received
  | getProfileOf userId => DelivererController.getProfile r received userId
  | getDelivererJobs status => DelivererController.delivererJobs (env.scanning r.db) r received status
  | getOrderTimeline orderId => TimeLineController.getOrderTimeline (env.scanning r.db) r received orderId
  | getJobTimeline jobId => TimeLineController.getJobTimeline (env.scanning r.db) r received jobId

open Json ResponseService in
-- What a handler that leaves `r'` answers its caller.
def HttpRequest.shows (scan : Scan) (r r' : Records) (caller : AuthenticatedUser) : HttpRequest → Json
  | updateMyProfile _ => success "Profile updated successfully" (optional r'.userOf (caller.number "userId"))
  | remove id _ => success "User deleted successfully" (optional r.userOf id)
  | createVendorProfile _ => created "Vendor profile created successfully" (r'.vendorOf (r.db.seq .vendorProfile))
  | updateProfile _ => success "Vendor profile updated successfully" (r'.shopOf caller.id)
  | deleteProfile => done "Vendor profile and all related products deleted successfully"
  | toggleProfile isActive =>
    success ("Vendor profile " ++ (if truthy isActive then "activated" else "deactivated") ++ " successfully")
      (r'.shopOf caller.id)
  | requestPromotionOrReactivation userId => r'.shopOf userId
  | createProduct _ => created "Product created successfully" <|
      optional (r'.productWithRelations scan (r.db.seq .product)) (r'.db.rows .product (r.db.seq .product))
  | updateProduct productId _ => success "Product updated successfully" <|
      optional (r'.productWithRelations scan productId) (r'.db.rows .product productId)
  | deleteProduct _ => done "Product deleted successfully"
  | addProductImage productId _ => success "Image added successfully" <| .obj [
      ("image",optional (Rows.image (r.site.images.seq ())) (r'.site.image (r.site.images.seq ()))),
      ("imageCount",nat (r'.site.images.matching () fun _ image => image.productId = productId).length)]
  | deleteProductImage productId imageId => success "Image removed successfully" <| .obj [
      ("removed",nat (r.site.images.matching () fun i image => i = imageId ∧ image.productId = productId).length)]
  | deleteAllProductImages productId => success "All images removed successfully" <| .obj [
      ("removedCount",nat (r.site.images.matching () fun _ image => image.productId = productId).length)]
  | attachProductTags productId _ => success "Tags added successfully" <| .obj [("product",r'.productWithTags scan productId)]
  | detachProductTags productId _ => success "Tags removed successfully" <| .obj [("product",r'.productWithTags scan productId)]
  | removeAllProductTags productId => success "All tags removed successfully" <| .obj [
      ("product",optional (r'.product productId) (r'.db.rows .product productId))]
  | _ => .null

-- What a call of the market answers once it has come to its end. The order that is
-- ready was read before it joined its batch.
def HttpRequest.replied (scan : Scan) (r r' : Records) (caller : AuthenticatedUser) (request : HttpRequest) (reply : Reply) :
    Except Failure Json :=
  match request,reply with
  | _,.thrown e => .error (.service e)
  | createOrder _ _,.order orderId => .ok (.optional (fun o => .obj (r'.orderFields orderId o)) (r'.db.rows .order orderId))
  | markOrderReady orderId,.order _ => .ok <| .optional (r'.orderWithItems scan orderId) <|
      (r'.db.rows .order orderId).map fun o =>
        {o with deliveryBatchId := (r.db.rows .order orderId).bind Order.deliveryBatchId}
  | testBatch batchId,_ => .ok (.obj [("message",.str "closeBatch triggered"),("batchId",.optional .nat batchId)])
  | updateMyDelivererProfile _,_ => .ok <|
      .optional (fun d => r'.delivererProfile d.1 d.2) (DelivererService.delivererByUser r'.db caller.id)
  | _,_ => .ok .null

end MesyafMarket
