import MesyafMarket.Storefront

namespace MesyafMarket
open Relational

-- `req.user`, and an error where a handler reads a property of `undefined`.
def Request.caller (req : Request) : Except Failure AuthenticatedUser :=
  match req.user with
  | some user => .ok user
  | none => .error (.typeError "Cannot read properties of undefined")

-- AuthGuard('jwt') and then RolesGuard with the roles of the handler; the id of the caller.
def guardedId (roles : List Role) (received : Request) : Except Failure Nat := do
  let req ← RolesGuard.canActivate roles (← authGuard received)
  uniqueId (← req.userNumber "id")

namespace UsersController
open UsersService

def updateMyProfile (s : Site) (received : Request) (dto : UpdateUserDto) : Except Failure Site := do
  let user ← (← authGuard received).caller
  updateProfile s (user.number "userId") dto user

def remove (compare : String → String → Bool) (s : Site) (received : Request) (id : Option Nat)
    (password : Option String) : Except Failure Site := do
  let user ← (← authGuard received).caller
  UsersService.remove compare s id user password

end UsersController

namespace VendorController
open VendorService

def createVendorProfile (s : Site) (received : Request) (dto : ShopDto) : Except Failure Site := do
  createProfile s (← guardedId [.customer,.vendor] received) dto

def updateProfile (s : Site) (received : Request) (dto : UpdateShopDto) : Except Failure Site := do
  VendorService.updateProfile s (← guardedId [.vendor] received) dto

def deleteProfile (s : Site) (received : Request) : Except Failure Site := do
  let userId ← guardedId [.vendor,.admin] received
  VendorService.deleteProfile s userId (← (← authGuard received).caller).role

def toggleProfile (s : Site) (received : Request) (isActive : Option Json) : Except Failure Site := do
  let userId ← guardedId [.vendor,.admin] received
  VendorService.toggleProfile s userId isActive (← (← authGuard received).caller).role

-- The user id is the one in the path.
def requestPromotionOrReactivation (s : Site) (received : Request) (userId : Nat) : Except Failure Site := do
  let user ← (← authGuard received).caller
  VendorService.requestPromotionOrReactivation s userId user.role

end VendorController

namespace ProductController
open ProductService

def createProduct (s : Site) (received : Request) (dto : CreateProductDto) : Except Failure Site := do
  ProductService.createProduct s (← guardedId [.vendor] received) dto

def updateProduct (s : Site) (received : Request) (productId : Nat) (dto : UpdateProductDto) : Except Failure Site := do
  ProductService.updateProduct s (← guardedId [.vendor] received) productId dto

def deleteProduct (s : Site) (received : Request) (productId : Nat) : Except Failure Site := do
  ProductService.deleteProduct s (← guardedId [.vendor] received) productId

def addProductImage (s : Site) (received : Request) (productId : Nat) (dto : AddProductImageDto) :
    Except Failure Site := do
  ProductService.addProductImage s (← guardedId [.vendor] received) productId dto

def deleteProductImage (s : Site) (received : Request) (productId imageId : Nat) : Except Failure Site := do
  removeProductImage s (← guardedId [.vendor] received) productId imageId

def deleteAllProductImages (s : Site) (received : Request) (productId : Nat) : Except Failure Site := do
  clearProductImages s (← guardedId [.vendor] received) productId

def attachProductTags (s : Site) (received : Request) (productId : Nat) (tagIds : List Nat) : Except Failure Site := do
  attachTags s (← guardedId [.vendor] received) productId tagIds

def detachProductTags (s : Site) (received : Request) (productId : Nat) (tagIds : List Nat) : Except Failure Site := do
  detachTags s (← guardedId [.vendor] received) productId tagIds

def removeAllProductTags (s : Site) (received : Request) (productId : Nat) : Except Failure Site := do
  removeAllTags s (← guardedId [.vendor] received) productId

end ProductController

namespace OrderController

def createOrder (received : Request) (vendorId : Nat) (dto : OrderService.CreateOrderDto) : Except Failure Proc := do
  let req ← authGuard received
  return .createOrder dto vendorId (← uniqueId (← req.userNumber "id"))

def markOrderReady (received : Request) (orderId : Nat) : Except Failure Proc := do
  return .vendorMarkReady orderId (← guardedId [.vendor] received)

-- `+batchId` is the id of a batch or, where it is no whole number, refused by Prisma.
def testBatch (received : Request) (batchId : Option Nat) : Except Failure Proc := do
  let _ ← authGuard received
  return .closeBatch (← uniqueId batchId) .timer

end OrderController

namespace DelivererController

def updateMyProfile (received : Request) (dto : DelivererService.UpdateDelivererProfileDto) : Except Failure Proc := do
  return .updateProfile (← guardedId [.deliverer] received) dto

end DelivererController

-- The handlers that only read.
inductive ReadHandler where
  | findAll | getProfile | getUserOrders
  | getMyVendorProfile | getProfileByVendorId | getAllVendors | getVendorOrders
  | getProduct | getMyProducts | getVendorProducts | getAllProducts
  | testError
  | getMyProfile | getDelivererJobs | getDelivererProfile

-- A request to one of the handlers, with what its path and its body say.
inductive HttpRequest where
  | read (handler : ReadHandler)
  | updateMyProfile (dto : UsersService.UpdateUserDto)
  | remove (id : Option Nat) (password : Option String)
  | createVendorProfile (dto : VendorService.ShopDto)
  | updateProfile (dto : VendorService.UpdateShopDto)
  | deleteProfile
  | toggleProfile (isActive : Option Json)
  | requestPromotionOrReactivation (userId : Nat)
  | vendorAcceptOrder (orderId : Nat)
  | vendorRejectOrder (orderId : Nat)
  | createProduct (dto : ProductService.CreateProductDto)
  | updateProduct (productId : Nat) (dto : ProductService.UpdateProductDto)
  | deleteProduct (productId : Nat)
  | addProductImage (productId : Nat) (dto : ProductService.AddProductImageDto)
  | deleteProductImage (productId imageId : Nat)
  | deleteAllProductImages (productId : Nat)
  | attachProductTags (productId : Nat) (tagIds : List Nat)
  | detachProductTags (productId : Nat) (tagIds : List Nat)
  | removeAllProductTags (productId : Nat)
  | createOrder (vendorId : Nat) (dto : OrderService.CreateOrderDto)
  | markOrderReady (orderId : Nat)
  | testBatch (batchId : Option Nat)
  | updateMyDelivererProfile (dto : DelivererService.UpdateDelivererProfileDto)

-- A handler has left the site as it says, or calls a service of the market.
inductive Outcome where
  | left (s : Site)
  | calls (x : Proc)

def HttpRequest.handle (compare : String → String → Bool) (s : Site) (received : Request) :
    HttpRequest → Except Failure Outcome
  | read _ => .ok (.left s)
  | updateMyProfile dto => (UsersController.updateMyProfile s received dto).map .left
  | remove id password => (UsersController.remove compare s received id password).map .left
  | createVendorProfile dto => (VendorController.createVendorProfile s received dto).map .left
  | updateProfile dto => (VendorController.updateProfile s received dto).map .left
  | deleteProfile => (VendorController.deleteProfile s received).map .left
  | toggleProfile isActive => (VendorController.toggleProfile s received isActive).map .left
  | requestPromotionOrReactivation userId =>
    (VendorController.requestPromotionOrReactivation s received userId).map .left
  | vendorAcceptOrder orderId => (VendorController.vendorAcceptOrder received orderId).map .calls
  | vendorRejectOrder orderId => (VendorController.vendorRejectOrder received orderId).map .calls
  | createProduct dto => (ProductController.createProduct s received dto).map .left
  | updateProduct productId dto => (ProductController.updateProduct s received productId dto).map .left
  | deleteProduct productId => (ProductController.deleteProduct s received productId).map .left
  | addProductImage productId dto => (ProductController.addProductImage s received productId dto).map .left
  | deleteProductImage productId imageId =>
    (ProductController.deleteProductImage s received productId imageId).map .left
  | deleteAllProductImages productId => (ProductController.deleteAllProductImages s received productId).map .left
  | attachProductTags productId tagIds => (ProductController.attachProductTags s received productId tagIds).map .left
  | detachProductTags productId tagIds => (ProductController.detachProductTags s received productId tagIds).map .left
  | removeAllProductTags productId => (ProductController.removeAllProductTags s received productId).map .left
  | createOrder vendorId dto => (OrderController.createOrder received vendorId dto).map .calls
  | markOrderReady orderId => (OrderController.markOrderReady received orderId).map .calls
  | testBatch batchId => (OrderController.testBatch received batchId).map .calls
  | updateMyDelivererProfile dto => (DelivererController.updateMyProfile received dto).map .calls

-- Every site that there is while a request is served: the one it found, and what
-- its handler or the service it calls has made of it so far.
inductive Serves (env : Env) (compare : String → String → Bool) (s : Site) (payload : JwtPayload)
    (request : HttpRequest) : Site → Prop where
  | found : Serves env compare s payload request s
  | left (handled : request.handle compare s (.carrying payload) = .ok (.left s')) :
      Serves env compare s payload request s'
  | calls (handled : request.handle compare s (.carrying payload) = .ok (.calls x))
      (path : Reached (market env) (OwnSteps s.market.spawned) (s.market.start x) w) :
      Serves env compare s payload request {s with market := w}

-- A site over a market, with the same columns in every row.
def siteOf (m : Market) : Site where
  market := m
  account _ := ⟨"user","hash",none,none,none,0⟩
  shop _ := ⟨"shop",none,none,none,none,none,none,0⟩
  item _ := ⟨"item",none,1,none,0,.new,true,0⟩
  images := ⟨fun _ _ => none,fun _ => 0,0,fun _ _ _ => rfl⟩
  tag _ := false
  tagged _ _ := false

def shopkeeper : JwtPayload := ⟨1,"vendor",.vendor,none⟩

def customer : JwtPayload := ⟨0,"customer",.customer,none⟩

end MesyafMarket
