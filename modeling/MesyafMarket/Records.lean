import MesyafMarket.Controllers
import MesyafMarket.Relational.Scripts

namespace MesyafMarket
open Relational

-- The columns that the responses show beside those that some service uses: they are
-- set when the row is made, or never.
structure UserStamp where
  email : String
  createdAt : Nat
  deriving DecidableEq

structure ShopStamp where
  rating : Option Rat
  createdAt : Nat
  deriving DecidableEq

structure ProductStamp where
  isInstant : Option Bool
  prepTimeMin : Option Int
  views : Int
  createdAt : Nat
  deriving DecidableEq

structure DelivererStamp where
  maxConcurrentOrders : Int
  maxStops : Int
  acceptsBatching : Bool
  deriving DecidableEq

structure OrderStamp where
  pickedAt : Option Nat
  vendorAddress : Option String
  distanceKm : Option Rat
  deriving DecidableEq

structure JobStamp where
  routeJson : Option Json
  totalDistanceKm : Option Rat

structure Records where
  site : Site
  users : Nat → UserStamp
  shops : Nat → ShopStamp
  products : Nat → ProductStamp
  deliverers : Nat → DelivererStamp
  orders : Nat → OrderStamp
  jobs : Nat → JobStamp
  tagName : Nat → String
  tagSeq : Nat

def Role.name : Role → String
  | .admin => "ADMIN"
  | .vendor => "VENDOR"
  | .deliverer => "DELIVERER"
  | .customer => "CUSTOMER"

def Role.values : List Role := [.admin,.vendor,.deliverer,.customer]

def Condition.name : Condition → String
  | .new => "NEW"
  | .used => "USED"

def OrderType.name : OrderType → String
  | .food => "FOOD"
  | .grocery => "GROCERY"
  | .vegetable => "VEGETABLE"
  | .empty => "EMPTY"

namespace Json

def nat (n : Nat) : Json := .num n
def int (n : Int) : Json := .num n
def optional (f : α → Json) : Option α → Json
  | some a => f a
  | none => .null

-- A date by its time.
def date (ms : Nat) : Json := .num ms

end Json

namespace ResponseService

def success (message : String) (data : Json) : Json :=
  .obj [("success",.bool true),("message",.str message),("data",data)]

-- `data` is undefined, and JSON leaves it out.
def done (message : String) : Json := .obj [("success",.bool true),("message",.str message)]

def created (message : String) (data : Json) : Json :=
  .obj [("success",.bool true),("message",.str message),("data",data),("statusCode",.nat 201)]

def error (message : String) (code : Nat) : Json :=
  .obj [("success",.bool false),("message",.str message),("statusCode",.nat code)]

end ResponseService

namespace Records
open Json

def db (r : Records) : Database := r.site.db

-- The rows as JSON.
section Rows
variable (r : Records)

-- The columns that findAll and findOne select.
def selectedFields (i : Nat) (u : User) : List (String × Json) :=
  let account := r.site.account i
  [("id",nat i),("email",.str (r.users i).email),("name",.str account.name),("role",.str u.role.name),
   ("profileImage",optional .str account.profileImage),("phoneNumber",optional .str account.phoneNumber),
   ("address",optional .str account.address),("createdAt",date (r.users i).createdAt),
   ("updatedAt",date account.updatedAt)]

def user (i : Nat) (u : User) : Json :=
  .obj (("password",.str (r.site.account i).password)::("lastSeenAt",optional date u.lastSeenAt)::
    ("isOnline",.bool u.isOnline)::r.selectedFields i u)

def vendorProfile (i : Nat) (p : VendorProfile) : Json :=
  let shop := r.site.shop i
  .obj [("id",nat i),("userId",nat p.userId),("shopName",.str shop.shopName),("coverImage",optional .str shop.coverImage),
    ("description",optional .str shop.description),("address",optional .str shop.address),
    ("latitude",optional .num p.latitude),("longitude",optional .num p.longitude),("isVerified",.bool p.isVerified),
    ("isActive",.bool p.isActive),("demotionReason",optional .str shop.demotionReason),
    ("suspendedAt",optional date shop.suspendedAt),("reactivatedAt",optional date shop.reactivatedAt),
    ("rating",optional .num (r.shops i).rating),("createdAt",date (r.shops i).createdAt),
    ("updatedAt",date shop.updatedAt)]

def delivererFields (i : Nat) (d : DelivererProfile) : List (String × Json) :=
  let stamp := r.deliverers i
  [("id",nat i),("userId",nat d.userId),("currentLat",optional .num d.currentLat),("currentLng",optional .num d.currentLng),
   ("availability",.bool d.availability),("maxConcurrentOrders",int stamp.maxConcurrentOrders),
   ("maxStops",int stamp.maxStops),("acceptsBatching",.bool stamp.acceptsBatching),
   ("activeJobId",optional nat d.activeJobId)]

def delivererProfile (i : Nat) (d : DelivererProfile) : Json := .obj (r.delivererFields i d)

def productFields (i : Nat) (p : Product) : List (String × Json) :=
  let item := r.site.item i
  let stamp := r.products i
  [("id",nat i),("vendorId",nat p.vendorId),("categoryId",nat p.categoryId),("name",.str item.name),
   ("description",optional .str item.description),("price",.num item.price),
   ("discountPrice",optional .num item.discountPrice),("stockQuantity",int item.stockQuantity),
   ("condition",.str item.condition.name),("isAvailable",.bool item.isAvailable),("isInstant",optional .bool stamp.isInstant),
   ("prepTimeMin",optional int stamp.prepTimeMin),("views",int stamp.views),("createdAt",date stamp.createdAt),
   ("updatedAt",date item.updatedAt)]

def product (i : Nat) (p : Product) : Json := .obj (r.productFields i p)

def orderFields (i : Nat) (o : Order) : List (String × Json) :=
  let stamp := r.orders i
  [("id",nat i),("vendorId",nat o.vendorId),("customerId",nat o.customerId),("status",.str o.status.name),
   ("orderType",.str o.orderType.name),("estimatedPrepTime",optional int o.estimatedPrepTime),
   ("readyAt",optional date o.readyAt),("pickedAt",optional date stamp.pickedAt),
   ("deliveredAt",optional date o.deliveredAt),("createdAt",date o.createdAt),("deliveryFee",optional int o.deliveryFee),
   ("delivererId",optional nat o.delivererId),("deliveryJobId",optional nat o.deliveryJobId),
   ("deliveryBatchId",optional nat o.deliveryBatchId),("vendorAddress",optional .str stamp.vendorAddress),
   ("vendorLat",optional .num o.vendorLat),("vendorLng",optional .num o.vendorLng),
   ("customerAddress",optional .str o.customerAddress),("customerLat",optional .num o.customerLat),
   ("customerLng",optional .num o.customerLng),("distanceKm",optional .num stamp.distanceKm)]

def jobFields (i : Nat) (job : DeliveryJob) : List (String × Json) :=
  let stamp := r.jobs i
  [("id",nat i),("delivererId",optional nat job.delivererId),("batchId",nat job.batchId),("status",.str job.status.name),
   ("assignedAt",date job.assignedAt),("startedAt",optional date job.startedAt),
   ("completedAt",optional date job.completedAt),("routeJson",stamp.routeJson.getD .null),
   ("totalDistanceKm",optional .num stamp.totalDistanceKm),("totalOrders",optional nat job.totalOrders)]

end Rows

def write (f : Site → Except Failure Site) (r : Records) : Except Failure Records :=
  (f r.site).map fun site => {r with site := site}

-- The records with a site that a request has made; the new rows have the defaults.
def follow (r : Records) (site : Site) : Records :=
  let now := r.db.clock
  {r with
    site := site
    shops := fun i => if i < r.db.seq .vendorProfile then r.shops i else ⟨some 0,now⟩
    products := fun i => if i < r.db.seq .product then r.products i else ⟨none,none,0,now⟩
    orders := fun i => if i < r.db.seq .order then r.orders i else ⟨none,none,none⟩}

end Records

namespace Rows

def category (i : Nat) (c : Category) : Json := .obj [("id",.nat i),("name",.str c.name)]

def image (i : Nat) (image : ProductImage) : Json :=
  .obj [("id",.nat i),("productId",.nat image.productId),("url",.str image.url),("altText",.optional .str image.altText)]

def itemFields (i : Nat) (item : OrderItem) : List (String × Json) :=
  [("id",.nat i),("orderId",.nat item.orderId),("productId",.nat item.productId),("quantity",.int item.quantity),
   ("price",.num item.price)]

def dropOff (i : Nat) (stop : DeliveryDropOff) : Json :=
  .obj [("id",.nat i),("jobId",.nat stop.jobId),("orderId",.nat stop.orderId),("sequence",.nat stop.sequence),
    ("status",.str stop.status.name),("dropoffLat",.optional .num stop.dropoffLat),
    ("dropoffLng",.optional .num stop.dropoffLng),("completedAt",.optional .date stop.completedAt)]

def orderTimeline (i : Nat) (row : OrderTimeline) : Json :=
  .obj [("id",.nat i),("orderId",.nat row.orderId),("sourceEventId",.optional .nat row.sourceEventId),
    ("eventType",.str row.eventType),("status",.optional (fun status => .str status.name) row.status),
    ("message",.str row.message),("payload",row.payload),("occurredAt",.date row.occurredAt)]

def jobTimeline (i : Nat) (row : JobTimeline) : Json :=
  .obj [("id",.nat i),("jobId",.nat row.jobId),("sourceEventId",.optional .nat row.sourceEventId),
    ("eventType",.str row.eventType),("message",.str row.message),("payload",row.payload),
    ("occurredAt",.date row.occurredAt)]

end Rows

-- The records of a market, with the same columns in every row.
def recordsOf (m : Market) : Records where
  site := siteOf m
  users i := ⟨toString i,0⟩
  shops _ := ⟨some 0,0⟩
  products _ := ⟨none,none,0,0⟩
  deliverers _ := ⟨3,5,true⟩
  orders _ := ⟨none,none,none⟩
  jobs _ := ⟨none,none⟩
  tagName _ := "tag"
  tagSeq := 0

end MesyafMarket
