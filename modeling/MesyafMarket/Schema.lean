import MesyafMarket.Relational.Tx
import Mathlib.Data.Rat.Defs

namespace MesyafMarket
open Relational

inductive Role where
  | admin | vendor | deliverer | customer
  deriving DecidableEq

inductive OrderType where
  | food | grocery | vegetable | empty
  deriving DecidableEq

inductive OrderStatus where
  | pendingVendorConfirmation
  | vendorAccepted
  | vendorRejected
  | readyForDelivery
  | waitingForDeliverer
  | inProgress
  | completed
  | cancelled
  deriving DecidableEq

inductive JobStatus where
  | pending | assigned | inProgress | completed
  deriving DecidableEq

inductive EventEntityType where
  | order | job
  deriving DecidableEq

-- JSON numbers and coordinates are finite doubles, hence rationals; the services
-- that compute distances from them take the distance as a parameter.
inductive Json where
  | null
  | bool (b : Bool)
  | num (n : Rat)
  | str (s : String)
  | arr (items : List Json)
  | obj (fields : List (String × Json))

-- `value.key` in JavaScript: only an object has the fields of a payload.
def Json.field (key : String) : Json → Option Json
  | .obj fields => (fields.find? fun entry => entry.1 == key).map Prod.snd
  | _ => none

-- `value ? .. : ..` of a body that is not validated.
def Json.truthy : Option Json → Bool
  | none | some .null => false
  | some (.bool b) => b
  | some (.num n) => n ≠ 0
  | some (.str s) => s ≠ ""
  | some (.arr _) | some (.obj _) => true

-- The value that Prisma writes to a column, which it also takes as `{ set: value }`.
def Json.setTo : Json → Json
  | .obj [("set",value)] => value
  | value => value

structure Point where
  lat : Rat
  lng : Rat
  deriving DecidableEq

structure User where
  role : Role
  lastSeenAt : Option Nat
  isOnline : Bool
  deriving DecidableEq

structure VendorProfile where
  userId : Nat
  latitude : Option Rat
  longitude : Option Rat
  isVerified : Bool
  isActive : Bool
  deriving DecidableEq

structure DelivererProfile where
  userId : Nat
  currentLat : Option Rat
  currentLng : Option Rat
  availability : Bool
  activeJobId : Option Nat
  deriving DecidableEq

structure Category where
  name : String
  deriving DecidableEq

structure Product where
  vendorId : Nat
  categoryId : Nat
  deriving DecidableEq

structure Order where
  vendorId : Nat
  customerId : Nat
  status : OrderStatus
  orderType : OrderType
  estimatedPrepTime : Option Int
  readyAt : Option Nat
  deliveredAt : Option Nat
  createdAt : Nat
  deliveryFee : Option Int
  delivererId : Option Nat
  deliveryJobId : Option Nat
  deliveryBatchId : Option Nat
  vendorLat : Option Rat
  vendorLng : Option Rat
  customerAddress : Option String
  customerLat : Option Rat
  customerLng : Option Rat
  deriving DecidableEq

structure OrderItem where
  orderId : Nat
  productId : Nat
  quantity : Int
  price : Rat
  deriving DecidableEq

structure DeliveryDropOff where
  jobId : Nat
  orderId : Nat
  sequence : Nat
  status : JobStatus
  dropoffLat : Option Rat
  dropoffLng : Option Rat
  completedAt : Option Nat
  deriving DecidableEq

structure DeliveryJob where
  delivererId : Option Nat
  batchId : Nat
  status : JobStatus
  assignedAt : Nat
  startedAt : Option Nat
  completedAt : Option Nat
  totalOrders : Option Nat
  deriving DecidableEq

structure DeliveryBatch where
  delivererId : Option Nat
  status : JobStatus
  createdAt : Nat
  deriving DecidableEq

structure EventLog where
  entityType : EventEntityType
  entityId : Nat
  eventType : String
  payload : Json
  createdAt : Nat

structure OrderTimeline where
  orderId : Nat
  sourceEventId : Option Nat
  eventType : String
  status : Option OrderStatus
  message : String
  payload : Json
  occurredAt : Nat

structure JobTimeline where
  jobId : Nat
  sourceEventId : Option Nat
  eventType : String
  message : String
  payload : Json
  occurredAt : Nat

inductive Tab where
  | user | vendorProfile | delivererProfile | category | product | order | orderItem
  | deliveryJob | deliveryBatch | deliveryDropOff | eventLog | orderTimeline | jobTimeline
  deriving DecidableEq

abbrev Row : Tab → Type
  | .user => User
  | .vendorProfile => VendorProfile
  | .delivererProfile => DelivererProfile
  | .category => Category
  | .product => Product
  | .order => Order
  | .orderItem => OrderItem
  | .deliveryJob => DeliveryJob
  | .deliveryBatch => DeliveryBatch
  | .deliveryDropOff => DeliveryDropOff
  | .eventLog => EventLog
  | .orderTimeline => OrderTimeline
  | .jobTimeline => JobTimeline

-- Locks that name no row: the batching advisory lock, with the open batch that its
-- holder has picked, and the unique index entries DeliveryJob.batchId and
-- DelivererProfile.activeJobId.
inductive Key where
  | batchLock
  | joins (batchId : Nat)
  | jobOfBatch (batchId : Nat)
  | activeJob (jobId : Nat)
  deriving DecidableEq

-- What a call throws: Nest's HTTP exceptions, a plain Error, Prisma's known
-- errors, the assignment service's own, and a failure of the infrastructure.
inductive Err where
  | notFound (message : String)
  | forbidden (message : String)
  | conflict (message : String)
  | badRequest (message : String)
  | error (message : String)
  | recordNotFound
  | uniqueViolation
  | foreignKeyViolation
  | noDelivererAvailable (batchId : Nat)
  | infrastructure
  deriving DecidableEq

abbrev Database := Db Row
abbrev Transaction := Tx Row Key Err

end MesyafMarket
