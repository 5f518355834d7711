import MesyafMarket.Delivery

namespace MesyafMarket
open Relational

namespace VendorService

def vendorByUser (v : Database) (userId : Nat) : Option (Nat × VendorProfile) :=
  (v.matching .vendorProfile fun _ (p : VendorProfile) => p.userId = userId).head?

-- Accepting and rejecting differ in the status written, the event and the
-- refusal. The payload's status is the event's name, not an order status.
inductive Decision where
  | vendorAcceptOrder | vendorRejectOrder
  deriving DecidableEq

def Decision.status : Decision → OrderStatus
  | vendorAcceptOrder => .vendorAccepted
  | vendorRejectOrder => .vendorRejected

def Decision.eventType : Decision → String
  | vendorAcceptOrder => EVENTS.ORDER.ACCEPTED
  | vendorRejectOrder => EVENTS.ORDER.REJECTED

def Decision.refusal : Decision → String
  | vendorAcceptOrder => "Order cannot be accepted in current status"
  | vendorRejectOrder => "Order cannot be rejected in current status"

-- `order.update` by id alone: the status tested before is not part of its `where`.
def decideTx (decision : Decision) (orderId : Nat) : Transaction Unit :=
  Tx.update .order (fun i _ => i = orderId) (fun _ o => {o with status := decision.status})
    .recordNotFound

def decisionEvent (decision : Decision) (orderId : Nat) : EventLogService.Params :=
  ⟨.order,orderId,decision.eventType,OrderService.orderPayload orderId decision.eventType⟩

end VendorService

namespace SessionService

def updateUser (userId : Nat) (f : Nat → User → User) : Transaction Unit :=
  Tx.update .user (fun i _ => i = userId) f .recordNotFound

inductive Presence where
  | markOnline | markOffline | heartbeat
  deriving DecidableEq

def Presence.apply : Presence → Nat → User → User
  | markOnline,now,u => {u with isOnline := true,lastSeenAt := some now}
  | markOffline,now,u => {u with isOnline := false,lastSeenAt := some now}
  | heartbeat,now,u => {u with lastSeenAt := some now}

def presenceTx (presence : Presence) (userId : Nat) : Transaction Unit := updateUser userId presence.apply

end SessionService

namespace DelivererService

def delivererByUser (v : Database) (userId : Nat) : Option (Nat × DelivererProfile) :=
  (v.matching .delivererProfile fun _ (d : DelivererProfile) => d.userId = userId).head?

structure UpdateDelivererProfileDto where
  currentLat : Option Rat
  currentLng : Option Rat
  availability : Option Bool
  deriving DecidableEq

-- What `dto.x ?? profile.x` comes to for the profile that was read.
structure ProfileData where
  currentLat : Option Rat
  currentLng : Option Rat
  availability : Bool
  deriving DecidableEq

def profileData (dto : UpdateDelivererProfileDto) (profile : DelivererProfile) : ProfileData :=
  ⟨dto.currentLat.or profile.currentLat,dto.currentLng.or profile.currentLng,
   dto.availability.getD profile.availability⟩

def updateProfileTx (userId : Nat) (data : ProfileData) : Transaction Unit :=
  Tx.update .delivererProfile (fun _ d => d.userId = userId)
    (fun _ d => {d with currentLat := data.currentLat,currentLng := data.currentLng,
                        availability := data.availability}) .recordNotFound

end DelivererService

namespace DelivererLocationService

def writeLocationTx (delivererId : Nat) (loc : Point) : Transaction Unit :=
  Tx.update .delivererProfile (fun i _ => i = delivererId)
    (fun _ d => {d with currentLat := some loc.lat,currentLng := some loc.lng}) .recordNotFound

end DelivererLocationService

namespace AdminService

-- ON DELETE SET NULL on the three columns that refer to a deliverer profile.
def forgetDeliverer (delivererId : Nat) : Transaction Unit := do
  let _ ← Tx.updateMany .deliveryJob
    (fun _ (job : DeliveryJob) => job.delivererId = some delivererId) fun _ job => {job with delivererId := none}
  let _ ← Tx.updateMany .deliveryBatch
    (fun _ (b : DeliveryBatch) => b.delivererId = some delivererId) fun _ b => {b with delivererId := none}
  let _ ← Tx.updateMany .order
    (fun _ (o : Order) => o.delivererId = some delivererId) fun _ o => {o with delivererId := none}

-- `delivererProfile.delete`: userId is unique, so it names one row.
def deleteProfileTx (userId : Nat) : Transaction Unit := do
  let found ← Tx.select fun v => DelivererService.delivererByUser v userId
  match found with
  | none => .throw .recordNotFound
  | some d =>
    forgetDeliverer d.1
    let _ ← Tx.deleteMany .delivererProfile fun i _ => i = d.1

def setRoleTx (userId : Nat) (role : Role) : Transaction Unit :=
  SessionService.updateUser userId fun _ u => {u with role := role}

-- A new profile is available and free; a second one of the user breaks `userId @unique`.
def createProfileTx (userId : Nat) : Transaction Unit := do
  let found ← Tx.select fun v => DelivererService.delivererByUser v userId
  let user ← Tx.findUnique Tab.user userId
  if found.isSome then .throw .uniqueViolation
  else if user.isNone then .throw .foreignKeyViolation
  else do
    let _ ← Tx.create Tab.delivererProfile fun _ => (⟨userId,none,none,true,none⟩ : DelivererProfile)

end AdminService
end MesyafMarket
