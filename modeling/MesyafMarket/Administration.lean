import MesyafMarket.Records

namespace MesyafMarket
open Relational VendorService

abbrev Call (α : Type) := Script Records Failure α

-- A column without validation of the body: Prisma takes a value of the column's type,
-- and leaves the column as it is where the value is undefined.
def roleOf : Option Json → Except Failure (Option Role)
  | none => .ok none
  | some value => match value.setTo with
    | .str name => match Role.values.find? fun role => role.name == name with
      | some role => .ok (some role)
      | none => .error .validation
    | _ => .error .validation

def nullableText : Option Json → Except Failure (Option (Option String))
  | none => .ok none
  | some value => match value.setTo with
    | .null => .ok (some none)
    | .str text => .ok (some (some text))
    | _ => .error .validation

-- `value === role`, which is false of `{ set: role }`.
def isRole (role : Role) : Option Json → Bool
  | some (.str name) => name == role.name
  | _ => false

theorem isRole_roleOf {value : Option Json} (same : isRole role value = true) : roleOf value = .ok (some role) := by
  unfold isRole at same
  split at same
  · obtain rfl := eq_of_beq same
    cases role <;> rfl
  · cases same

-- `reason ?? fallback`.
def reasonOr (fallback : String) (reason : Option Json) : Option Json :=
  match reason with
  | none | some .null => some (.str fallback)
  | reason => reason

namespace UsersService

structure CreateUserDto where
  name : String
  email : String
  password : String
  role : Option Role

def create (data : CreateUserDto) (r : Records) : Except Failure Records :=
  let now := r.db.clock
  let taken := r.db.matching .user fun i _ => (r.users i).email = data.email
  if !taken.isEmpty then .error (.service .uniqueViolation)
  else do
    let id := r.db.seq .user
    let created ← r.write fun s => s.commit do
      let _ ← Tx.create Tab.user fun _ => (⟨data.role.getD .customer,none,false⟩ : User)
    return {created with
      site := {created.site with account := Function.update created.site.account id ⟨data.name,data.password,none,none,none,now⟩}
      users := Function.update r.users id ⟨data.email,now⟩}

def findAll (env : Env) : Call Json :=
  .read fun r => .done <| ResponseService.success "Users fetched successfully" <|
    .arr <| (env.scan r.db (r.db.all .user)).map fun user => .obj (r.selectedFields user.1 user.2)

def findByEmail (r : Records) (email : String) : Option (Nat × User) :=
  (r.db.matching .user fun i _ => (r.users i).email = email).head?

end UsersService

namespace AuthService

structure RegisterDto where
  email : String
  password : String
  name : String

-- The token's payload; `user` has no included profile.
def register (hash : String → String) (dto : RegisterDto) : Call JwtPayload :=
  .read fun before => .write (UsersService.create ⟨dto.name,dto.email,hash dto.password,none⟩) <| .read fun r =>
    match r.db.rows .user (before.db.seq .user) with
    | some user => .done ⟨before.db.seq .user,dto.email,user.role,none⟩
    | none => .throw (.service .recordNotFound)

structure LoginDto where
  email : String
  password : String

def login (compare : String → String → Bool) (dto : LoginDto) : Call JwtPayload :=
  .read fun r => match UsersService.findByEmail r dto.email with
    | none => .throw (.unauthorized "Invalid credentials")
    | some user =>
      if !compare dto.password (r.site.account user.1).password then .throw (.unauthorized "Invalid credentials")
      else .done ⟨user.1,dto.email,user.2.role,(DelivererService.delivererByUser r.db user.1).map Prod.fst⟩

end AuthService

namespace AdminService

-- `user.update({ where: { id }, data: { role } })`.
def writeRole (userId : Nat) (role : Option Role) (r : Records) : Except Failure Records :=
  r.write fun s => do
    let written ← s.commit (SessionService.updateUser userId fun _ u => {u with role := role.getD u.role})
    return written.setAccount userId fun account => {account with updatedAt := s.db.clock}

def updatedUser (userId : Nat) (message : String) : Call Json :=
  .read fun r => match r.db.rows .user userId with
    | some user => .done (ResponseService.success message (r.user userId user))
    | none => .throw (.service .recordNotFound)

def demoteVendor (userId : Nat) (reason : Option Json) (r : Records) : Except Failure Records :=
  r.write fun s => do
    let reason ← nullableText reason
    let written ← s.commit (updateVendor userId fun p => {p with isActive := false,isVerified := false})
    return written.setShop userId fun shop => {shop with
      demotionReason := reason.getD shop.demotionReason,suspendedAt := some s.db.clock,updatedAt := s.db.clock}

def updateUserRole (id : Nat) (role reason : Option Json) : Call Json :=
  .read fun r => match r.db.rows .user id with
    | none => .throw (.service (.notFound "User not found"))
    | some user =>
      let last : Call Json := .write (fun r => do writeRole id (← roleOf role) r) <|
        updatedUser id "User role updated successfully"
      if user.role = .vendor ∧ isRole .customer role ∧ (vendorByUser r.db id).isSome then
        .write (demoteVendor id (reasonOr "demoted" reason)) last
      else last

-- `vendorProfile.update({ where: { id: vendorId }, .. })`.
def writeVendor (vendorId : Nat) (f : VendorProfile → VendorProfile) (g : Nat → ShopColumns → ShopColumns)
    (r : Records) : Except Failure Records :=
  r.write fun s => do
    let written ← s.commit <|
      Tx.update .vendorProfile (fun i _ => i = vendorId) (fun _ (p : VendorProfile) => f p) .recordNotFound
    let shop := {g s.db.clock (s.shop vendorId) with updatedAt := s.db.clock}
    return {written with shop := Function.update s.shop vendorId shop}

def updatedProfile (vendorId : Nat) (message : String) : Call Json :=
  .read fun r => match r.db.rows .vendorProfile vendorId with
    | some profile => .done (ResponseService.success message (r.vendorProfile vendorId profile))
    | none => .throw (.service .recordNotFound)

def suspension (reason : Option (Option String)) (now : Nat) (shop : ShopColumns) : ShopColumns :=
  {shop with demotionReason := reason.getD shop.demotionReason,suspendedAt := some now}

def suspend (vendorId : Nat) (reason : Option Json) (r : Records) : Except Failure Records := do
  writeVendor vendorId (fun p => {p with isActive := false,isVerified := false}) (suspension (← nullableText reason)) r

def approveVendorPromotion (vendorId : Nat) (approve reason : Option Json) : Call Json :=
  .read fun r => match r.db.rows .vendorProfile vendorId with
    | none => .throw (.service (.notFound "Vendor profile not found"))
    | some profile =>
      if Json.truthy approve then
        .write (writeVendor vendorId (fun p => {p with isVerified := true,isActive := true})
          fun now shop => {shop with reactivatedAt := some now}) <|
        .read fun updated =>
        .write (writeRole profile.userId (some .vendor)) <|
        match updated.db.rows .vendorProfile vendorId with
        | some profile => .done (ResponseService.success "Vendor promotion approved successfully"
            (updated.vendorProfile vendorId profile))
        | none => .throw (.service .recordNotFound)
      else
        .write (suspend vendorId (reasonOr "rejected" reason)) <|
        updatedProfile vendorId "Vendor promotion rejected"

def suspendVendor (vendorId : Nat) (reason : Option Json) : Call Json :=
  .read fun r => match r.db.rows .vendorProfile vendorId with
    | none => .throw (.service (.notFound "Vendor profile not found"))
    | some _ => .write (suspend vendorId reason) <| updatedProfile vendorId "Vendor suspended successfully"

def getPendingVendors (env : Env) : Call Json :=
  .read fun r =>
    let pending := r.db.matching .vendorProfile fun _ (p : VendorProfile) => p.isVerified = false ∧ p.isActive = true
    .done <| ResponseService.success "Pending vendor applications retrieved successfully" <|
      .arr <| (env.scan r.db pending).map fun p => r.vendorProfile p.1 p.2

-- The columns of the profile that no service changes.
def newDeliverer : DelivererStamp := ⟨3,5,true⟩

def createDeliverer (userId : Nat) (r : Records) : Except Failure Records := do
  let created ← r.write fun s => s.commit (createProfileTx userId)
  return {created with deliverers := Function.update r.deliverers (r.db.seq .delivererProfile) newDeliverer}

def promoteUserToDeliverer (userId : Nat) : Call Json :=
  .read fun r => match r.db.rows .user userId with
    | none => .throw (.service (.notFound "User not found"))
    | some _ => .write (writeRole userId (some .deliverer)) <| .write (createDeliverer userId) <| .read fun r =>
      match DelivererService.delivererByUser r.db userId with
      | some profile => .done <| ResponseService.success
          "User promoted to Deliverer. They must log out and log back in for the change to take effect."
          (r.delivererProfile profile.1 profile.2)
      | none => .throw (.service .recordNotFound)

def removeDeliverer (userId : Nat) : Call Json :=
  .read fun r => match DelivererService.delivererByUser r.db userId with
    | none => .throw (.service (.notFound "Deliverer profile not found"))
    | some _ =>
      .write (fun r => r.write fun s => s.commit (deleteProfileTx userId)) <|
      .write (writeRole userId (some .customer)) <|
      .done (ResponseService.done "Deliverer removed and user demoted to Customer")

def getAllUsers (env : Env) : Call Json := UsersService.findAll env

end AdminService

-- A request to one of the handlers of the admin controller.
inductive AdminRequest where
  | getAllUsers
  | getPendingVendors
  | approveVendorPromotion (vendorId : Nat) (approve reason : Option Json)
  | suspendVendor (vendorId : Nat) (reason : Option Json)
  | updateUserRole (id : Nat) (role reason : Option Json)
  | promoteUserToDeliverer (userId : Nat)
  | removeDeliverer (userId : Nat)

namespace AdminController

def handle (env : Env) : AdminRequest → Call Json
  | .getAllUsers => AdminService.getAllUsers env
  | .getPendingVendors => AdminService.getPendingVendors env
  | .approveVendorPromotion vendorId approve reason => AdminService.approveVendorPromotion vendorId approve reason
  | .suspendVendor vendorId reason => AdminService.suspendVendor vendorId reason
  | .updateUserRole id role reason => AdminService.updateUserRole id role reason
  | .promoteUserToDeliverer userId => AdminService.promoteUserToDeliverer userId
  | .removeDeliverer userId => AdminService.removeDeliverer userId

-- Both guards are those of the controller.
def answer (env : Env) (received : Request) (request : AdminRequest) : Call Json :=
  match authGuard received >>= RolesGuard.canActivate [.admin] with
  | .ok _ => handle env request
  | .error e => .throw e

end AdminController
end MesyafMarket
