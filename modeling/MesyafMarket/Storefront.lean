import MesyafMarket.Assignability
import MesyafMarket.CallerScope

namespace MesyafMarket
open Relational VendorService

inductive Condition where
  | new | used
  deriving DecidableEq

-- The columns of a user, a vendor profile and a product that only the users,
-- vendor and product services read or write.
structure UserColumns where
  name : String
  password : String
  profileImage : Option String
  phoneNumber : Option String
  address : Option String
  updatedAt : Nat
  deriving DecidableEq

structure ShopColumns where
  shopName : String
  coverImage : Option String
  description : Option String
  address : Option String
  demotionReason : Option String
  suspendedAt : Option Nat
  reactivatedAt : Option Nat
  updatedAt : Nat
  deriving DecidableEq

structure ProductColumns where
  name : String
  description : Option String
  price : Rat
  discountPrice : Option Rat
  stockQuantity : Int
  condition : Condition
  isAvailable : Bool
  updatedAt : Nat
  deriving DecidableEq

structure ProductImage where
  productId : Nat
  url : String
  altText : Option String
  deriving DecidableEq

-- The market with the rest of the catalog: these columns by the id of their row,
-- the images, the tags there are and the tags of each product.
structure Site where
  market : Market
  account : Nat → UserColumns
  shop : Nat → ShopColumns
  item : Nat → ProductColumns
  images : Db fun _ : Unit => ProductImage
  tag : Nat → Bool
  tagged : Nat → Nat → Bool

namespace Site

def db (s : Site) : Database := s.market.db

def user (s : Site) (i : Nat) : Option (User × UserColumns) := (s.db.rows .user i).map fun u => (u,s.account i)
def vendorProfile (s : Site) (i : Nat) : Option (VendorProfile × ShopColumns) :=
  (s.db.rows .vendorProfile i).map fun p => (p,s.shop i)
def product (s : Site) (i : Nat) : Option (Product × ProductColumns) :=
  (s.db.rows .product i).map fun p => (p,s.item i)
def image (s : Site) (i : Nat) : Option ProductImage := s.images.rows () i

def withDb (s : Site) (db : Database) : Site := {s with market := {s.market with db := db}}

def commit (s : Site) (body : Transaction Unit) : Except Failure Site :=
  match body.run s.db with
  | .ok r => .ok (s.withDb r.2)
  | .error e => .error (.service e)

-- The other columns of the profiles of a user, where the row has been updated.
def setShop (s : Site) (userId : Nat) (f : ShopColumns → ShopColumns) : Site :=
  {s with shop := fun i => match s.db.rows .vendorProfile i with
    | some p => if p.userId = userId then f (s.shop i) else s.shop i
    | none => s.shop i}

def setAccount (s : Site) (userId : Nat) (f : UserColumns → UserColumns) : Site :=
  {s with account := Function.update s.account userId (f (s.account userId))}

def setItem (s : Site) (productId : Nat) (f : ProductColumns → ProductColumns) : Site :=
  {s with item := Function.update s.item productId (f (s.item productId))}

def setTags (s : Site) (productId : Nat) (f : (Nat → Bool) → Nat → Bool) : Site :=
  {s with tagged := Function.update s.tagged productId (f (s.tagged productId))}

end Site

theorem commit_ok {s s' : Site} {body : Transaction Unit} (ran : s.commit body = .ok s') :
    ∃ db, body.run s.db = .ok ((),db) ∧ s' = s.withDb db := by
  unfold Site.commit at ran
  split at ran
  · rename_i r done
    cases ran
    exact ⟨r.2,done,rfl⟩
  · cases ran

-- A column that is not nullable: Prisma refuses null.
def required : Option (Option α) → Except Failure (Option α)
  | none => .ok none
  | some (some value) => .ok (some value)
  | some none => .error .validation

namespace UsersService

structure UpdateUserDto where
  name : String
  role : Option (Option Role)
  profileImage : Option (Option String)
  phoneNumber : Option (Option String)
  address : Option (Option String)

-- `role` is deleted from the data unless an admin sends it.
def updateProfile (s : Site) (id : Option Nat) (data : UpdateUserDto) (currentUser : AuthenticatedUser) :
    Except Failure Site := do
  if id ≠ currentUser.number "userId" ∧ currentUser.role ≠ .admin then
    throw (.service (.forbidden "You can only update your own profile"))
  let role ← required (if (data.role.bind fun role => role).isSome ∧ currentUser.role ≠ .admin then none else data.role)
  let userId ← uniqueId id
  let written ← s.commit <| SessionService.updateUser userId fun _ u => {u with role := role.getD u.role}
  return written.setAccount userId fun account => {account with
    name := data.name
    profileImage := data.profileImage.getD account.profileImage
    phoneNumber := data.phoneNumber.getD account.phoneNumber
    address := data.address.getD account.address
    updatedAt := s.db.clock}

-- Rows that refer to a user keep it from being deleted.
def referenced (v : Database) (userId : Nat) : Bool :=
  (vendorByUser v userId).isSome || (DelivererService.delivererByUser v userId).isSome ||
    !(v.matching .order fun _ (o : Order) => o.customerId = userId).isEmpty

def deleteTx (userId : Nat) : Transaction Unit := do
  let user ← Tx.findUnique Tab.user userId
  let held ← Tx.select fun v => referenced v userId
  if user.isNone then .throw .recordNotFound
  else if held then .throw .foreignKeyViolation
  else do
    let _ ← Tx.deleteMany .user fun i _ => i = userId

-- `+id` is a number, `none` when it is not a whole one; `!==` holds of it and undefined.
def remove (compare : String → String → Bool) (s : Site) (id : Option Nat) (currentUser : AuthenticatedUser)
    (password : Option String) : Except Failure Site := do
  if currentUser.role ≠ .admin ∧ ¬(id.isSome ∧ currentUser.number "userId" = id) then
    throw (.service (.forbidden "You can only delete your own account"))
  let userId ← uniqueId id
  if currentUser.role ≠ .admin then
    if (s.db.rows .user userId).isNone then throw (.unauthorized "User not found")
    match password with
    | none => throw (.service (.error "data and hash arguments required"))
    | some password =>
      if !compare password (s.account userId).password then throw (.unauthorized "Invalid password")
  s.commit (deleteTx userId)

end UsersService

namespace VendorService

structure ShopDto where
  shopName : String
  coverImage : Option String
  description : Option String
  address : Option String
  position : CreateVendorProfileDto

structure UpdateShopDto where
  shopName : Option (Option String)
  coverImage : Option (Option String)
  description : Option (Option String)
  address : Option (Option String)
  position : UpdateVendorProfileDto

def createProfile (s : Site) (userId : Nat) (dto : ShopDto) : Except Failure Site := do
  let created ← s.commit (createProfileTx userId dto.position)
  let shop : ShopColumns :=
    ⟨dto.shopName,dto.coverImage,dto.description,dto.address,none,none,none,s.db.clock⟩
  return {created with shop := Function.update s.shop (s.db.seq .vendorProfile) shop}

def updateProfile (s : Site) (userId : Nat) (dto : UpdateShopDto) : Except Failure Site := do
  if (vendorByUser s.db userId).isNone then throw (.service (.notFound "Vendor profile not found"))
  let shopName ← required dto.shopName
  let written ← s.commit (updateProfileTx userId dto.position)
  return written.setShop userId fun shop => {shop with
    shopName := shopName.getD shop.shopName
    coverImage := dto.coverImage.getD shop.coverImage
    description := dto.description.getD shop.description
    address := dto.address.getD shop.address
    updatedAt := s.db.clock}

def updateVendor (userId : Nat) (f : VendorProfile → VendorProfile) : Transaction Unit :=
  Tx.update .vendorProfile (fun _ (p : VendorProfile) => p.userId = userId) (fun _ => f) .recordNotFound

-- `isActive` is read from the body without validation.
def boolean : Option Json → Except Failure (Option Bool)
  | none => .ok none
  | some value => match value.setTo with
    | .bool value => .ok (some value)
    | _ => .error .validation

-- The profile that is found belongs to the user whose id it was found by, so the
-- comparison with `profile.userId` never refuses.
def toggleProfile (s : Site) (userId : Nat) (isActive : Option Json) (currentUserRole : Role) : Except Failure Site := do
  match vendorByUser s.db userId with
  | none => throw (.service (.notFound "Vendor profile not found"))
  | some profile =>
    if profile.2.userId ≠ userId ∧ currentUserRole ≠ .admin then
      throw (.service (.forbidden "You are not allowed to toggle this profile"))
  let active ← boolean isActive
  let written ← s.commit (updateVendor userId fun p => {p with isActive := active.getD p.isActive})
  return written.setShop userId fun shop => {shop with
    suspendedAt := if Json.truthy isActive then shop.suspendedAt else some s.db.clock
    reactivatedAt := if Json.truthy isActive then some s.db.clock else shop.reactivatedAt
    updatedAt := s.db.clock}

def requestPromotionOrReactivation (s : Site) (userId : Nat) (_currentUserRole : Role) : Except Failure Site := do
  match s.db.rows .user userId with
  | none => throw (.service (.notFound "User not found"))
  | some user =>
    if user.role = .customer then
      if (vendorByUser s.db userId).isNone then
        throw (.service (.notFound "No vendor profile exists for this user"))
      let written ← s.commit (updateVendor userId fun p => {p with isVerified := false,isActive := true})
      return written.setShop userId fun shop => {shop with demotionReason := none,updatedAt := s.db.clock}
    else if user.role = .vendor ∧ (vendorByUser s.db userId).map (fun profile => profile.2.isActive) = some false then
      let written ← s.commit (updateVendor userId fun p => {p with isActive := true})
      return written.setShop userId fun shop =>
        {shop with demotionReason := none,reactivatedAt := some s.db.clock,updatedAt := s.db.clock}
    else throw (.service (.forbidden "Invalid promotion/reactivation request"))

end VendorService

namespace ProductService

structure CreateProductDto where
  name : String
  categoryId : Nat
  description : Option String
  condition : Condition
  price : Rat
  discountPrice : Option Rat
  stockQuantity : Option Int
  isAvailable : Bool

structure UpdateProductDto where
  name : Option (Option String)
  categoryId : Option (Option Nat)
  description : Option (Option String)
  condition : Option (Option Condition)
  price : Option (Option Rat)
  discountPrice : Option (Option Rat)
  stockQuantity : Option (Option Int)
  isAvailable : Option (Option Bool)

structure AddProductImageDto where
  url : String
  altText : Option String

def validateOwnershipAndGetProduct (s : Site) (userId productId : Nat) : Except Failure Unit := do
  match vendorByUser s.db userId with
  | none => throw (.service (.notFound "Vendor profile not found"))
  | some vendor =>
    if !vendor.2.isActive || !vendor.2.isVerified then
      throw (.service (.forbidden "Vendor profile is inactive or not verified"))
    match s.db.rows .product productId with
    | none => throw (.service (.notFound "Product not found"))
    | some product =>
      if product.vendorId ≠ vendor.1 then throw (.service (.forbidden "You do not own this product"))

def createTx (vendorId categoryId : Nat) : Transaction Unit := do
  let category ← Tx.findUnique Tab.category categoryId
  if category.isNone then .throw .foreignKeyViolation
  else do
    let _ ← Tx.create Tab.product fun _ => (⟨vendorId,categoryId⟩ : Product)

def createProduct (s : Site) (userId : Nat) (dto : CreateProductDto) : Except Failure Site := do
  match vendorByUser s.db userId with
  | none => throw (.service (.forbidden "Vendor profile not found, inactive, or not verified"))
  | some vendor =>
    if !vendor.2.isActive || !vendor.2.isVerified then
      throw (.service (.forbidden "Vendor profile not found, inactive, or not verified"))
    let created ← s.commit (createTx vendor.1 dto.categoryId)
    return created.setItem (s.db.seq .product) fun _ =>
      ⟨dto.name,dto.description,dto.price,dto.discountPrice,dto.stockQuantity.getD 0,dto.condition,dto.isAvailable,
        s.db.clock⟩

def updateTx (productId : Nat) (categoryId : Option Nat) : Transaction Unit := do
  let known ← Tx.select fun v => categoryId.all fun id => (v.rows Tab.category id).isSome
  if !known then .throw .foreignKeyViolation
  else
    Tx.update .product (fun i _ => i = productId)
      (fun _ (p : Product) => {p with categoryId := categoryId.getD p.categoryId}) .recordNotFound

def updateProduct (s : Site) (userId productId : Nat) (dto : UpdateProductDto) : Except Failure Site := do
  validateOwnershipAndGetProduct s userId productId
  let name ← required dto.name
  let categoryId ← required dto.categoryId
  let condition ← required dto.condition
  let price ← required dto.price
  let stockQuantity ← required dto.stockQuantity
  let isAvailable ← required dto.isAvailable
  let written ← s.commit (updateTx productId categoryId)
  return written.setItem productId fun item =>
    { name := name.getD item.name
      description := dto.description.getD item.description
      price := price.getD item.price
      discountPrice := dto.discountPrice.getD item.discountPrice
      stockQuantity := stockQuantity.getD item.stockQuantity
      condition := condition.getD item.condition
      isAvailable := isAvailable.getD item.isAvailable
      updatedAt := s.db.clock }

def clearImages (s : Site) (p : Nat → ProductImage → Bool) : Site :=
  {s with images := s.images.apply (s.images.deletes () p)}

-- Order items that refer to a product keep it from being deleted.
def deleteTx (productId : Nat) : Transaction Unit := do
  let items ← Tx.count .orderItem fun _ (item : OrderItem) => item.productId = productId
  if items ≠ 0 then .throw .foreignKeyViolation
  else do
    let _ ← Tx.deleteMany .product fun i _ => i = productId

-- The three statements that take a product out of the catalog.
def deleteRows (s : Site) (productId : Nat) : Except Failure Site :=
  (clearImages (s.setTags productId fun _ _ => false) fun _ image => image.productId = productId).commit
    (deleteTx productId)

def deleteProduct (s : Site) (userId productId : Nat) : Except Failure Site := do
  validateOwnershipAndGetProduct s userId productId
  deleteRows s productId

def addProductImage (s : Site) (userId productId : Nat) (dto : AddProductImageDto) : Except Failure Site := do
  validateOwnershipAndGetProduct s userId productId
  return {s with images := s.images.apply (s.images.inserts () [⟨productId,dto.url,dto.altText⟩])}

def removeProductImage (s : Site) (userId productId imageId : Nat) : Except Failure Site := do
  validateOwnershipAndGetProduct s userId productId
  return clearImages s fun i image => i = imageId ∧ image.productId = productId

def clearProductImages (s : Site) (userId productId : Nat) : Except Failure Site := do
  validateOwnershipAndGetProduct s userId productId
  return clearImages s fun _ image => image.productId = productId

def touch (s : Site) (productId : Nat) : Site := s.setItem productId fun item => {item with updatedAt := s.db.clock}

def attachTags (s : Site) (userId productId : Nat) (tagIds : List Nat) : Except Failure Site := do
  validateOwnershipAndGetProduct s userId productId
  if tagIds.isEmpty then throw (.service (.badRequest "No tag IDs provided"))
  if tagIds.any fun id => !s.tag id then throw (.service .recordNotFound)
  return touch (s.setTags productId fun tags id => tags id || tagIds.contains id) productId

def detachTags (s : Site) (userId productId : Nat) (tagIds : List Nat) : Except Failure Site := do
  validateOwnershipAndGetProduct s userId productId
  if tagIds.isEmpty then throw (.service (.badRequest "No tag IDs provided"))
  return touch (s.setTags productId fun tags id => tags id && !tagIds.contains id) productId

def removeAllTags (s : Site) (userId productId : Nat) : Except Failure Site := do
  validateOwnershipAndGetProduct s userId productId
  return touch (s.setTags productId fun _ _ => false) productId

end ProductService

namespace VendorService

def deleteTx (userId : Nat) : Transaction Unit := do
  let orders ← Tx.select fun v => match vendorByUser v userId with
    | some p => v.matching .order fun _ (o : Order) => o.vendorId = p.1
    | none => []
  if !orders.isEmpty then .throw .foreignKeyViolation
  else do
    let _ ← Tx.deleteMany .vendorProfile fun _ (p : VendorProfile) => p.userId = userId

def deleteProfile (s : Site) (userId : Nat) (currentUserRole : Role) : Except Failure Site := do
  match vendorByUser s.db userId with
  | none => throw (.service (.notFound "Vendor profile not found"))
  | some profile =>
    if profile.2.userId ≠ userId ∧ currentUserRole ≠ .admin then
      throw (.service (.forbidden "You are not allowed to delete this profile"))
    let products := s.db.matching .product fun _ (p : Product) => p.vendorId = profile.1
    let cleared ← products.foldlM (fun s product => ProductService.deleteRows s product.1) s
    cleared.commit (deleteTx userId)

end VendorService
end MesyafMarket
