import MesyafMarket.Administration
import MesyafMarket.Redis.Store

namespace MesyafMarket
open Relational VendorService

-- The sequence in which the database gives the rows of a query that asks for none.
structure Scan where
  order : {α : Type} → List α → List α
  perm : ∀ {α : Type} (rows : List α), (order rows).Perm rows

def Env.scanning (env : Env) (v : Database) : Scan := ⟨env.scan v,env.scan_perm v⟩

-- The filter after validation: `@Type(() => Number)` makes numbers of the texts, and
-- what is no whole number among the tags is none.
structure ProductFilterDto where
  categoryId : Option Int
  tagIds : Option (List (Option Int))
  search : Option String
  page : Option Int
  limit : Option Int
  deriving DecidableEq

-- The keys by what they are made of: a filter is part of its key as JSON.
inductive CacheKey where
  | product (id : Nat)
  | all (filter : ProductFilterDto)
  | vendor (vendorId : Nat) (filter : ProductFilterDto)
  deriving DecidableEq

abbrev ProductCache := Redis.Store CacheKey Json

-- `contains` of Prisma, ignoring case: does a name contain a text.
abbrev Contains := String → String → Bool

namespace Records
open Json

section Relations
variable (r : Records) (scan : Scan) (productId : Nat)

def imagesOf : Json :=
  .arr <| (scan.order (r.site.images.matching () fun _ image => image.productId = productId)).map fun entry =>
    Rows.image entry.1 entry.2

def hasTag (tagId : Nat) : Bool := r.site.tag tagId && r.site.tagged productId tagId

def tagsOf : Json :=
  .arr <| (scan.order ((List.range r.tagSeq).filter (r.hasTag productId))).map fun tagId =>
    .obj [("id",nat tagId),("name",.str (r.tagName tagId))]

def categoryOf (p : Product) : Json := optional (Rows.category p.categoryId) (r.db.rows .category p.categoryId)

end Relations

-- The product with what createProduct and updateProduct include.
def productWithRelations (r : Records) (scan : Scan) (i : Nat) (p : Product) : Json :=
  .obj (r.productFields i p ++ [("images",r.imagesOf scan i),("tags",r.tagsOf scan i),("category",r.categoryOf p)])

end Records

namespace ProductService
open Json

section Queries
variable (contains : Contains) (scan : Scan) (r : Records)

-- A filter by 0, by the empty text or by no tags is none.
def admits (filter : ProductFilterDto) (i : Nat) (p : Product) : Bool :=
  (filter.categoryId.all fun id => id = 0 || (p.categoryId : Int) = id) &&
  (filter.search.all fun text => text = "" || contains (r.site.item i).name text) &&
  filter.tagIds.all fun ids => ids.isEmpty || ids.any fun id => id.any fun id => 0 ≤ id && r.hasTag i id.toNat

def trades (vendorId : Nat) : Bool := (r.db.rows .vendorProfile vendorId).any fun p => p.isActive && p.isVerified

def listedAnywhere (filter : ProductFilterDto) (i : Nat) (p : Product) : Bool :=
  (r.site.item i).isAvailable && trades r p.vendorId && admits contains r filter i p

def listedAt (vendorId : Nat) (filter : ProductFilterDto) (i : Nat) (p : Product) : Bool :=
  p.vendorId = vendorId && (r.site.item i).isAvailable && admits contains r filter i p

-- An id in a query is a number of 32 bits.
def isId (id : Int) : Bool := -2^31 ≤ id && id < 2^31

-- What a query takes of a filter; a text has no null character in Postgres.
def acceptable (filter : ProductFilterDto) : Bool :=
  filter.categoryId.all isId && (filter.tagIds.all fun ids => ids.all fun id => id.any isId) &&
  filter.search.all fun text => text.toList.all fun c => c ≠ Char.ofNat 0

-- `skip` is not negative, and a negative `take` takes from the end; both have 64 bits.
def pageOf (rows : List α) (page limit : Int) : Except Failure (List α) :=
  let skip := (page - 1) * limit
  if skip < 0 ∨ 2^63 ≤ skip ∨ 2^63 ≤ limit.natAbs then .error .validation
  else if 0 ≤ limit then .ok ((rows.drop skip.toNat).take limit.toNat)
  else .ok ((rows.reverse.drop skip.toNat).take limit.natAbs).reverse

-- The rows of a page and the number of rows on all of them.
def findMany (rows : List (Nat × Product)) (filter : ProductFilterDto) (render : Nat × Product → Json) :
    Except Failure Json := do
  if !acceptable filter then throw .validation
  let page := filter.page.getD 1
  let limit := filter.limit.getD 10
  let products ← pageOf rows page limit
  return .obj [("data",.arr (products.map render)),("count",nat rows.length),("page",int page),("limit",int limit)]

def findProduct (id : Nat) : Except Failure Json :=
  match r.db.rows .product id with
  | none => .error (.service (.notFound "Product not found or unavailable"))
  | some p =>
    match r.db.rows .vendorProfile p.vendorId with
    | none => .error (.typeError "Cannot read properties of null")
    | some vendor =>
      if !(r.site.item id).isAvailable || !vendor.isActive || !vendor.isVerified then
        .error (.service (.notFound "Product not found or unavailable"))
      else .ok <| .obj <| r.productFields id p ++ [("images",r.imagesOf scan id),("category",r.categoryOf p),
        ("tags",r.tagsOf scan id),("vendor",.obj [("shopName",.str (r.site.shop p.vendorId).shopName),
          ("rating",optional .num (r.shops p.vendorId).rating),("isActive",.bool vendor.isActive),
          ("isVerified",.bool vendor.isVerified)])]

-- A query with a limit and no order of its own is ordered by the id.
def findAllProducts (filter : ProductFilterDto) : Except Failure Json :=
  findMany (r.db.matching .product (listedAnywhere contains r filter)) filter fun product =>
    .obj (r.productFields product.1 product.2 ++ [("tags",r.tagsOf scan product.1),("images",r.imagesOf scan product.1)])

-- The newest first.
def findVendorProducts (vendorId : Nat) (filter : ProductFilterDto) : Except Failure Json :=
  let rows := scan.order (r.db.matching .product (listedAt contains r vendorId filter))
  findMany (rows.mergeSort fun a b => (r.products b.1).createdAt ≤ (r.products a.1).createdAt) filter fun product =>
    .obj (r.productFields product.1 product.2 ++ [("category",r.categoryOf product.2),("images",r.imagesOf scan product.1),
      ("tags",r.tagsOf scan product.1)])

-- The query that a key stands for.
def query : CacheKey → Except Failure Json
  | .product id => findProduct scan r id
  | .all filter => findAllProducts contains scan r filter
  | .vendor vendorId filter => findVendorProducts contains scan r vendorId filter

def ttl : CacheKey → Nat
  | .product _ => 600
  | .all _ | .vendor .. => 300

-- What the cache holds, or else what the database answers, which is then kept.
def cached (cache : ProductCache) (key : CacheKey) : Except Failure Json × ProductCache :=
  match cache.get key with
  | some value => (.ok value,cache)
  | none => match query contains scan r key with
    | .ok value => (.ok value,cache.set key value (some (ttl key)))
    | .error e => (.error e,cache)

def getProductById (cache : ProductCache) (id : Nat) : Except Failure Json × ProductCache :=
  let found := cached contains scan r cache (.product id)
  (found.1.map (ResponseService.success "Product fetched successfully"),found.2)

def getAllProducts (cache : ProductCache) (filter : ProductFilterDto) : Except Failure Json × ProductCache :=
  let found := cached contains scan r cache (.all filter)
  (found.1.map (ResponseService.success "Products fetched successfully"),found.2)

def fetchProductsForVendor (cache : ProductCache) (vendorId : Nat) (filter : ProductFilterDto) :
    Except Failure Json × ProductCache :=
  match r.db.rows .vendorProfile vendorId with
  | none => (.error (.service (.notFound "Vendor profile not found")),cache)
  | some vendor =>
    if !vendor.isActive || !vendor.isVerified then
      (.error (.service (.forbidden "Vendor profile is inactive or not verified")),cache)
    else
      let found := cached contains scan r cache (.vendor vendorId filter)
      (found.1.map (ResponseService.success "Vendor products fetched successfully"),found.2)

def getVendorProducts (cache : ProductCache) (vendorId : Nat) (filter : ProductFilterDto) :
    Except Failure Json × ProductCache := fetchProductsForVendor contains scan r cache vendorId filter

def getVendorProductsByUser (cache : ProductCache) (userId : Nat) (filter : ProductFilterDto) :
    Except Failure Json × ProductCache :=
  match vendorByUser r.db userId with
  | none => (.error (.service (.notFound "Vendor profile not found")),cache)
  | some vendor =>
    if !vendor.2.isActive || !vendor.2.isVerified then
      (.error (.service (.forbidden "Vendor profile inactive or not verified")),cache)
    else fetchProductsForVendor contains scan r cache vendor.1 filter

end Queries
end ProductService
end MesyafMarket
