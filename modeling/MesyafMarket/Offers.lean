import MesyafMarket.Privilege
import MesyafMarket.ProductReads

namespace MesyafMarket
open Relational VendorService ProductService AdminService

-- What the reads go by of a product: the columns that filters look at, its tags and
-- the profile of its shop.
structure Offer where
  vendorId : Nat
  categoryId : Nat
  name : String
  isAvailable : Bool
  hasTag : Nat → Bool
  shop : Option VendorProfile

namespace Offer
variable (o : Offer)

def trades : Bool := o.shop.any fun p => p.isActive && p.isVerified

def admitted (contains : Contains) (filter : ProductFilterDto) : Bool :=
  (filter.categoryId.all fun id => id = 0 || (o.categoryId : Int) = id) &&
  (filter.search.all fun text => text = "" || contains o.name text) &&
  filter.tagIds.all fun ids => ids.isEmpty || ids.any fun id => id.any fun id => 0 ≤ id && o.hasTag id.toNat

def updated (dto : UpdateProductDto) : Offer := {o with
  categoryId := dto.categoryId.join.getD o.categoryId
  name := dto.name.join.getD o.name
  isAvailable := dto.isAvailable.join.getD o.isAvailable}

-- With its shop as `f` makes it, if it is the user's.
def reprofiled (userId : Nat) (f : VendorProfile → VendorProfile) : Offer :=
  {o with shop := o.shop.map fun p => if p.userId = userId then f p else p}

end Offer

def Records.offer (r : Records) (i : Nat) : Option Offer := (r.db.rows .product i).map fun p =>
  ⟨p.vendorId,p.categoryId,(r.site.item i).name,(r.site.item i).isAvailable,r.hasTag i,r.db.rows .vendorProfile p.vendorId⟩

-- Whether the query of a key counts the product among its rows.
def CacheKey.lists (contains : Contains) (i : Nat) (o : Offer) : CacheKey → Bool
  | .product id => id = i && o.isAvailable && o.trades
  | .all filter => o.isAvailable && o.trades && o.admitted contains filter
  | .vendor vendorId filter => o.vendorId = vendorId && o.isAvailable && o.admitted contains filter

-- What a request does to the catalog: the products it writes to, what becomes of each
-- offer, the shops it deletes, and the keys that it deletes from the cache.
structure Change where
  rewrites : Nat → Bool
  offered : Nat → Offer → Option Offer
  closes : Nat → Bool
  drops : CacheKey → Bool

def Change.idle : Change := ⟨fun _ => false,fun _ o => some o,fun _ => false,fun _ => false⟩

namespace HttpRequest

-- The requests that change products, or the standing of a shop.
def mutates : HttpRequest → Bool
  | createProduct _ | updateProduct .. | deleteProduct _ | addProductImage .. | deleteProductImage .. | deleteAllProductImages _
  | attachProductTags .. | detachProductTags .. | removeAllProductTags _
  | toggleProfile _ | requestPromotionOrReactivation _ | deleteProfile => true
  | _ => false

def rewrites (s : Site) (i : Nat) : HttpRequest → Bool
  | updateProduct j _ | deleteProduct j | addProductImage j _ | attachProductTags j _ | detachProductTags j _
  | removeAllProductTags j => i = j
  | deleteProductImage j imageId => i = j && (s.image imageId).any fun image => image.productId = j
  | deleteAllProductImages j => i = j && !(s.images.matching () fun _ image => image.productId = j).isEmpty
  | _ => false

def offered (v : Database) (userId i : Nat) (o : Offer) : HttpRequest → Option Offer
  | updateProduct j dto => some (if i = j then o.updated dto else o)
  | deleteProduct j => if i = j then none else some o
  | attachProductTags j tagIds => some (if i = j then {o with hasTag := fun id => o.hasTag id || tagIds.contains id} else o)
  | detachProductTags j tagIds => some (if i = j then {o with hasTag := fun id => o.hasTag id && !tagIds.contains id} else o)
  | removeAllProductTags j => some (if i = j then {o with hasTag := fun _ => false} else o)
  | toggleProfile isActive =>
    some (o.reprofiled userId fun p => {p with isActive := (boolean isActive).toOption.join.getD p.isActive})
  | requestPromotionOrReactivation target => some <| o.reprofiled target fun p =>
      if (v.rows .user target).map User.role = some .customer then {p with isVerified := false,isActive := true}
      else {p with isActive := true}
  | deleteProfile =>
    if (vendorByUser v userId).map Prod.fst = some o.vendorId then none
    else some {o with shop := o.shop.filter fun p => p.userId ≠ userId}
  | _ => some o

def closes (v : Database) (userId vendorId : Nat) : HttpRequest → Bool
  | deleteProfile => (v.rows .vendorProfile vendorId).any fun p => p.userId = userId
  | _ => false

-- The keys that the service deletes once it has written: of the product, of the
-- lists of the caller's shop and, for a new product only, of all products.
def drops (v : Database) (userId : Nat) : HttpRequest → CacheKey → Bool
  | createProduct _,.all _ => true
  | updateProduct i _,.product id | deleteProduct i,.product id => id = i
  | createProduct _,.vendor vendorId _ | updateProduct .. ,.vendor vendorId _ | deleteProduct _,.vendor vendorId _ =>
    (vendorByUser v userId).map Prod.fst = some vendorId
  | _,_ => false

def change (r : Records) (userId : Nat) (request : HttpRequest) : Change where
  rewrites i := request.rewrites r.site i
  offered i o := request.offered r.db userId i o
  closes vendorId := request.closes r.db userId vendorId
  drops := request.drops r.db userId

end HttpRequest

def ShopDecision.standing (p : VendorProfile) : ShopDecision → VendorProfile
  | approved => {p with isVerified := true,isActive := true}
  | rejected | suspended | demoted => {p with isActive := false,isVerified := false}
  | created | deleted => p

namespace AdminRequest

def mutates : AdminRequest → Bool
  | suspendVendor .. | approveVendorPromotion .. | updateUserRole .. => true
  | _ => false

-- Its services delete nothing from the cache.
def change (v : Database) (request : AdminRequest) : Change := {Change.idle with
  offered := fun _ o => some {o with shop := o.shop.map fun p =>
    ((request.ruling v o.vendorId p).map (ShopDecision.standing p)).getD p}}

end AdminRequest

-- The product and what is shown with it are as they were.
structure SameProduct (r r' : Records) (i : Nat) : Prop where
  row : r'.db.rows .product i = r.db.rows .product i
  item : r'.site.item i = r.site.item i
  tagged : r'.site.tagged i = r.site.tagged i
  image : ∀ k img, img.productId = i → (r'.site.image k = some img ↔ r.site.image k = some img)

-- What none of these requests touches of what the reads show.
structure Continues (r r' : Records) : Prop where
  category : r'.db.rows .category = r.db.rows .category
  tag : r'.site.tag = r.site.tag
  tagName : r'.tagName = r.tagName
  tagSeq : r'.tagSeq = r.tagSeq
  stamp : ∀ i p, r.db.rows .product i = some p → r'.products i = r.products i
  rating : ∀ vendorId p, r.db.rows .vendorProfile vendorId = some p → r'.shops vendorId = r.shops vendorId
  shopName : ∀ vendorId, (r'.site.shop vendorId).shopName = (r.site.shop vendorId).shopName
  absent : ∀ vendorId, r.db.rows .vendorProfile vendorId = none → r'.db.rows .vendorProfile vendorId = none

-- The records follow a change of the catalog.
structure Changed (c : Change) (r r' : Records) : Prop extends Continues r r' where
  offer : ∀ i o, r.offer i = some o → r'.offer i = c.offered i o
  created : ∀ i o, r.offer i = none → r'.offer i = some o →
    ∀ filter, c.drops (.all filter) = true ∧ c.drops (.vendor o.vendorId filter) = true
  kept : ∀ i o, r.offer i = some o → r'.offer i ≠ none → c.rewrites i = false → SameProduct r r' i
  closed : ∀ vendorId, c.closes vendorId = true → r'.db.rows .vendorProfile vendorId = none

section Changes
variable {c : Change} {r r' : Records}

theorem sameProduct_refl (r : Records) (i : Nat) : SameProduct r r i := ⟨rfl,rfl,rfl,fun _ _ _ => .rfl⟩

theorem offer_some : r.offer i = some o ↔ ∃ p, r.db.rows .product i = some p ∧
    (⟨p.vendorId,p.categoryId,(r.site.item i).name,(r.site.item i).isAvailable,r.hasTag i,
      r.db.rows .vendorProfile p.vendorId⟩ : Offer) = o := Option.map_eq_some_iff

theorem offer_none : r.offer i = none ↔ r.db.rows .product i = none := Option.map_eq_none_iff

theorem offer_same (same : SameProduct r r' i) (tag : r'.site.tag = r.site.tag)
    (profiles : r'.db.rows .vendorProfile = r.db.rows .vendorProfile) : r'.offer i = r.offer i := by
  have tags : r'.hasTag i = r.hasTag i := by
    funext id
    simp only [Records.hasTag,tag,same.tagged]
  simp only [Records.offer,same.row,same.item,tags,profiles]

theorem offer_touched {f : (Nat → Bool) → Nat → Bool} {hasTag : Nat → Bool} (found : r.offer i = some o)
    (tags : ∀ id, (r.site.tag id && f (r.site.tagged i) id) = hasTag id) :
    (r.follow (touch (r.site.setTags i f) i)).offer i = some {o with hasTag := hasTag} := by
  obtain ⟨p,row,rfl⟩ := offer_some.mp found
  refine offer_some.mpr ⟨p,row,?_⟩
  have same : (r.follow (touch (r.site.setTags i f) i)).hasTag i = hasTag := by
    funext id
    simp only [Records.hasTag,Records.follow,touch,Site.setItem,Site.setTags,Function.update_self,tags]
  rw [same]
  simp only [Records.follow,touch,Site.setItem,Site.setTags,Function.update_self]
  rfl

theorem continues_follow {s' : Site} (category : s'.db.rows .category = r.db.rows .category) (tag : s'.tag = r.site.tag)
    (shopName : ∀ vendorId, (s'.shop vendorId).shopName = (r.site.shop vendorId).shopName)
    (absent : ∀ vendorId, r.db.rows .vendorProfile vendorId = none → s'.db.rows .vendorProfile vendorId = none) :
    Continues r (r.follow s') where
  category := category
  tag := tag
  tagName := rfl
  tagSeq := rfl
  stamp _ _ found := if_pos (r.db.below found)
  rating _ _ found := if_pos (r.db.below found)
  shopName := shopName
  absent := absent

-- A request that writes to one product of those there are.
theorem changed_product {s' : Site} (restocked : Restocked (· = j) r.site s') (others : ∀ i o, i ≠ j → c.offered i o = some o)
    (here : ∀ o, r.offer j = some o → (r.follow s').offer j = c.offered j o)
    (still : c.rewrites j = false → SameProduct r (r.follow s') j) (stays : ∀ vendorId, c.closes vendorId = false) :
    Changed c r (r.follow s') where
  toContinues := by
    refine continues_follow (restocked.rows .category nofun) restocked.tag (fun _ => by rw [restocked.shop]) ?_
    intro vendorId gone
    rw [restocked.rows .vendorProfile nofun]; exact gone
  offer i o found := by
    by_cases same : i = j
    · subst same
      exact here o found
    · obtain ⟨row,item⟩ := restocked.product i same
      have kept : SameProduct r (r.follow s') i :=
        ⟨row,item,restocked.tagged i same,fun k img own => restocked.image k img (by rw [own]; exact same)⟩
      rw [others i o same,← found]
      exact offer_same kept restocked.tag (restocked.rows .vendorProfile nofun)
  created i o fresh found := by
    obtain ⟨p',after,_⟩ := offer_some.mp found
    obtain ⟨p,before,_⟩ := restocked.vendor i p' after
    exact nomatch (offer_none.mp fresh).symm.trans before
  kept i o found left unwritten := by
    by_cases same : i = j
    · subst same
      exact still unwritten
    · obtain ⟨row,item⟩ := restocked.product i same
      exact ⟨row,item,restocked.tagged i same,fun k img own => restocked.image k img (by rw [own]; exact same)⟩
  closed vendorId gone := nomatch (stays vendorId).symm.trans gone

-- The profiles that `P` picks are as `f` makes them, and the names of the shops stay.
structure Reprofiled (P : Nat → VendorProfile → Bool) (f : VendorProfile → VendorProfile) (s s' : Site) : Prop where
  profile : ∀ vendorId, s'.db.rows .vendorProfile vendorId =
    (s.db.rows .vendorProfile vendorId).map fun p => if P vendorId p then f p else p
  rows : ∀ t, t ≠ .vendorProfile → s'.db.rows t = s.db.rows t
  item : s'.item = s.item
  images : s'.images = s.images
  tag : s'.tag = s.tag
  tagged : s'.tagged = s.tagged
  shopName : ∀ vendorId, (s'.shop vendorId).shopName = (s.shop vendorId).shopName

theorem reprofiled_product {s' : Site} (reprofiled : Reprofiled P f r.site s') (site : r'.site = s') (i : Nat) :
    SameProduct r r' i := by
  subst site
  refine ⟨congrFun (reprofiled.rows .product nofun) i,by rw [reprofiled.item],by rw [reprofiled.tagged],fun k img _ => ?_⟩
  rw [Site.image,Site.image,reprofiled.images]

theorem changed_profiles {s' : Site} (reprofiled : Reprofiled P f r.site s') (site : r'.site = s') (continues : Continues r r')
    (offered : ∀ i o, r.offer i = some o → c.offered i o =
      some {o with shop := o.shop.map fun p => if P o.vendorId p then f p else p})
    (stays : ∀ vendorId, c.closes vendorId = false) : Changed c r r' where
  toContinues := continues
  offer i o found := by
    have same := reprofiled_product reprofiled site i
    rw [offered i o found]
    obtain ⟨p,row,rfl⟩ := offer_some.mp found
    have tags : r'.hasTag i = r.hasTag i := by
      funext id
      simp only [Records.hasTag,continues.tag,same.tagged]
    have profile : r'.db.rows .vendorProfile p.vendorId = _ := site ▸ reprofiled.profile p.vendorId
    rw [Records.offer,same.row,row,Option.map_some,same.item,tags,profile]
    rfl
  created i o fresh found := by
    have row := offer_none.mp fresh
    rw [← (reprofiled_product reprofiled site i).row] at row
    exact nomatch (offer_none.mpr row).symm.trans found
  kept i _ _ _ _ := reprofiled_product reprofiled site i
  closed vendorId gone := nomatch (stays vendorId).symm.trans gone

theorem reprofiled_update {s : Site} {P : Nat → VendorProfile → Bool} {f : VendorProfile → VendorProfile} {shop : Nat → ShopColumns}
    (keeps : ∀ vendorId, (shop vendorId).shopName = (s.shop vendorId).shopName) :
    Reprofiled P f s {s.withDb (s.db.apply (s.db.updates .vendorProfile P f)) with shop := shop} where
  profile vendorId := congrFun (Db.apply_updates s.db) vendorId
  rows _ other := Db.apply_updates_other _ other
  item := rfl
  images := rfl
  tag := rfl
  tagged := rfl
  shopName := keeps

theorem updateVendor_reprofiled {s written : Site} {f : VendorProfile → VendorProfile} {g : ShopColumns → ShopColumns}
    (ran : s.commit (updateVendor userId f) = .ok written) (keeps : ∀ shop, (g shop).shopName = shop.shopName) :
    Reprofiled (fun _ p => p.userId = userId) f s (written.setShop userId g) := by
  obtain ⟨db,body,rfl⟩ := commit_ok ran
  obtain ⟨rfl,_⟩ := update_parts body
  refine reprofiled_update fun vendorId => ?_
  split
  · split
    · exact keeps _
    · rfl
  · rfl

theorem toggleProfile_reprofiled {s s' : Site} (ran : VendorService.toggleProfile s userId isActive role = .ok s') :
    Reprofiled (fun _ p => p.userId = userId) (fun p => {p with isActive := (boolean isActive).toOption.join.getD p.isActive}) s s' := by
  simp only [VendorService.toggleProfile] at ran
  split at ran
  · cases ran
  obtain ⟨_,ran⟩ := handled_unless.mp ran
  obtain ⟨active,read,ran⟩ := handled_bind.mp ran
  obtain ⟨written,updated,ended⟩ := handled_bind.mp ran
  cases pure_handled.mp ended
  rw [read]
  exact updateVendor_reprofiled updated fun _ => rfl

theorem request_reprofiled {s s' : Site} (ran : VendorService.requestPromotionOrReactivation s userId role = .ok s') :
    Reprofiled (fun _ p => p.userId = userId) (fun p =>
      if (s.db.rows .user userId).map User.role = some .customer then {p with isVerified := false,isActive := true}
      else {p with isActive := true}) s s' := by
  simp only [VendorService.requestPromotionOrReactivation] at ran
  split at ran
  · cases ran
  rename_i user found
  rw [found,Option.map_some]
  split at ran
  · rename_i customer
    obtain ⟨_,ran⟩ := handled_unless.mp ran
    obtain ⟨written,updated,ended⟩ := handled_bind.mp ran
    cases pure_handled.mp ended
    simp only [customer,if_true]
    exact updateVendor_reprofiled updated fun _ => rfl
  split at ran
  · rename_i vendor
    obtain ⟨written,updated,ended⟩ := handled_bind.mp ran
    cases pure_handled.mp ended
    simp only [vendor.1,Option.some.injEq,reduceCtorEq,if_false]
    exact updateVendor_reprofiled updated fun _ => rfl
  · cases ran

theorem changed_standing {s' : Site} (reprofiled : Reprofiled P f r.site s')
    (offered : ∀ i o, r.offer i = some o → c.offered i o =
      some {o with shop := o.shop.map fun p => if P o.vendorId p then f p else p})
    (stays : ∀ vendorId, c.closes vendorId = false) : Changed c r (r.follow s') := by
  refine changed_profiles reprofiled rfl ?_ offered stays
  refine continues_follow (reprofiled.rows .category nofun) reprofiled.tag reprofiled.shopName ?_
  intro vendorId gone
  have gone : r.site.db.rows .vendorProfile vendorId = none := gone
  rw [reprofiled.profile,gone]
  rfl

theorem createProduct_changed {s' : Site} (ran : createProduct r.site userId dto = .ok s') :
    Changed ((HttpRequest.createProduct dto).change r userId) r (r.follow s') := by
  obtain ⟨vendor,found,_,_,item,rfl⟩ := createProduct_parts ran
  have rows : ∀ i, i ≠ r.db.seq .product → SameProduct r (r.follow ((r.site.withDb (r.site.db.apply
      (r.site.db.inserts .product [⟨vendor.1,dto.categoryId⟩]))).setItem (r.site.db.seq .product) item)) i := by
    intro i old
    refine ⟨?_,Function.update_of_ne old ..,rfl,fun _ _ _ => .rfl⟩
    exact (congrFun (Db.apply_insert r.site.db _) i).trans (Function.update_of_ne old ..)
  have profiles : (r.site.db.apply (r.site.db.inserts .product [⟨vendor.1,dto.categoryId⟩])).rows .vendorProfile =
      r.site.db.rows .vendorProfile := Db.apply_inserts_other _ _ nofun
  have fresh := r.db.bounded .product _ (Nat.le_refl _)
  refine ⟨continues_follow (Db.apply_inserts_other _ _ nofun) rfl (fun _ => rfl) ?_,?_,?_,?_,nofun⟩
  · exact fun vendorId gone => (congrFun profiles vendorId).trans gone
  · intro i o known
    have old : i ≠ r.db.seq .product := by
      rintro rfl
      exact nomatch (offer_none.mpr fresh).symm.trans known
    rw [offer_same (rows i old) rfl profiles]
    exact known
  · intro i o new after filter
    refine ⟨rfl,?_⟩
    by_cases same : i = r.db.seq .product
    · subst same
      obtain ⟨p,row,rfl⟩ := offer_some.mp after
      have here : _ = some p := (congrFun (Db.apply_insert r.site.db _) _).symm.trans row
      rw [Records.db,Function.update_self] at here
      cases here
      exact decide_eq_true (by rw [Records.db,found]; rfl)
    · rw [offer_same (rows i same) rfl profiles,new] at after
      cases after
  · intro i o known _ _
    refine rows i ?_
    rintro rfl
    exact nomatch (offer_none.mpr fresh).symm.trans known

theorem updateProduct_changed {s' : Site} (ran : updateProduct r.site userId productId dto = .ok s') :
    Changed ((HttpRequest.updateProduct productId dto).change r userId) r (r.follow s') := by
  refine changed_product (updateProduct_restocked ran) ?_ ?_ ?_ fun _ => rfl
  · intro i o other
    exact congrArg some (if_neg other)
  · intro o found
    obtain ⟨_,item,given,rfl⟩ := updateProduct_parts ran
    obtain ⟨p,row,rfl⟩ := offer_some.mp found
    refine offer_some.mpr ⟨recategorized dto p,?_,?_⟩
    · show (Db.apply _ _).rows Tab.product productId = _
      rw [Db.apply_updates]
      dsimp only
      rw [show r.site.db.rows .product productId = some p from row]
      simp
    · obtain ⟨name,isAvailable⟩ := given (r.site.item productId)
      have profiles : (r.follow ((r.site.withDb (r.site.db.apply (r.site.db.updates .product (fun i _ => i = productId)
          (recategorized dto)))).setItem productId item)).db.rows .vendorProfile = r.db.rows .vendorProfile :=
        Db.apply_updates_other _ nofun
      rw [if_pos rfl,profiles]
      simp only [Records.follow,Site.setItem,Site.withDb,Function.update_self,name,isAvailable]
      rfl
  · intro unwritten
    exact absurd rfl (of_decide_eq_false unwritten)

theorem deleteProduct_changed {s' : Site} (ran : deleteProduct r.site userId productId = .ok s') :
    Changed ((HttpRequest.deleteProduct productId).change r userId) r (r.follow s') := by
  obtain ⟨_,restocked,gone⟩ := deleteProduct_parts ran
  refine changed_product restocked ?_ ?_ ?_ fun _ => rfl
  · intro i o other
    exact if_neg other
  · intro o found
    exact (offer_none (r := r.follow s').mpr gone).trans (if_pos rfl).symm
  · intro unwritten
    exact absurd rfl (of_decide_eq_false unwritten)

theorem addProductImage_changed {s' : Site} (ran : addProductImage r.site userId productId dto = .ok s') :
    Changed ((HttpRequest.addProductImage productId dto).change r userId) r (r.follow s') := by
  refine changed_product (addProductImage_restocked ran) (fun _ _ _ => rfl) ?_ ?_ fun _ => rfl
  · intro o found
    obtain ⟨_,rfl⟩ := addProductImage_parts ran
    exact found
  · intro unwritten
    exact absurd rfl (of_decide_eq_false unwritten)

-- Where no image is picked nothing is written.
theorem clearImages_changed {P : Nat → ProductImage → Bool} (own : ∀ k img, P k img = true → img.productId = productId)
    (idle : ∀ i o, c.offered i o = some o) (stays : ∀ vendorId, c.closes vendorId = false)
    (unwritten : c.rewrites productId = false → ∀ k img, r.site.image k = some img → P k img = false) :
    Changed c r (r.follow (clearImages r.site P)) := by
  refine changed_product (clearImages_restocked own) (fun i o _ => idle i o) ?_ ?_ stays
  · intro o found
    rw [idle]
    exact found
  · intro still
    refine ⟨rfl,rfl,rfl,fun k img _ => image_clearImages.trans ⟨And.left,fun found => ⟨found,?_⟩⟩⟩
    exact unwritten still k img found

theorem deleteProductImage_changed {s' : Site} (ran : removeProductImage r.site userId productId imageId = .ok s') :
    Changed ((HttpRequest.deleteProductImage productId imageId).change r userId) r (r.follow s') := by
  obtain ⟨_,rfl⟩ := removeProductImage_parts ran
  refine clearImages_changed (fun _ _ hit => (of_decide_eq_true hit).2) (fun _ _ => rfl) (fun _ => rfl) ?_
  intro still k img found
  refine decide_eq_false ?_
  rintro ⟨rfl,own⟩
  simp [HttpRequest.change,HttpRequest.rewrites,found,own] at still

theorem deleteAllProductImages_changed {s' : Site} (ran : clearProductImages r.site userId productId = .ok s') :
    Changed ((HttpRequest.deleteAllProductImages productId).change r userId) r (r.follow s') := by
  obtain ⟨_,rfl⟩ := clearProductImages_parts ran
  refine clearImages_changed (fun _ _ hit => of_decide_eq_true hit) (fun _ _ => rfl) (fun _ => rfl) ?_
  intro still k img found
  simp only [HttpRequest.change,HttpRequest.rewrites,decide_true,Bool.true_and,Bool.not_eq_false',List.isEmpty_iff] at still
  exact (Db.matching_nil _).mp still k img found

-- Tags are written to one product.
theorem touch_changed {f : (Nat → Bool) → Nat → Bool} (others : ∀ i o, i ≠ productId → c.offered i o = some o)
    (here : ∀ o, r.offer productId = some o → (r.follow (touch (r.site.setTags productId f) productId)).offer productId =
      c.offered productId o)
    (written : c.rewrites productId = true) (stays : ∀ vendorId, c.closes vendorId = false) :
    Changed c r (r.follow (touch (r.site.setTags productId f) productId)) :=
  changed_product (touch_restocked ..) others here (fun still => nomatch written.symm.trans still) stays

theorem attachTags_changed {s' : Site} (ran : attachTags r.site userId productId tagIds = .ok s') :
    Changed ((HttpRequest.attachProductTags productId tagIds).change r userId) r (r.follow s') := by
  obtain ⟨_,known,rfl⟩ := attachTags_parts ran
  refine touch_changed (fun i o other => congrArg some (if_neg other)) ?_ (decide_eq_true rfl) fun _ => rfl
  intro o found
  refine (offer_touched found fun id => ?_).trans (congrArg some (if_pos rfl)).symm
  obtain ⟨p,row,rfl⟩ := offer_some.mp found
  simp only [Records.hasTag]
  cases tag : r.site.tag id with
  | true => rw [Bool.true_and,Bool.true_and]
  | false =>
    have other : tagIds.contains id = false := by
      rw [← Bool.not_eq_true]
      intro member
      exact nomatch tag.symm.trans (known id (List.contains_iff_mem.mp member))
    rw [other]; rfl

theorem detachTags_changed {s' : Site} (ran : detachTags r.site userId productId tagIds = .ok s') :
    Changed ((HttpRequest.detachProductTags productId tagIds).change r userId) r (r.follow s') := by
  obtain ⟨_,rfl⟩ := detachTags_parts ran
  refine touch_changed (fun i o other => congrArg some (if_neg other)) ?_ (decide_eq_true rfl) fun _ => rfl
  intro o found
  refine (offer_touched found fun id => ?_).trans (congrArg some (if_pos rfl)).symm
  obtain ⟨p,row,rfl⟩ := offer_some.mp found
  simp only [Records.hasTag,Bool.and_assoc]

theorem removeAllTags_changed {s' : Site} (ran : removeAllTags r.site userId productId = .ok s') :
    Changed ((HttpRequest.removeAllProductTags productId).change r userId) r (r.follow s') := by
  obtain ⟨_,rfl⟩ := removeAllTags_parts ran
  refine touch_changed (fun i o other => congrArg some (if_neg other)) ?_ (decide_eq_true rfl) fun _ => rfl
  intro o found
  exact (offer_touched found fun id => Bool.and_false _).trans (congrArg some (if_pos rfl)).symm

theorem deleteProfile_changed {s' : Site} (ran : VendorService.deleteProfile r.site userId role = .ok s') :
    Changed (HttpRequest.deleteProfile.change r userId) r (r.follow s') := by
  obtain ⟨vendor,cleared,found,restocked,gone,rfl⟩ := deleteProfile_parts ran
  have profiles : ∀ i, (cleared.db.apply (cleared.db.deletes .vendorProfile fun _ (p : VendorProfile) => p.userId = userId)).rows
      .vendorProfile i = (r.site.db.rows .vendorProfile i).filter fun p => p.userId ≠ userId := by
    intro i
    rw [Db.apply_deletes,restocked.rows .vendorProfile nofun]
    simp only [ne_eq,decide_not]
  have rest : ∀ t, t ≠ .vendorProfile →
      (cleared.db.apply (cleared.db.deletes .vendorProfile fun _ (p : VendorProfile) => p.userId = userId)).rows t =
        cleared.db.rows t := fun t other => Db.apply_deletes_other _ other
  have others : ∀ i p, r.db.rows .product i = some p → p.vendorId ≠ vendor.1 → SameProduct r (r.follow (cleared.withDb
      (cleared.db.apply (cleared.db.deletes .vendorProfile fun _ (p : VendorProfile) => p.userId = userId)))) i := by
    intro i p row foreign
    have apart : ¬∃ q, r.site.db.rows .product i = some q ∧ q.vendorId = vendor.1 := by
      rintro ⟨q,again,own⟩
      cases (show r.site.db.rows .product i = some p from row).symm.trans again
      exact foreign own
    obtain ⟨same,item⟩ := restocked.product i apart
    refine ⟨(congrFun (rest .product nofun) i).trans same,item,restocked.tagged i apart,fun k img own => ?_⟩
    exact restocked.image k img (by rw [own]; exact apart)
  refine ⟨continues_follow ?_ restocked.tag (fun _ => by rw [← restocked.shop]; rfl) ?_,?_,?_,?_,?_⟩
  · exact (rest .category nofun).trans (restocked.rows .category nofun)
  · intro vendorId none
    have none : r.site.db.rows .vendorProfile vendorId = .none := none
    show (Db.apply _ _).rows Tab.vendorProfile vendorId = .none
    rw [profiles,none]; rfl
  · intro i o known
    obtain ⟨p,row,rfl⟩ := offer_some.mp known
    simp only [HttpRequest.change,HttpRequest.offered]
    rw [Records.db,found,Option.map_some]
    by_cases own : p.vendorId = vendor.1
    · rw [own,if_pos rfl]
      refine offer_none.mpr ?_
      exact (congrFun (rest .product nofun) i).trans (gone i p row own)
    · rw [if_neg (by simpa using Ne.symm own)]
      have same := others i p row own
      refine offer_some.mpr ⟨p,same.row.trans row,?_⟩
      have tags : (r.follow (cleared.withDb (cleared.db.apply (cleared.db.deletes .vendorProfile
          fun _ (p : VendorProfile) => p.userId = userId)))).hasTag i = r.hasTag i := by
        funext id
        have tag : cleared.tag = r.site.tag := restocked.tag
        simp only [Records.hasTag,same.tagged]
        show (cleared.tag id && _) = _
        rw [tag]
      rw [same.item,tags]
      exact congrArg (Offer.mk _ _ _ _ _) (profiles p.vendorId)
  · intro i o fresh after
    obtain ⟨p',row,_⟩ := offer_some.mp after
    obtain ⟨p,before,_⟩ := restocked.vendor i p' ((congrFun (rest .product nofun) i).symm.trans row)
    exact nomatch (offer_none.mp fresh).symm.trans before
  · intro i o known left _
    obtain ⟨p,row,_⟩ := offer_some.mp known
    refine others i p row fun own => left (offer_none.mpr ?_)
    exact (congrFun (rest .product nofun) i).trans (gone i p row own)
  · intro vendorId closes
    obtain ⟨p,row,own⟩ := (Option.any_eq_true _ _).mp closes
    show (Db.apply _ _).rows Tab.vendorProfile vendorId = .none
    rw [profiles,show r.site.db.rows .vendorProfile vendorId = some p from row]
    simpa using own

-- A request of the caller that is served does what it is there for.
theorem request_changed {compare : String → String → Bool} {request : HttpRequest} {s' : Site} (mutates : request.mutates = true)
    (handled : request.handle compare r.site (.carrying payload) = .ok (.left s')) :
    Changed (request.change r payload.sub) r (r.follow s') := by
  cases request <;> cases mutates
  all_goals (simp only [HttpRequest.handle] at handled; obtain ⟨found,ran,same⟩ := map_handled handled; cases same)
  case requestPromotionOrReactivation target =>
    simp only [VendorController.requestPromotionOrReactivation] at ran
    obtain ⟨req,_,ran⟩ := handled_bind.mp ran
    obtain ⟨user,_,ran⟩ := handled_bind.mp ran
    refine changed_standing (request_reprofiled ran) (fun i o _ => ?_) fun _ => rfl
    simp only [decide_eq_true_eq]
    rfl
  all_goals (obtain ⟨id,guarded,ran⟩ := handled_bind.mp ran; cases guardedId_ok guarded)
  case deleteProfile =>
    obtain ⟨req,_,ran⟩ := handled_bind.mp ran
    obtain ⟨user,_,ran⟩ := handled_bind.mp ran
    exact deleteProfile_changed ran
  case toggleProfile isActive =>
    obtain ⟨req,_,ran⟩ := handled_bind.mp ran
    obtain ⟨user,_,ran⟩ := handled_bind.mp ran
    refine changed_standing (toggleProfile_reprofiled ran) (fun i o _ => ?_) fun _ => rfl
    simp only [decide_eq_true_eq]
    rfl
  case createProduct => exact createProduct_changed ran
  case updateProduct => exact updateProduct_changed ran
  case deleteProduct => exact deleteProduct_changed ran
  case addProductImage => exact addProductImage_changed ran
  case deleteProductImage => exact deleteProductImage_changed ran
  case deleteAllProductImages => exact deleteAllProductImages_changed ran
  case attachProductTags => exact attachTags_changed ran
  case detachProductTags => exact detachTags_changed ran
  case removeAllProductTags => exact removeAllTags_changed ran

-- Nothing of the catalog changes.
structure Untouched (r r' : Records) : Prop where
  rows : ∀ t, t ≠ .user → r'.db.rows t = r.db.rows t
  item : r'.site.item = r.site.item
  images : r'.site.images = r.site.images
  tag : r'.site.tag = r.site.tag
  tagged : r'.site.tagged = r.site.tagged
  shop : r'.site.shop = r.site.shop
  tagName : r'.tagName = r.tagName
  tagSeq : r'.tagSeq = r.tagSeq
  products : r'.products = r.products
  shops : r'.shops = r.shops

theorem untouched_offer (untouched : Untouched r r') (i : Nat) : r'.offer i = r.offer i := by
  have tags : r'.hasTag i = r.hasTag i := by
    funext id
    simp only [Records.hasTag,untouched.tag,untouched.tagged]
  simp only [Records.offer,untouched.rows .product nofun,untouched.rows .vendorProfile nofun,untouched.item,tags]

theorem changed_untouched (changed : Changed c r middle) (untouched : Untouched middle r') : Changed c r r' where
  category := (untouched.rows .category nofun).trans changed.category
  tag := untouched.tag.trans changed.tag
  tagName := untouched.tagName.trans changed.tagName
  tagSeq := untouched.tagSeq.trans changed.tagSeq
  stamp i p found := (congrFun untouched.products i).trans (changed.stamp i p found)
  rating i p found := (congrFun untouched.shops i).trans (changed.rating i p found)
  shopName i := (congrArg ShopColumns.shopName (congrFun untouched.shop i)).trans (changed.shopName i)
  absent i gone := (congrFun (untouched.rows .vendorProfile nofun) i).trans (changed.absent i gone)
  offer i o found := (untouched_offer untouched i).trans (changed.offer i o found)
  created i o fresh after := changed.created i o fresh ((untouched_offer untouched i).symm.trans after)
  kept i o found left unwritten := by
    rw [untouched_offer untouched] at left
    obtain ⟨row,item,tagged,image⟩ := changed.kept i o found left unwritten
    refine ⟨(congrFun (untouched.rows .product nofun) i).trans row,(congrFun untouched.item i).trans item,
      (congrFun untouched.tagged i).trans tagged,fun k img own => ?_⟩
    rw [Site.image,untouched.images]
    exact image k img own
  closed i closes := (congrFun (untouched.rows .vendorProfile nofun) i).trans (changed.closed i closes)

theorem changed_idle (r : Records) : Changed .idle r r where
  category := rfl
  tag := rfl
  tagName := rfl
  tagSeq := rfl
  stamp _ _ _ := rfl
  rating _ _ _ := rfl
  shopName _ := rfl
  absent _ gone := gone
  offer _ _ found := found
  created _ _ fresh found := nomatch fresh.symm.trans found
  kept i _ _ _ _ := sameProduct_refl r i
  closed _ := nofun

theorem writeRole_untouched (ran : writeRole userId role r = .ok r') : Untouched r r' := by
  obtain ⟨site,done,rfl⟩ := write_ok ran
  obtain ⟨written,updated,ended⟩ := handled_bind.mp done
  cases pure_handled.mp ended
  obtain ⟨db,body,rfl⟩ := commit_ok updated
  refine ⟨fun t other => ?_,rfl,rfl,rfl,rfl,rfl,rfl,rfl,rfl,rfl⟩
  exact (confined_run (confined_update (T := (· = .user)) rfl) body other).1

-- What an admin's call may leave: nothing is changed, or what the request is there for.
def Administered (c : Change) (r r' : Records) : Prop := Changed .idle r r' ∨ Changed c r r'

theorem administered_untouched (administered : Administered c r middle) (untouched : Untouched middle r') :
    Administered c r r' :=
  administered.imp (changed_untouched · untouched) (changed_untouched · untouched)

-- An update of the profiles with a decision about each.
theorem changed_decided {P : Nat → VendorProfile → Bool} {shop : Nat → ShopColumns} {db : Database} {request : AdminRequest}
    (after : db = r.site.db.apply (r.site.db.updates .vendorProfile P f))
    (keeps : ∀ vendorId, (shop vendorId).shopName = (r.site.shop vendorId).shopName)
    (decided : ∀ vendorId p, ((request.ruling r.db vendorId p).map (ShopDecision.standing p)).getD p =
      if P vendorId p then f p else p) :
    Changed (request.change r.db) r {r with site := {r.site.withDb db with shop := shop}} := by
  subst after
  have reprofiled : Reprofiled P f r.site _ := reprofiled_update keeps
  refine changed_profiles reprofiled rfl ?_ ?_ fun _ => rfl
  · refine ⟨reprofiled.rows .category nofun,rfl,rfl,rfl,fun _ _ _ => rfl,fun _ _ _ => rfl,keeps,?_⟩
    intro vendorId gone
    have gone : r.site.db.rows .vendorProfile vendorId = none := gone
    exact (reprofiled.profile vendorId).trans (by rw [gone]; rfl)
  · intro i o _
    exact congrArg some (congrArg (Offer.mk _ _ _ _ _) (by simp only [decided]))

theorem demoteVendor_changed {request : AdminRequest} (ran : demoteVendor userId reason r = .ok r')
    (decided : ∀ vendorId p, request.ruling r.db vendorId p = if p.userId = userId then some .demoted else none) :
    Changed (request.change r.db) r r' := by
  obtain ⟨site,done,rfl⟩ := write_ok ran
  obtain ⟨text,_,done⟩ := handled_bind.mp done
  obtain ⟨written,updated,ended⟩ := handled_bind.mp done
  cases pure_handled.mp ended
  obtain ⟨db,body,rfl⟩ := commit_ok updated
  refine changed_decided (update_parts body).1 (fun vendorId => ?_) fun vendorId p => ?_
  · split
    · split <;> rfl
    · rfl
  · rw [decided]
    by_cases own : p.userId = userId <;> simp [own,ShopDecision.standing]

theorem writeVendor_changed {request : AdminRequest} (decision : ShopDecision) (ran : writeVendor vendorId f g r = .ok r')
    (keeps : ∀ now shop, (g now shop).shopName = shop.shopName)
    (decided : ∀ i p, request.ruling r.db i p = if i = vendorId then some decision else none)
    (same : ∀ p, decision.standing p = f p) : Changed (request.change r.db) r r' := by
  obtain ⟨site,done,rfl⟩ := write_ok ran
  obtain ⟨written,updated,ended⟩ := handled_bind.mp done
  cases pure_handled.mp ended
  obtain ⟨db,body,rfl⟩ := commit_ok updated
  refine changed_decided (update_parts body).1 (fun i => ?_) fun i p => ?_
  · by_cases hit : i = vendorId
    · subst hit
      rw [Function.update_self]
      exact keeps _ _
    · rw [Function.update_of_ne hit]
  · rw [decided]
    by_cases hit : i = vendorId <;> simp [hit,same]

theorem suspend_changed {request : AdminRequest} (decision : ShopDecision) (ran : suspend vendorId reason r = .ok r')
    (decided : ∀ i p, request.ruling r.db i p = if i = vendorId then some decision else none)
    (lowers : ∀ p, decision.standing p = {p with isActive := false,isVerified := false}) : Changed (request.change r.db) r r' := by
  obtain ⟨text,_,ran⟩ := handled_bind.mp ran
  exact writeVendor_changed decision ran (fun _ _ => rfl) decided lowers

theorem updatedProfile_administered (administered : Administered c r r') :
    (updatedProfile vendorId message).Always (Administered c r) r' := by
  unfold updatedProfile Script.Always
  dsimp only
  split <;> exact administered

theorem roleWritten_administered (administered : Administered c r r') :
    (Script.write (fun r => do writeRole userId (← roleOf role) r) (updatedUser userId message) : Call Json).Always
      (Administered c r) r' := by
  refine ⟨administered,fun s ran => ?_⟩
  obtain ⟨new,_,ran⟩ := handled_bind.mp ran
  have written := administered_untouched administered (writeRole_untouched ran)
  unfold updatedUser Script.Always
  dsimp only
  split <;> exact written

theorem updateUserRole_administered : (AdminService.updateUserRole userId role reason).Always
    (Administered ((AdminRequest.updateUserRole userId role reason).change r.db) r) r := by
  have still : Administered ((AdminRequest.updateUserRole userId role reason).change r.db) r r := .inl (changed_idle r)
  unfold AdminService.updateUserRole Script.Always
  dsimp only
  split
  · exact still
  rename_i user found
  split
  · rename_i demotes
    refine ⟨still,fun s' ran => roleWritten_administered (.inr (demoteVendor_changed ran fun vendorId p => ?_))⟩
    simp only [AdminRequest.ruling,found,Option.map_some,demotes.1,demotes.2.1,and_true]
  · exact roleWritten_administered still

theorem approveVendorPromotion_administered : (AdminService.approveVendorPromotion vendorId approve reason).Always
    (Administered ((AdminRequest.approveVendorPromotion vendorId approve reason).change r.db) r) r := by
  have still : Administered ((AdminRequest.approveVendorPromotion vendorId approve reason).change r.db) r r :=
    .inl (changed_idle r)
  unfold AdminService.approveVendorPromotion Script.Always
  dsimp only
  split
  · exact still
  split
  · rename_i approves
    refine ⟨still,fun s' ran => ?_⟩
    have approved : Administered ((AdminRequest.approveVendorPromotion vendorId approve reason).change r.db) r s' := by
      refine .inr (writeVendor_changed .approved ran (fun _ _ => rfl) (fun i p => ?_) fun _ => rfl)
      simp only [AdminRequest.ruling,approves,if_true]
    refine ⟨approved,fun s'' written => ?_⟩
    have role := administered_untouched approved (writeRole_untouched written)
    split <;> exact role
  · rename_i rejects
    refine ⟨still,fun s' ran => updatedProfile_administered ?_⟩
    refine .inr (suspend_changed .rejected ran (fun i p => ?_) fun _ => rfl)
    simp only [AdminRequest.ruling,rejects,Bool.false_eq_true,if_false]

theorem suspendVendor_administered : (AdminService.suspendVendor vendorId reason).Always
    (Administered ((AdminRequest.suspendVendor vendorId reason).change r.db) r) r := by
  have still : Administered ((AdminRequest.suspendVendor vendorId reason).change r.db) r r := .inl (changed_idle r)
  unfold AdminService.suspendVendor Script.Always
  dsimp only
  split
  · exact still
  refine ⟨still,fun s' ran => updatedProfile_administered ?_⟩
  exact .inr (suspend_changed .suspended ran (fun _ _ => rfl) fun _ => rfl)

-- An admin's request, up to a write of it that fails.
theorem request_administered (env : Env) (r : Records) {request : AdminRequest} (mutates : request.mutates = true) (bearer : Option JwtPayload)
    (fault : Option Nat) :
    Administered (request.change r.db) r ((AdminController.answer env ⟨bearer,none⟩ request).left fault r) := by
  rcases answer_cases env bearer request with ⟨e,refused⟩ | ⟨_,passed⟩
  · rw [refused]
    exact .inl (changed_idle r)
  rw [passed]
  cases request with
  | approveVendorPromotion vendorId approve reason => exact Script.always_iff.mp approveVendorPromotion_administered fault
  | suspendVendor vendorId reason => exact Script.always_iff.mp suspendVendor_administered fault
  | updateUserRole id role reason => exact Script.always_iff.mp updateUserRole_administered fault
  | _ => cases mutates

end Changes
end MesyafMarket
