import MesyafMarket.EventBooks
import MesyafMarket.ProductWrites

namespace MesyafMarket
open Relational VendorService OrderService

section Ownership
variable (s : Site) (userId : Nat)

def OwnProduct (p : Product) : Prop := (vendorByUser s.db userId).map Prod.fst = some p.vendorId

def OwnProductId (i : Nat) : Prop := ∃ p, s.db.rows .product i = some p ∧ OwnProduct s userId p

def OwnBatch (b : Nat) : Prop :=
  ∃ i o, s.db.rows .order i = some o ∧ ShopOrder s.db userId o = true ∧ o.deliveryBatchId = some b

end Ownership

-- What belongs to others is the same after a request as before it. The order that
-- is new in a shop is the caller's own; a batch is the caller's to close once it
-- holds an order of the caller's shop.
structure Isolated (userId : Nat) (s s' : Site) : Prop where
  user : ∀ i, i ≠ userId → s'.user i = s.user i
  vendorProfile : ∀ i p, p.1.userId ≠ userId → (s'.vendorProfile i = some p ↔ s.vendorProfile i = some p)
  product : ∀ i p, ¬OwnProduct s userId p.1 → (s'.product i = some p ↔ s.product i = some p)
  image : ∀ i img, ¬OwnProductId s userId img.productId → (s'.image i = some img ↔ s.image i = some img)
  tagged : ∀ i, ¬OwnProductId s userId i → s'.tagged i = s.tagged i
  deliverer : ∀ i (d : DelivererProfile), d.userId ≠ userId →
    (s'.db.rows .delivererProfile i = some d ↔ s.db.rows .delivererProfile i = some d)
  order : ∀ i o, ShopOrder s.db userId o = false →
    (s.db.rows .order i = some o → s'.db.rows .order i = some o) ∧
    (s'.db.rows .order i = some o → s.db.rows .order i = some o ∨ s.db.rows .order i = none ∧ o.customerId = userId)
  batch : ∀ b k, s.db.rows .deliveryBatch b = some k → ¬OwnBatch s userId b → ¬OwnBatch s' userId b →
    ∃ k', s'.db.rows .deliveryBatch b = some k' ∧ k'.status = k.status

-- What the services of users, shops and products may do to the site: they write
-- profiles of one user and the products in `mine`, by id in `part`.
structure Catalog (userId : Nat) (mine : Product → Prop) (part : Nat → Prop) (s s' : Site) : Prop where
  rows : ∀ t, t ≠ .vendorProfile → t ≠ .product → s'.db.rows t = s.db.rows t
  account : s'.account = s.account
  vendorProfile : ∀ i p, p.1.userId ≠ userId → (s'.vendorProfile i = some p ↔ s.vendorProfile i = some p)
  product : ∀ i p, ¬mine p.1 → (s'.product i = some p ↔ s.product i = some p)
  image : ∀ i img, ¬part img.productId → (s'.image i = some img ↔ s.image i = some img)
  tagged : ∀ i, ¬part i → s'.tagged i = s.tagged i

variable {mine : Product → Prop} {part : Nat → Prop}

theorem catalog_refl (userId : Nat) (mine : Product → Prop) (part : Nat → Prop) (s : Site) :
    Catalog userId mine part s s :=
  ⟨fun _ _ _ => rfl,rfl,fun _ _ _ => .rfl,fun _ _ _ => .rfl,fun _ _ _ => .rfl,fun _ _ => rfl⟩

theorem catalog_trans (first : Catalog userId mine part s middle) (second : Catalog userId mine part middle s') :
    Catalog userId mine part s s' where
  rows t profile product := (second.rows t profile product).trans (first.rows t profile product)
  account := second.account.trans first.account
  vendorProfile i p other := (second.vendorProfile i p other).trans (first.vendorProfile i p other)
  product i p other := (second.product i p other).trans (first.product i p other)
  image i img other := (second.image i img other).trans (first.image i img other)
  tagged i other := (second.tagged i other).trans (first.tagged i other)

theorem isolated_of_catalog (catalog : Catalog userId (OwnProduct s userId) (OwnProductId s userId) s s') :
    Isolated userId s s' where
  user i _ := by
    unfold Site.user
    rw [catalog.rows .user nofun nofun,catalog.account]
  vendorProfile := catalog.vendorProfile
  product := catalog.product
  image := catalog.image
  tagged := catalog.tagged
  deliverer i d _ := by rw [catalog.rows .delivererProfile nofun nofun]
  order i o _ := by
    rw [catalog.rows .order nofun nofun]
    exact ⟨id,.inl⟩
  batch b k found _ _ := by
    rw [catalog.rows .deliveryBatch nofun nofun]
    exact ⟨k,found,rfl⟩

-- Where two rows differ, each of them is one of `mine`.
theorem others_iff (mine : α → Prop) {a b : Option α} (differ : a ≠ b → (∀ x, a = some x → mine x) ∧ ∀ x, b = some x → mine x)
    (other : ¬mine x) : a = some x ↔ b = some x := by
  by_cases same : a = b
  · rw [same]
  · obtain ⟨left,right⟩ := differ same
    exact ⟨fun found => absurd (left x found) other,fun found => absurd (right x found) other⟩

theorem rewritten_others {P : R → Prop} [DecidablePred P] {f : R → R} {rows : Nat → Option R}
    (keeps : ∀ r, P r → P (f r)) (other : ¬P r) : rewritten (fun _ r => P r) f rows i = some r ↔ rows i = some r := by
  refine others_iff P ?_ other
  unfold rewritten
  cases rows i with
  | none => exact fun differ => absurd rfl differ
  | some q =>
    by_cases own : P q
    · intro _
      have kept : P (f q) := keeps q own
      simp [own,kept]
    · simp [own]

theorem updates_vendorProfile {s : Site} {f : VendorProfile → VendorProfile} {g : ShopColumns → ShopColumns}
    (keeps : ∀ p, (f p).userId = p.userId)
    (same : db = s.db.apply (s.db.updates .vendorProfile (fun _ (p : VendorProfile) => p.userId = userId) f)) :
    ((s.withDb db).setShop userId g).vendorProfile =
      rewritten (fun _ p => p.1.userId = userId) (fun p => (f p.1,g p.2)) s.vendorProfile := by
  funext i
  have rows : db.rows .vendorProfile i =
      (s.db.rows .vendorProfile i).map fun p => if p.userId = userId then f p else p := by
    rw [same,Db.apply_updates]
    simp only [decide_eq_true_eq]
  simp only [Site.vendorProfile,Site.setShop,Site.withDb,Site.db,rewritten] at rows ⊢
  rw [rows]
  cases s.market.db.rows .vendorProfile i with
  | none => rfl
  | some q =>
    by_cases own : q.userId = userId
    · simp [own,keeps q]
    · simp [own]

theorem updates_profiles {s : Site} {f : VendorProfile → VendorProfile} {g : ShopColumns → ShopColumns}
    (keeps : ∀ p, (f p).userId = p.userId)
    (same : db = s.db.apply (s.db.updates .vendorProfile (fun _ (p : VendorProfile) => p.userId = userId) f)) :
    Catalog userId mine part s ((s.withDb db).setShop userId g) where
  rows t profile _ := by
    subst same
    exact Db.apply_updates_other _ profile
  account := rfl
  vendorProfile i p other := by
    rw [updates_vendorProfile keeps same]
    exact rewritten_others (P := fun p : VendorProfile × ShopColumns => p.1.userId = userId)
      (fun r own => (keeps r.1).trans own) other
  product i p _ := by
    have rows : db.rows .product = s.db.rows .product := by rw [same]; exact Db.apply_updates_other _ nofun
    simp only [Site.product,Site.setShop,Site.withDb,Site.db] at rows ⊢
    rw [rows]
  image _ _ _ := .rfl
  tagged _ _ := rfl

theorem createProfile_parts {s s' : Site} (ran : VendorService.createProfile s userId dto = .ok s') :
    ∃ p shop, p.userId = userId ∧ p.isVerified = false ∧
      s' = {s.withDb (s.db.apply (s.db.inserts .vendorProfile [p])) with
        shop := Function.update s.shop (s.db.seq .vendorProfile) shop} := by
  obtain ⟨created,made,ended⟩ := handled_bind.mp ran
  cases pure_handled.mp ended
  obtain ⟨db,body,rfl⟩ := commit_ok made
  simp only [createProfileTx] at body
  obtain ⟨existing,_,selected,body⟩ := Tx.run_bind_ok.mp body
  rw [Tx.run_select] at selected
  cases selected
  obtain ⟨user,_,looked,body⟩ := Tx.run_bind_ok.mp body
  rw [Tx.run_findUnique] at looked
  cases looked
  split at body
  · cases body
  split at body
  · cases body
  obtain ⟨_,_,inserted,ended⟩ := Tx.run_bind_ok.mp body
  rw [Tx.run_create] at inserted
  cases inserted
  cases ended
  exact ⟨_,_,rfl,rfl,rfl⟩

theorem createProfile_catalog {s s' : Site} (ran : VendorService.createProfile s userId dto = .ok s') :
    Catalog userId mine part s s' := by
  obtain ⟨p,shop,own,_,rfl⟩ := createProfile_parts ran
  refine ⟨fun t profile _ => Db.apply_inserts_other _ _ profile,rfl,?_,?_,fun _ _ _ => .rfl,fun _ _ => rfl⟩
  · intro i q other
    refine others_iff (fun p : VendorProfile × ShopColumns => p.1.userId = userId) ?_ other
    simp only [Site.vendorProfile,Site.withDb,Site.db,Db.apply_insert]
    by_cases new : i = s.market.db.seq .vendorProfile
    · subst i
      rw [Function.update_self,s.market.db.bounded .vendorProfile _ (Nat.le_refl _)]
      simp [own]
    · rw [Function.update_of_ne new,Function.update_of_ne new]
      exact fun differ => absurd rfl differ
  · intro i q _
    simp [Site.product,Site.withDb,Site.db]

theorem updateProfile_catalog {s s' : Site} (ran : VendorService.updateProfile s userId dto = .ok s') :
    Catalog userId mine part s s' := by
  simp only [VendorService.updateProfile] at ran
  obtain ⟨_,ran⟩ := handled_unless.mp ran
  obtain ⟨_,_,ran⟩ := handled_bind.mp ran
  obtain ⟨written,updated,ended⟩ := handled_bind.mp ran
  cases pure_handled.mp ended
  obtain ⟨db,body,rfl⟩ := commit_ok updated
  obtain ⟨same,_⟩ := update_parts body
  exact updates_profiles (by exact fun _ => rfl) same

theorem updateVendor_catalog {s s' : Site} {f : VendorProfile → VendorProfile} (keeps : ∀ p, (f p).userId = p.userId)
    (g : ShopColumns → ShopColumns) (ran : s.commit (updateVendor userId f) = .ok s') :
    Catalog userId mine part s (s'.setShop userId g) := by
  obtain ⟨db,body,rfl⟩ := commit_ok ran
  exact updates_profiles keeps (update_parts body).1

theorem toggleProfile_catalog {s s' : Site} (ran : VendorService.toggleProfile s userId isActive role = .ok s') :
    Catalog userId mine part s s' := by
  simp only [VendorService.toggleProfile] at ran
  split at ran
  · cases ran
  obtain ⟨_,ran⟩ := handled_unless.mp ran
  obtain ⟨active,_,ran⟩ := handled_bind.mp ran
  obtain ⟨written,updated,ended⟩ := handled_bind.mp ran
  cases pure_handled.mp ended
  exact updateVendor_catalog (by exact fun _ => rfl) _ updated

-- What the request about a user's profile makes of it, if it succeeds.
def reopened (now : Nat) (user : User) (p : VendorProfile × ShopColumns) : VendorProfile × ShopColumns :=
  if user.role = .customer then
    ({p.1 with isVerified := false,isActive := true},{p.2 with demotionReason := none,updatedAt := now})
  else ({p.1 with isActive := true},{p.2 with demotionReason := none,reactivatedAt := some now,updatedAt := now})

-- The users whose profile the request is for.
def Reopenable (s : Site) (userId : Nat) (user : User) : Prop := s.db.rows .user userId = some user ∧
  ((user.role = .customer ∧ (vendorByUser s.db userId).isSome = true) ∨
    (user.role = .vendor ∧ (vendorByUser s.db userId).map (fun profile => profile.2.isActive) = some false))

theorem request_parts {s s' : Site} (ran : VendorService.requestPromotionOrReactivation s userId role = .ok s') :
    (∃ user, Reopenable s userId user ∧
      s'.vendorProfile = rewritten (fun _ p => p.1.userId = userId) (reopened s.db.clock user) s.vendorProfile) ∧
    ∀ mine part, Catalog userId mine part s s' := by
  simp only [VendorService.requestPromotionOrReactivation] at ran
  split at ran
  · cases ran
  rename_i user found
  split at ran
  · rename_i customer
    obtain ⟨profile,ran⟩ := handled_unless.mp ran
    obtain ⟨written,updated,ended⟩ := handled_bind.mp ran
    cases pure_handled.mp ended
    refine ⟨⟨user,⟨found,.inl ⟨customer,by simpa [Option.isSome_iff_ne_none] using profile⟩⟩,?_⟩,
      fun _ _ => updateVendor_catalog (by exact fun _ => rfl) _ updated⟩
    obtain ⟨db,body,rfl⟩ := commit_ok updated
    rw [updates_vendorProfile (by exact fun _ => rfl) (update_parts body).1]
    congr 1
    funext p
    simp only [reopened,if_pos customer]
  split at ran
  · rename_i vendor
    obtain ⟨written,updated,ended⟩ := handled_bind.mp ran
    cases pure_handled.mp ended
    refine ⟨⟨user,⟨found,.inr vendor⟩,?_⟩,fun _ _ => updateVendor_catalog (by exact fun _ => rfl) _ updated⟩
    obtain ⟨db,body,rfl⟩ := commit_ok updated
    rw [updates_vendorProfile (by exact fun _ => rfl) (update_parts body).1]
    congr 1
    funext p
    simp only [reopened,vendor.1,reduceCtorEq,if_false]
  · cases ran

theorem request_succeeds {s : Site} (reopenable : Reopenable s userId user) (role : Role) :
    ∃ s', VendorService.requestPromotionOrReactivation s userId role = .ok s' := by
  obtain ⟨found,reason⟩ := reopenable
  have some : ∃ profile, vendorByUser s.db userId = .some profile := by
    rcases reason with ⟨_,known⟩ | ⟨_,inactive⟩
    · exact Option.isSome_iff_exists.mp known
    · obtain ⟨profile,known,_⟩ := Option.map_eq_some_iff.mp inactive
      exact ⟨profile,known⟩
  obtain ⟨profile,known⟩ := some
  obtain ⟨at_profile,own⟩ := s.db.mem_matching.mp (List.mem_of_head? known)
  have commits : ∀ f, ∃ written, s.commit (updateVendor userId f) = .ok written := by
    intro f
    have ran : (updateVendor userId f).run s.db = _ := Tx.run_update at_profile own
    unfold Site.commit
    rw [ran]
    exact ⟨_,rfl⟩
  simp only [VendorService.requestPromotionOrReactivation,found]
  rcases reason with ⟨customer,_⟩ | ⟨vendor,inactive⟩
  · obtain ⟨written,updated⟩ := commits fun p => {p with isVerified := false,isActive := true}
    rw [if_pos customer,known,updated]
    exact ⟨_,rfl⟩
  · obtain ⟨written,updated⟩ := commits fun p => {p with isActive := true}
    rw [if_neg (by rw [vendor]; exact nofun),if_pos ⟨vendor,inactive⟩,updated]
    exact ⟨_,rfl⟩

-- Writes to products that the caller owns when the request comes in.
theorem restocked_catalog {picked : Nat → Prop} (restocked : Restocked picked s s')
    (own : ∀ i, picked i → OwnProductId s userId i) :
    Catalog writer (OwnProduct s userId) (OwnProductId s userId) s s' where
  rows t _ other := restocked.rows t other
  account := restocked.account
  vendorProfile i p _ := by
    have rows := restocked.rows .vendorProfile nofun
    rw [Site.vendorProfile,Site.vendorProfile,rows,restocked.shop]
  product i p other := by
    by_cases hit : picked i
    · obtain ⟨q,found,mine⟩ := own i hit
      constructor
      · intro after
        obtain ⟨p',left,rfl⟩ := Option.map_eq_some_iff.mp after
        obtain ⟨before,again,same⟩ := restocked.vendor i p' left
        cases found.symm.trans again
        exact absurd (mine.trans (congrArg some same)) other
      · intro before
        obtain ⟨p',again,rfl⟩ := Option.map_eq_some_iff.mp before
        cases found.symm.trans again
        exact absurd mine other
    · obtain ⟨row,item⟩ := restocked.product i hit
      rw [Site.product,Site.product,row,item]
  image i img other := restocked.image i img fun hit => other (own _ hit)
  tagged i other := restocked.tagged i fun hit => other (own i hit)

namespace ProductService

section Caller
variable {s s' : Site}

theorem owned_id (valid : ∃ vendor p, Owned s.db userId productId vendor p) :
    ∀ i, i = productId → OwnProductId s userId i := by
  obtain ⟨vendor,p,owned⟩ := valid
  rintro i rfl
  refine ⟨p,owned.product,?_⟩
  rw [OwnProduct,owned.shop,Option.map_some,owned.own]

theorem createProduct_catalog (ran : createProduct s userId dto = .ok s') :
    Catalog writer (OwnProduct s userId) part s s' := by
  obtain ⟨vendor,found,_,_,item,rfl⟩ := createProduct_parts ran
  refine ⟨fun t _ product => Db.apply_inserts_other _ _ product,rfl,?_,?_,fun _ _ _ => .rfl,fun _ _ => rfl⟩
  · intro i p _
    simp [Site.vendorProfile,Site.setItem,Site.withDb,Site.db]
  · intro i p other
    refine others_iff (fun p : Product × ProductColumns => OwnProduct s userId p.1) ?_ other
    simp only [Site.product,Site.setItem,Site.withDb,Site.db,Db.apply_insert]
    by_cases new : i = s.market.db.seq .product
    · subst i
      simp only [Function.update_self,s.market.db.bounded .product _ (Nat.le_refl _)]
      intro _
      refine ⟨?_,nofun⟩
      intro p same
      cases same
      rw [OwnProduct,found,Option.map_some]
    · rw [Function.update_of_ne new,Function.update_of_ne new]
      exact fun differ => absurd rfl differ

theorem updateProduct_catalog (ran : updateProduct s userId productId dto = .ok s') :
    Catalog writer (OwnProduct s userId) (OwnProductId s userId) s s' :=
  restocked_catalog (updateProduct_restocked ran) (owned_id (updateProduct_parts ran).1)

theorem deleteProduct_catalog (ran : deleteProduct s userId productId = .ok s') :
    Catalog writer (OwnProduct s userId) (OwnProductId s userId) s s' := by
  obtain ⟨valid,restocked,_⟩ := deleteProduct_parts ran
  exact restocked_catalog restocked (owned_id valid)

theorem addProductImage_catalog (ran : addProductImage s userId productId dto = .ok s') :
    Catalog writer (OwnProduct s userId) (OwnProductId s userId) s s' :=
  restocked_catalog (addProductImage_restocked ran) (owned_id (addProductImage_parts ran).1)

theorem removeProductImage_catalog (ran : removeProductImage s userId productId imageId = .ok s') :
    Catalog writer (OwnProduct s userId) (OwnProductId s userId) s s' := by
  obtain ⟨valid,rfl⟩ := removeProductImage_parts ran
  exact restocked_catalog (clearImages_restocked fun _ _ hit => (of_decide_eq_true hit).2) (owned_id valid)

theorem clearProductImages_catalog (ran : clearProductImages s userId productId = .ok s') :
    Catalog writer (OwnProduct s userId) (OwnProductId s userId) s s' := by
  obtain ⟨valid,rfl⟩ := clearProductImages_parts ran
  exact restocked_catalog (clearImages_restocked fun _ _ hit => of_decide_eq_true hit) (owned_id valid)

theorem attachTags_catalog (ran : attachTags s userId productId tagIds = .ok s') :
    Catalog writer (OwnProduct s userId) (OwnProductId s userId) s s' := by
  obtain ⟨valid,_,rfl⟩ := attachTags_parts ran
  exact restocked_catalog (touch_restocked ..) (owned_id valid)

theorem detachTags_catalog (ran : detachTags s userId productId tagIds = .ok s') :
    Catalog writer (OwnProduct s userId) (OwnProductId s userId) s s' := by
  obtain ⟨valid,rfl⟩ := detachTags_parts ran
  exact restocked_catalog (touch_restocked ..) (owned_id valid)

theorem removeAllTags_catalog (ran : removeAllTags s userId productId = .ok s') :
    Catalog writer (OwnProduct s userId) (OwnProductId s userId) s s' := by
  obtain ⟨valid,rfl⟩ := removeAllTags_parts ran
  exact restocked_catalog (touch_restocked ..) (owned_id valid)

end Caller
end ProductService

theorem cleared_catalog {s cleared : Site} (found : vendorByUser s.db userId = some vendor)
    (restocked : Restocked (fun i => ∃ p, s.db.rows .product i = some p ∧ p.vendorId = vendor.1) s cleared) :
    Catalog writer (OwnProduct s userId) (OwnProductId s userId) s cleared := by
  refine restocked_catalog restocked ?_
  rintro i ⟨p,at_product,own⟩
  refine ⟨p,at_product,?_⟩
  rw [OwnProduct,found,Option.map_some,own]

theorem deleteProfile_catalog {s s' : Site} (ran : VendorService.deleteProfile s userId role = .ok s') :
    Catalog userId (OwnProduct s userId) (OwnProductId s userId) s s' := by
  obtain ⟨vendor,cleared,found,restocked,_,rfl⟩ := deleteProfile_parts ran
  refine catalog_trans (cleared_catalog found restocked) ⟨fun t profile _ => Db.apply_deletes_other _ profile,rfl,?_,?_,
    fun _ _ _ => .rfl,fun _ _ => rfl⟩
  · intro i p other
    simp only [Site.vendorProfile,Site.withDb,Site.db,Db.apply_deletes]
    cases cleared.market.db.rows .vendorProfile i with
    | none => exact .rfl
    | some q =>
      by_cases own : q.userId = userId
      · simp only [Option.filter,own,decide_true,Bool.not_true,Bool.false_eq_true,if_false,Option.map_none,
          Option.map_some,Option.some.injEq]
        refine ⟨nofun,?_⟩
        intro same
        subst same
        exact absurd own other
      · simp [Option.filter,own]
  · intro i p _
    simp [Site.product,Site.withDb,Site.db]

-- The services of the market that a request may call write no profile of a vendor
-- and no product.
def Uncatalogued (t : Tab) : Prop := t ≠ .vendorProfile ∧ t ≠ .product

instance (t : Tab) : Decidable (Uncatalogued t) := inferInstanceAs (Decidable (_ ∧ _))

theorem createOrderTx_uncatalogued : Confined Uncatalogued (createOrderTx dto vendorId costumerId vendor) := by
  refine confined_bind confined_select fun referenced => ?_
  split
  · trivial
  · refine confined_bind (confined_create (by decide)) fun order => ?_
    refine confined_bind (confined_createMany (by decide)) fun _ => ?_
    exact confined_bind (confined_recordEvent (by decide) (by decide) (by decide)) fun _ => trivial

theorem vendorMarkReadyTx_uncatalogued {env : Env} : Confined Uncatalogued (vendorMarkReadyTx env o orderType) := by
  refine confined_bind (confined_updateMany (by decide)) fun claimed => ?_
  split
  · trivial
  · refine confined_bind confined_findUniqueOrThrow fun readyOrder => ?_
    refine confined_bind (confined_assignToBatch (by decide) (by decide)) fun batching => ?_
    exact confined_bind (confined_recordEvent (by decide) (by decide) (by decide)) fun _ => trivial

-- Of the rows of the site, those of dispatching only.
theorem isolated_dispatch {s : Site} {db : Database} (profiles : db.rows .vendorProfile = s.db.rows .vendorProfile)
    (products : db.rows .product = s.db.rows .product) (users : db.rows .user = s.db.rows .user)
    (deliverer : ∀ i (d : DelivererProfile), d.userId ≠ userId →
      (db.rows .delivererProfile i = some d ↔ s.db.rows .delivererProfile i = some d))
    (order : ∀ i o, ShopOrder s.db userId o = false →
      (s.db.rows .order i = some o → db.rows .order i = some o) ∧
      (db.rows .order i = some o → s.db.rows .order i = some o ∨ s.db.rows .order i = none ∧ o.customerId = userId))
    (batch : ∀ b k, s.db.rows .deliveryBatch b = some k → ¬OwnBatch s userId b → ¬OwnBatch (s.withDb db) userId b →
      ∃ k', db.rows .deliveryBatch b = some k' ∧ k'.status = k.status) : Isolated userId s (s.withDb db) where
  user i _ := by
    have same : (s.withDb db).db.rows .user = s.db.rows .user := users
    simp only [Site.user,same]
    rfl
  vendorProfile i p _ := by
    have same : (s.withDb db).db.rows .vendorProfile = s.db.rows .vendorProfile := profiles
    simp only [Site.vendorProfile,same]
    exact .rfl
  product i p _ := by
    have same : (s.withDb db).db.rows .product = s.db.rows .product := products
    simp only [Site.product,same]
    exact .rfl
  image _ _ _ := .rfl
  tagged _ _ := rfl
  deliverer := deliverer
  order := order
  batch := batch

theorem vendorByUser_same {v v' : Database} (rows : v'.rows .vendorProfile = v.rows .vendorProfile)
    (seq : v'.seq .vendorProfile = v.seq .vendorProfile) : vendorByUser v' userId = vendorByUser v userId := by
  simp only [vendorByUser,Db.matching,Db.all,rows,seq]

theorem isolated_still (userId : Nat) (s : Site) : Isolated userId s (s.withDb s.db) :=
  isolated_of_catalog (catalog_refl ..)

-- closeBatch goes on to its caller; it is not the sweep that calls it here.
def CloseCaller.Direct : CloseCaller → Prop
  | .expired _ => False
  | _ => True

-- Where the services that a request may call are, and what they have done by then:
-- nothing before the one transaction of theirs that writes, and after it what
-- isolation allows. The batch to be closed holds an order of the caller's shop.
def Underway (userId : Nat) (s : Site) : Proc → Database → Prop
  | .createOrder _ _ c,db | .insertOrder _ _ c _,db => c = userId ∧ db = s.db
  | .vendorMarkReady _ u,db | .updateProfile u _,db | .writeProfile u _,db => u = userId ∧ db = s.db
  | .readReadyOrder _ vendor,db => vendor = (vendorByUser s.db userId).map Prod.fst ∧ db = s.db
  | .claimReady o _ _,db => (∃ r, s.db.rows .order o = some r ∧ ShopOrder s.db userId r = true) ∧ db = s.db
  | .scheduleBatchTimeout outcome _ _,db =>
    OwnBatch (s.withDb db) userId outcome.batchId ∧ Isolated userId s (s.withDb db)
  | .closeBatch b caller,db => caller.Direct ∧ Isolated userId s (s.withDb db) ∧
    (OwnBatch (s.withDb db) userId b ∨ ∀ k, (dispatch db).batch b = some k → k.status ≠ .pending)
  | .queueAssignment _ caller,db => caller.Direct ∧ Isolated userId s (s.withDb db)
  | .notifyNewOrder ..,db | .notifyReady ..,db | .returned _,db => Isolated userId s (s.withDb db)
  | _,_ => False

theorem underway_isolated (underway : Underway userId s x db) : Isolated userId s (s.withDb db) := by
  cases x <;> simp only [Underway] at underway
  case createOrder => rw [underway.2]; exact isolated_still ..
  case insertOrder => rw [underway.2]; exact isolated_still ..
  case vendorMarkReady => rw [underway.2]; exact isolated_still ..
  case readReadyOrder => rw [underway.2]; exact isolated_still ..
  case claimReady => rw [underway.2]; exact isolated_still ..
  case updateProfile => rw [underway.2]; exact isolated_still ..
  case writeProfile => rw [underway.2]; exact isolated_still ..
  case scheduleBatchTimeout => exact underway.2
  case closeBatch => exact underway.2.1
  case queueAssignment => exact underway.2
  all_goals exact underway

theorem closed_underway (direct : CloseCaller.Direct caller) (isolated : Isolated userId s (s.withDb db)) :
    Underway userId s (.closed caller) db := by
  cases caller with
  | expired rest => cases direct
  | markReady | timer => exact isolated

theorem afterBatching_underway (own : OwnBatch (s.withDb db) userId outcome.batchId)
    (isolated : Isolated userId s (s.withDb db)) : Underway userId s (.afterBatching outcome c o) db := by
  unfold Proc.afterBatching
  split
  · exact ⟨trivial,isolated,.inl own⟩
  · exact isolated

theorem caught_underway (underway : Underway userId s x db) (e : Err) : Underway userId s (x.caught e) db := by
  have isolated := underway_isolated underway
  cases x <;> simp only [Underway] at underway
  case closeBatch b caller =>
    have direct := underway.1
    cases caller with
    | expired rest => cases direct
    | markReady | timer => exact isolated
  case queueAssignment b caller =>
    have direct := underway.1
    cases caller with
    | expired rest => cases direct
    | markReady | timer => exact isolated
  all_goals exact isolated

-- An update of one order row that is the caller's, or a new order of the caller.
theorem order_isolated {s : Site} {db : Database} {r : Order} (rows : db.rows .order = Function.update (s.db.rows .order) k (some r))
    (own : (∃ old, s.db.rows .order k = some old ∧ ShopOrder s.db userId old = true ∧ ShopOrder s.db userId r = true) ∨
      (s.db.rows .order k = none ∧ r.customerId = userId))
    (foreign : ShopOrder s.db userId o = false) :
    (s.db.rows .order i = some o → db.rows .order i = some o) ∧
    (db.rows .order i = some o → s.db.rows .order i = some o ∨ s.db.rows .order i = none ∧ o.customerId = userId) := by
  rw [rows]
  by_cases same : i = k
  · subst i
    rw [Function.update_self]
    rcases own with ⟨old,found,before,after⟩ | ⟨fresh,mine⟩
    · constructor
      · intro at_order
        rw [found] at at_order
        cases at_order
        rw [before] at foreign
        cases foreign
      · intro new
        cases new
        rw [after] at foreign
        cases foreign
    · rw [fresh]
      refine ⟨nofun,?_⟩
      intro new
      cases new
      exact .inr ⟨rfl,mine⟩
  · rw [Function.update_of_ne same]
    exact ⟨id,.inl⟩

theorem createOrder_isolated {s : Site}
    (ran : (createOrderTx dto vendorId userId vendor).run s.db = .ok (o,db)) : Isolated userId s (s.withDb db) := by
  obtain ⟨fresh,result⟩ := createOrderTx_parts ran
  obtain ⟨profiles,_⟩ := confined_run createOrderTx_uncatalogued ran (t := .vendorProfile) (by decide)
  obtain ⟨products,_⟩ := confined_run createOrderTx_uncatalogued ran (t := .product) (by decide)
  have deliverers : db.rows .delivererProfile = s.db.rows .delivererProfile := congrArg Dispatch.deliverer result
  have batches : db.rows .deliveryBatch = s.db.rows .deliveryBatch := congrArg Dispatch.batch result
  refine isolated_dispatch profiles products (congrArg Dispatch.user result) ?_ ?_ ?_
  · intro i d _
    rw [deliverers]
  · intro i r foreign
    exact order_isolated (congrArg Dispatch.order result) (.inr ⟨fresh,rfl⟩) foreign
  · intro b k found _ _
    exact ⟨k,by rw [batches]; exact found,rfl⟩

theorem markReady_isolated {env : Env} {s : Site} {r : Order} (found : s.db.rows .order o = some r)
    (own : ShopOrder s.db userId r = true) (ran : (vendorMarkReadyTx env o orderType).run s.db = .ok (outcome,db)) :
    OwnBatch (s.withDb db) userId outcome.batchId ∧ Isolated userId s (s.withDb db) := by
  obtain ⟨profiles,seq⟩ := confined_run vendorMarkReadyTx_uncatalogued ran (t := .vendorProfile) (by decide)
  obtain ⟨products,_⟩ := confined_run vendorMarkReadyTx_uncatalogued ran (t := .product) (by decide)
  have shop : vendorByUser db userId = vendorByUser s.db userId := vendorByUser_same profiles seq
  obtain ⟨old,at_order,_,parts⟩ := vendorMarkReadyTx_parts ran
  have same : old = r := Option.some.inj (at_order.symm.trans found)
  subst same
  have joins : db.rows .order = Function.update (s.db.rows .order) o
      (some (joined outcome.batchId (readied orderType s.db.clock old))) := by
    rcases parts with ⟨b,k,close,_,_,rfl,result⟩ | ⟨b,_,rfl,result⟩ <;> exact congrArg Dispatch.order result
  have users : db.rows .user = s.db.rows .user := by
    rcases parts with ⟨b,k,close,_,_,_,result⟩ | ⟨b,_,_,result⟩ <;> exact congrArg Dispatch.user result
  have deliverers : db.rows .delivererProfile = s.db.rows .delivererProfile := by
    rcases parts with ⟨b,k,close,_,_,_,result⟩ | ⟨b,_,_,result⟩ <;> exact congrArg Dispatch.deliverer result
  refine ⟨⟨o,_,(congrFun joins o).trans (Function.update_self ..),?_,rfl⟩,
    isolated_dispatch profiles products users ?_ ?_ ?_⟩
  · have mine : ShopOrder db userId old = true := by rw [ShopOrder,shop]; exact own
    exact mine
  · intro i d _
    rw [deliverers]
  · intro i q foreign
    exact order_isolated joins (.inl ⟨old,found,own,own⟩) foreign
  · intro b k before _ _
    rcases parts with ⟨_,_,_,_,_,_,result⟩ | ⟨new,fresh,_,result⟩
    · have batches : db.rows .deliveryBatch = s.db.rows .deliveryBatch := congrArg Dispatch.batch result
      exact ⟨k,by rw [batches]; exact before,rfl⟩
    · have batches : db.rows .deliveryBatch = Function.update (s.db.rows .deliveryBatch) new _ :=
        congrArg Dispatch.batch result
      have other : b ≠ new := by
        intro same
        subst same
        have none : s.db.rows .deliveryBatch b = none := fresh
        rw [none] at before; cases before
      exact ⟨k,by rw [batches,Function.update_of_ne other]; exact before,rfl⟩

theorem ownBatch_same {s : Site} {db db' : Database} (shop : vendorByUser db' userId = vendorByUser db userId)
    (orders : db'.rows .order = db.rows .order) : OwnBatch (s.withDb db') userId b ↔ OwnBatch (s.withDb db) userId b := by
  have rows : (s.withDb db').db.rows .order = (s.withDb db).db.rows .order := orders
  have shops : ∀ o, ShopOrder (s.withDb db').db userId o = ShopOrder (s.withDb db).db userId o := by
    intro o
    have same : vendorByUser (s.withDb db').db userId = vendorByUser (s.withDb db).db userId := shop
    simp only [ShopOrder,same]
  simp only [OwnBatch,rows,shops]

theorem closeBatch_isolated {s : Site} {db db' : Database} (isolated : Isolated userId s (s.withDb db))
    (own : OwnBatch (s.withDb db) userId b ∨ ∀ k, (dispatch db).batch b = some k → k.status ≠ .pending)
    (ran : (closeBatchUpdate b).run db = .ok (count,db')) : Isolated userId s (s.withDb db') := by
  have others : ∀ t, t ≠ .deliveryBatch → db'.rows t = db.rows t ∧ db'.seq t = db.seq t := by
    intro t other
    exact confined_run (confined_updateMany (T := (· = .deliveryBatch)) rfl) ran other
  have shop : vendorByUser db' userId = vendorByUser db userId :=
    vendorByUser_same (others .vendorProfile nofun).1 (others .vendorProfile nofun).2
  have owned : ∀ {a}, OwnBatch (s.withDb db') userId a ↔ OwnBatch (s.withDb db) userId a :=
    ownBatch_same shop (others .order nofun).1
  have profiles : ∀ i, (s.withDb db').vendorProfile i = (s.withDb db).vendorProfile i := by
    intro i
    have rows : (s.withDb db').db.rows .vendorProfile = (s.withDb db).db.rows .vendorProfile :=
      (others .vendorProfile nofun).1
    simp only [Site.vendorProfile,rows]; rfl
  have products : ∀ i, (s.withDb db').product i = (s.withDb db).product i := by
    intro i
    have rows : (s.withDb db').db.rows .product = (s.withDb db).db.rows .product := (others .product nofun).1
    simp only [Site.product,rows]; rfl
  have users : ∀ i, (s.withDb db').user i = (s.withDb db).user i := by
    intro i
    have rows : (s.withDb db').db.rows .user = (s.withDb db).db.rows .user := (others .user nofun).1
    simp only [Site.user,rows]; rfl
  refine ⟨?_,?_,?_,isolated.image,isolated.tagged,?_,?_,?_⟩
  · intro i other
    rw [users]; exact isolated.user i other
  · intro i p other
    rw [profiles]; exact isolated.vendorProfile i p other
  · intro i p other
    rw [products]; exact isolated.product i p other
  · intro i d other
    have rows : (s.withDb db').db.rows .delivererProfile = (s.withDb db).db.rows .delivererProfile :=
      (others .delivererProfile nofun).1
    rw [rows]; exact isolated.deliverer i d other
  · intro i o foreign
    have rows : (s.withDb db').db.rows .order = (s.withDb db).db.rows .order := (others .order nofun).1
    rw [rows]; exact isolated.order i o foreign
  · intro a k found before after
    obtain ⟨k',at_batch,same⟩ := isolated.batch a k found before fun mine => after (owned.mpr mine)
    rcases closeBatchUpdate_parts ran with ⟨_,result,_⟩ | ⟨_,old,at_b,pending,result⟩
    · have rows : db'.rows .deliveryBatch = db.rows .deliveryBatch := congrArg Dispatch.batch result
      exact ⟨k',(congrFun rows a).trans at_batch,same⟩
    · have rows : db'.rows .deliveryBatch = Function.update (db.rows .deliveryBatch) b _ := congrArg Dispatch.batch result
      have other : a ≠ b := by
        intro hit
        subst hit
        rcases own with mine | closed
        · exact after (owned.mpr mine)
        · exact closed old at_b pending
      exact ⟨k',(congrFun rows a).trans ((Function.update_of_ne other ..).trans at_batch),same⟩

theorem writeProfile_isolated {s : Site}
    (ran : (DelivererService.updateProfileTx userId data).run s.db = .ok (u,db)) : Isolated userId s (s.withDb db) := by
  have others : ∀ t, t ≠ .delivererProfile → db.rows t = s.db.rows t := by
    intro t other
    exact (confined_run (confined_update (T := (· = .delivererProfile)) rfl) ran other).1
  have orders : db.rows .order = s.db.rows .order := others .order nofun
  have batches : db.rows .deliveryBatch = s.db.rows .deliveryBatch := others .deliveryBatch nofun
  refine isolated_dispatch (others .vendorProfile nofun) (others .product nofun) (others .user nofun) ?_ ?_ ?_
  · intro i d other
    obtain ⟨same,_⟩ := update_parts ran
    rw [same,Db.apply_updates]
    exact rewritten_others (P := fun d : DelivererProfile => d.userId = userId) (fun _ own => own) other
  · intro i o _
    rw [orders]; exact ⟨id,.inl⟩
  · intro b k found _ _
    exact ⟨k,by rw [batches]; exact found,rfl⟩

theorem query_underway {env : Env} {read : Database → Proc} (underway : Underway userId s x db)
    (at_query : Proc.next env x = .query read) : Underway userId s (read db) db := by
  have isolated := underway_isolated underway
  cases x <;> simp only [Underway] at underway
  case createOrder dto vendorId c =>
    cases at_query
    beta_reduce
    unfold Proc.vendorOfOrder
    split
    · exact isolated
    split
    · exact isolated
    · exact underway
  case vendorMarkReady orderId u =>
    cases at_query
    obtain ⟨rfl,rfl⟩ := underway
    exact ⟨rfl,rfl⟩
  case readReadyOrder orderId vendor =>
    cases at_query
    obtain ⟨rfl,rfl⟩ := underway
    beta_reduce
    unfold Proc.readyOrder
    split
    · exact isolated
    rename_i order found
    split
    · exact isolated
    rename_i own
    exact ⟨⟨order,found,decide_eq_true (not_not.mp own)⟩,rfl⟩
  case updateProfile u dto =>
    cases at_query
    beta_reduce
    split
    · exact isolated
    · exact underway
  all_goals cases at_query

theorem commit_underway {env : Env} (underway : Underway userId s x db) (at_tx : Proc.next env x = .tx body)
    (ran : body.run db = .ok (y,db')) : Underway userId s y db' := by
  cases x <;> simp only [Underway] at underway
  case insertOrder dto vendorId c vendor =>
    cases at_tx
    obtain ⟨rfl,rfl⟩ := underway
    obtain ⟨o,_,created,ended⟩ := Tx.run_bind_ok.mp ran
    cases ended
    exact createOrder_isolated created
  case claimReady o c orderType =>
    cases at_tx
    obtain ⟨⟨r,found,own⟩,rfl⟩ := underway
    obtain ⟨outcome,_,marked,ended⟩ := Tx.run_bind_ok.mp ran
    cases ended
    obtain ⟨joins,isolated⟩ := markReady_isolated found own marked
    split
    · exact ⟨joins,isolated⟩
    · exact afterBatching_underway joins isolated
  case closeBatch b caller =>
    cases at_tx
    obtain ⟨direct,isolated,own⟩ := underway
    obtain ⟨count,_,closed,ended⟩ := Tx.run_bind_ok.mp ran
    cases ended
    have after := closeBatch_isolated isolated own closed
    split
    · exact closed_underway direct after
    · exact ⟨direct,after⟩
  case writeProfile u data =>
    cases at_tx
    obtain ⟨rfl,rfl⟩ := underway
    obtain ⟨_,_,written,ended⟩ := Tx.run_bind_ok.mp ran
    cases ended
    exact writeProfile_isolated written
  all_goals cases at_tx

theorem underway_step {env : Env} (x y : Proc) (db db' : Database) (underway : Underway userId s x db)
    (flows : Flows (market env) db db' x y) : Underway userId s y db' := by
  have isolated := underway_isolated underway
  cases flows with
  | caught still => subst still; exact caught_underway underway _
  | query at_query still => subst still; exact query_underway underway at_query
  | commit at_tx ran => exact commit_underway underway at_tx ran
  | input at_input still =>
    cases x <;> simp only [Underway] at underway <;> cases at_input
  | add at_add still =>
    subst still
    cases x <;> simp only [Underway] at underway
    case scheduleBatchTimeout outcome c o =>
      cases at_add
      exact afterBatching_underway underway.1 underway.2
    case queueAssignment b caller =>
      cases at_add
      exact closed_underway underway.1 underway.2
    all_goals cases at_add
  | emit at_emit still =>
    subst still
    cases x <;> simp only [Underway] at underway <;> cases at_emit <;> exact isolated

theorem calls_isolated {env : Env} {s : Site} (underway : Underway userId s x s.db)
    (path : Reached (market env) (OwnSteps s.market.spawned) (s.market.start x) w) :
    Isolated userId s {s with market := w} := by
  obtain ⟨y,_,reached⟩ := alone_reached underway_step (start_threads s.market) underway path
  have isolated := underway_isolated reached
  exact ⟨isolated.user,isolated.vendorProfile,isolated.product,isolated.image,isolated.tagged,isolated.deliverer,
    isolated.order,isolated.batch⟩

theorem guardedId_ok {id : Nat} (guarded : guardedId roles (.carrying payload) = .ok id) : id = payload.sub := by
  unfold guardedId at guarded
  obtain ⟨req,signed,guarded⟩ := handled_bind.mp guarded
  cases signed
  obtain ⟨req',active,guarded⟩ := handled_bind.mp guarded
  obtain ⟨user,number,found⟩ := handled_bind.mp guarded
  unfold RolesGuard.canActivate at active
  dsimp only at active
  split at active
  · cases active
    cases number
    cases found
    rfl
  · cases active

theorem map_handled {x : Except Failure α} {f : α → β} (ran : x.map f = .ok b) : ∃ a, x = .ok a ∧ f a = b := by
  cases x with
  | error e => cases ran
  | ok a => exact ⟨a,rfl,Except.ok.inj ran⟩

-- A user is never changed: the handler looks for the property `userId` of the caller.
theorem updateMyProfile_fails (payload : JwtPayload) : UsersController.updateMyProfile s (.carrying payload) dto ≠ .ok s' := by
  intro ran
  simp only [UsersController.updateMyProfile] at ran
  obtain ⟨req,signed,ran⟩ := handled_bind.mp ran
  cases signed
  obtain ⟨user,called,ran⟩ := handled_bind.mp ran
  cases called
  simp only [UsersService.updateProfile] at ran
  obtain ⟨_,ran⟩ := handled_unless.mp ran
  obtain ⟨_,_,ran⟩ := handled_bind.mp ran
  obtain ⟨_,unique,_⟩ := handled_bind.mp ran
  cases unique

theorem remove_fails {payload : JwtPayload} {compare : String → String → Bool} {id : Option Nat} (other : payload.role ≠ .admin) :
    UsersController.remove compare s (.carrying payload) id password ≠ .ok s' := by
  intro ran
  simp only [UsersController.remove] at ran
  obtain ⟨req,signed,ran⟩ := handled_bind.mp ran
  cases signed
  obtain ⟨user,called,ran⟩ := handled_bind.mp ran
  cases called
  simp only [UsersService.remove] at ran
  obtain ⟨allowed,_⟩ := handled_unless.mp ran
  apply allowed
  refine ⟨other,?_⟩
  intro same
  have none : (none : Option Nat) = id := same.2
  rw [← none] at same
  cases same.1

-- What `already` leaves out: the profile is as the request would leave it.
def Reopens (s : Site) (userId : Nat) : Prop := ∃ user, Reopenable s userId user ∧
  (user.role = .vendor ∨ ∃ i p, s.vendorProfile i = some p ∧ p.1.userId = userId ∧
    ¬(p.1.isVerified = false ∧ p.1.isActive = true ∧ p.2.demotionReason = none ∧ p.2.updatedAt = s.db.clock))

-- A batch that is still open and holds no order of the caller's shop.
def StrangersBatch (s : Site) (userId : Nat) (b : Nat) : Prop :=
  (∃ k, s.db.rows .deliveryBatch b = some k ∧ k.status = .pending) ∧ ¬OwnBatch s userId b

-- The two handlers that trust their path.
def Harmless (s : Site) (userId : Nat) : HttpRequest → Prop
  | .requestPromotionOrReactivation target => target = userId ∨ ¬Reopens s target
  | .testBatch (some b) => ¬StrangersBatch s userId b
  | _ => True

theorem reopens_changes {s : Site} (reopens : Reopens s userId) : ∃ user, Reopenable s userId user ∧
    ∃ i p, s.vendorProfile i = some p ∧ p.1.userId = userId ∧ reopened s.db.clock user p ≠ p := by
  obtain ⟨user,⟨found,reason⟩,changes⟩ := reopens
  refine ⟨user,⟨found,reason⟩,?_⟩
  rcases reason with ⟨customer,_⟩ | ⟨vendor,inactive⟩
  · rcases changes with vendor | ⟨i,p,at_profile,own,differs⟩
    · rw [customer] at vendor; cases vendor
    · refine ⟨i,p,at_profile,own,?_⟩
      intro same
      rw [reopened,if_pos customer] at same
      apply differs
      rw [← same]
      exact ⟨rfl,rfl,rfl,rfl⟩
  · obtain ⟨profile,known,off⟩ := Option.map_eq_some_iff.mp inactive
    obtain ⟨at_profile,own⟩ := s.db.mem_matching.mp (List.mem_of_head? known)
    refine ⟨profile.1,(profile.2,s.shop profile.1),by rw [Site.vendorProfile,at_profile]; rfl,of_decide_eq_true own,?_⟩
    intro same
    rw [reopened,if_neg (by rw [vendor]; exact nofun)] at same
    have on : profile.2.isActive = true := by rw [← congrArg (fun p => p.1.isActive) same]
    rw [off] at on; cases on

theorem unreopened_same {s : Site} (reopenable : Reopenable s userId user) (harmless : ¬Reopens s userId) :
    rewritten (fun _ p => p.1.userId = userId) (reopened s.db.clock user) s.vendorProfile = s.vendorProfile := by
  funext i
  unfold rewritten
  cases found : s.vendorProfile i with
  | none => rfl
  | some p =>
    by_cases own : p.1.userId = userId
    · have customer : user.role = .customer := by
        rcases reopenable.2 with customer | vendor
        · exact customer.1
        · exact absurd ⟨user,reopenable,.inl vendor.1⟩ harmless
      have same : p.1.isVerified = false ∧ p.1.isActive = true ∧ p.2.demotionReason = none ∧
          p.2.updatedAt = s.db.clock := by
        by_contra differs
        exact harmless ⟨user,reopenable,.inr ⟨i,p,found,own,differs⟩⟩
      obtain ⟨profile,shop⟩ := p
      obtain ⟨one,two,three,four⟩ := same
      rw [Option.map_some,if_pos (decide_eq_true own),reopened,if_pos customer]
      dsimp only at one two three four ⊢
      rw [← one,← two,← three,← four]
    · simp [own]

theorem request_isolated {s s' : Site} (harmless : target = userId ∨ ¬Reopens s target)
    (ran : VendorService.requestPromotionOrReactivation s target role = .ok s') : Isolated userId s s' := by
  obtain ⟨⟨user,reopenable,profiles⟩,catalog⟩ := request_parts ran
  rcases harmless with own | harmless
  · rw [own] at catalog
    exact isolated_of_catalog (catalog _ _)
  · have aside := catalog (OwnProduct s userId) (OwnProductId s userId)
    refine isolated_of_catalog ⟨aside.rows,aside.account,?_,aside.product,aside.image,aside.tagged⟩
    intro i p _
    rw [profiles,unreopened_same reopenable harmless]

theorem left_isolated {compare : String → String → Bool} {s s' : Site} (other : payload.role ≠ .admin)
    (harmless : Harmless s payload.sub request)
    (handled : HttpRequest.handle compare s (.carrying payload) request = .ok (.left s')) :
    Isolated payload.sub s s' := by
  cases request
  case read => cases handled; exact isolated_of_catalog (catalog_refl ..)
  all_goals (simp only [HttpRequest.handle] at handled; obtain ⟨found,ran,same⟩ := map_handled handled; cases same)
  case updateMyProfile => exact absurd ran (updateMyProfile_fails payload)
  case remove => exact absurd ran (remove_fails other)
  case requestPromotionOrReactivation target =>
    simp only [VendorController.requestPromotionOrReactivation] at ran
    obtain ⟨req,signed,ran⟩ := handled_bind.mp ran
    cases signed
    obtain ⟨user,called,ran⟩ := handled_bind.mp ran
    exact request_isolated harmless ran
  case deleteProfile =>
    simp only [VendorController.deleteProfile] at ran
    obtain ⟨id,guarded,ran⟩ := handled_bind.mp ran
    cases guardedId_ok guarded
    obtain ⟨req,_,ran⟩ := handled_bind.mp ran
    obtain ⟨user,_,ran⟩ := handled_bind.mp ran
    exact isolated_of_catalog (deleteProfile_catalog ran)
  case toggleProfile isActive =>
    simp only [VendorController.toggleProfile] at ran
    obtain ⟨id,guarded,ran⟩ := handled_bind.mp ran
    cases guardedId_ok guarded
    obtain ⟨req,_,ran⟩ := handled_bind.mp ran
    obtain ⟨user,_,ran⟩ := handled_bind.mp ran
    exact isolated_of_catalog (toggleProfile_catalog ran)
  all_goals (obtain ⟨id,guarded,ran⟩ := handled_bind.mp ran; cases guardedId_ok guarded; apply isolated_of_catalog)
  case createVendorProfile => exact createProfile_catalog ran
  case updateProfile => exact updateProfile_catalog ran
  case createProduct => exact ProductService.createProduct_catalog ran
  case updateProduct => exact ProductService.updateProduct_catalog ran
  case deleteProduct => exact ProductService.deleteProduct_catalog ran
  case addProductImage => exact ProductService.addProductImage_catalog ran
  case deleteProductImage => exact ProductService.removeProductImage_catalog ran
  case deleteAllProductImages => exact ProductService.clearProductImages_catalog ran
  case attachProductTags => exact ProductService.attachTags_catalog ran
  case detachProductTags => exact ProductService.detachTags_catalog ran
  case removeAllProductTags => exact ProductService.removeAllTags_catalog ran

theorem called_underway {compare : String → String → Bool} {s : Site} (harmless : Harmless s payload.sub request)
    (handled : HttpRequest.handle compare s (.carrying payload) request = .ok (.calls x)) :
    Underway payload.sub s x s.db := by
  cases request
  case read => cases handled
  all_goals (simp only [HttpRequest.handle] at handled; obtain ⟨found,ran,same⟩ := map_handled handled; cases same)
  case vendorAcceptOrder orderId => exact nomatch (decided_fails .vendorAcceptOrder payload orderId).symm.trans ran
  case vendorRejectOrder orderId => exact nomatch (decided_fails .vendorRejectOrder payload orderId).symm.trans ran
  case createOrder vendorId dto =>
    cases ran
    exact ⟨rfl,rfl⟩
  case markOrderReady orderId =>
    obtain ⟨id,guarded,ended⟩ := handled_bind.mp ran
    cases guardedId_ok guarded
    cases ended
    exact ⟨rfl,rfl⟩
  case testBatch batchId =>
    cases batchId with
    | none => cases ran
    | some b =>
      cases ran
      refine ⟨trivial,isolated_still ..,?_⟩
      by_cases own : OwnBatch s payload.sub b
      · exact .inl own
      · exact .inr fun k found pending => harmless ⟨⟨k,found,pending⟩,own⟩
  case updateMyDelivererProfile dto =>
    obtain ⟨id,guarded,ended⟩ := handled_bind.mp ran
    cases guardedId_ok guarded
    cases ended
    exact ⟨rfl,rfl⟩

theorem request_harms {env : Env} {compare : String → String → Bool} {s : Site} (foreign : target ≠ payload.sub)
    (reopens : Reopens s target) :
    ∃ s', Serves env compare s payload (.requestPromotionOrReactivation target) s' ∧ ¬Isolated payload.sub s s' := by
  obtain ⟨user,reopenable,i,p,at_profile,own,changes⟩ := reopens_changes reopens
  obtain ⟨s',ran⟩ := request_succeeds reopenable payload.role
  obtain ⟨⟨again,known,profiles⟩,_⟩ := request_parts ran
  cases reopenable.1.symm.trans known.1
  have handled : HttpRequest.handle compare s (.carrying payload) (.requestPromotionOrReactivation target) =
      .ok (.left s') := congrArg (Except.map Outcome.left) ran
  refine ⟨s',.left handled,?_⟩
  intro isolated
  have kept := (isolated.vendorProfile i p (by rw [own]; exact foreign)).mpr at_profile
  rw [profiles,rewritten_of at_profile,if_pos (decide_eq_true own)] at kept
  exact changes (Option.some.inj kept)

theorem testBatch_harms {env : Env} {compare : String → String → Bool} {s : Site}
    (strangers : StrangersBatch s payload.sub b) :
    ∃ s', Serves env compare s payload (.testBatch (some b)) s' ∧ ¬Isolated payload.sub s s' := by
  obtain ⟨⟨k,found,pending⟩,foreign⟩ := strangers
  have path : Reached (market env) (OwnSteps s.market.spawned) (s.market.start (.closeBatch b .timer))
      ((s.market.start (.closeBatch b .timer)).move (market env) (.step s.market.spawned fun _ => none)) :=
    .step .refl rfl
  have moved : ((s.market.start (.closeBatch b .timer)).move (market env) (.step s.market.spawned fun _ => none)).db =
      s.db.apply (s.db.updates .deliveryBatch (fun i (k : DeliveryBatch) => i = b ∧ k.status = .pending)
        fun k => {k with status := .inProgress}) := by
    simp only [World.move,start_threads,World.instr]
    rfl
  refine ⟨_,.calls rfl path,?_⟩
  intro isolated
  generalize (s.market.start (.closeBatch b .timer)).move (market env) (.step s.market.spawned fun _ => none) = w at *
  have owned : OwnBatch (s.withDb w.db) payload.sub b ↔ OwnBatch (s.withDb s.db) payload.sub b := by
    rw [moved]
    exact ownBatch_same (vendorByUser_same (Db.apply_updates_other _ (by decide)) (by simp [Db.apply,Db.updates,Writes.onTable]))
      (Db.apply_updates_other _ (by decide))
  obtain ⟨k',at_batch,same⟩ := isolated.batch b k found foreign fun mine => foreign (owned.mp mine)
  have closed : w.db.rows .deliveryBatch b = some {k with status := .inProgress} := by
    rw [moved,Db.apply_updates]
    simp [found,pending]
  cases at_batch.symm.trans closed
  rw [pending] at same; cases same

theorem write_isolated {env : Env} {compare : String → String → Bool} {s : Site} {payload : JwtPayload}
    (other : payload.role ≠ .admin) (request : HttpRequest) :
    (∀ s', Serves env compare s payload request s' → Isolated payload.sub s s') ↔ Harmless s payload.sub request := by
  constructor
  · intro isolated
    cases request with
    | requestPromotionOrReactivation target =>
      by_contra harmful
      obtain ⟨foreign,reopens⟩ := not_or.mp harmful
      obtain ⟨s',serves,not⟩ := request_harms foreign (not_not.mp reopens)
      exact not (isolated s' serves)
    | testBatch batchId =>
      cases batchId with
      | none => trivial
      | some b =>
        intro strangers
        obtain ⟨s',serves,not⟩ := testBatch_harms strangers
        exact not (isolated s' serves)
    | _ => trivial
  · intro harmless s' serves
    cases serves with
    | found => exact isolated_of_catalog (catalog_refl ..)
    | left handled => exact left_isolated other harmless handled
    | calls handled path => exact calls_isolated (called_underway harmless handled) path

theorem write_isolated_village :
    (HttpRequest.markOrderReady 0).handle (· == ·) (siteOf orderPlaced) (.carrying shopkeeper) =
        .ok (.calls (.vendorMarkReady 0 1)) ∧
      ∀ s', Serves village (· == ·) (siteOf orderPlaced) shopkeeper (.markOrderReady 0) s' →
        Isolated 1 (siteOf orderPlaced) s' :=
  ⟨rfl,(write_isolated (by decide) _).mpr trivial⟩

-- The batch of the shop's first order is open; a customer closes it.
def batchOpen : Market := orderPlaced.run (market village) (ask (.vendorMarkReady 0 1) 1 5)

-- The vendor has switched the shop off; a customer switches it on.
def suspendedRows : (t : Tab) → List (Row t)
  | .vendorProfile => [⟨1,some 0,some 0,true,false⟩]
  | t => villageRows t

theorem write_unisolated :
    (∃ s', Serves village (· == ·) (siteOf batchOpen) customer (.testBatch (some 0)) s' ∧
      ¬Isolated 0 (siteOf batchOpen) s') ∧
    ∃ s', Serves village (· == ·) (siteOf (premises suspendedRows)) customer (.requestPromotionOrReactivation 1) s' ∧
      ¬Isolated 0 (siteOf (premises suspendedRows)) s' := by
  constructor
  · have batch : (batchOpen.db.rows .deliveryBatch 0).map DeliveryBatch.status = some .pending := by decide +kernel
    have shopless : vendorByUser batchOpen.db 0 = none := by decide +kernel
    obtain ⟨k,found,pending⟩ := Option.map_eq_some_iff.mp batch
    refine testBatch_harms ⟨⟨k,found,pending⟩,?_⟩
    intro ⟨i,o,_,own,_⟩
    have none : ((vendorByUser batchOpen.db 0).map Prod.fst) = some o.vendorId := of_decide_eq_true own
    rw [shopless] at none; cases none
  · refine request_harms (by decide) ⟨⟨.vendor,none,false⟩,⟨rfl,.inr ⟨rfl,?_⟩⟩,.inl rfl⟩
    decide +kernel

end MesyafMarket
