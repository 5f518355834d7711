import MesyafMarket.Controllers
import MesyafMarket.Dispatch.Commit

namespace MesyafMarket
open Relational VendorService

-- Writes to the products in `mine`, to their tags and to their images. The products
-- that are left have the vendor that they had.
structure Restocked (mine : Nat → Prop) (s s' : Site) : Prop where
  rows : ∀ t, t ≠ .product → s'.db.rows t = s.db.rows t
  account : s'.account = s.account
  shop : s'.shop = s.shop
  tag : s'.tag = s.tag
  product : ∀ i, ¬mine i → s'.db.rows .product i = s.db.rows .product i ∧ s'.item i = s.item i
  vendor : ∀ i p', s'.db.rows .product i = some p' → ∃ p, s.db.rows .product i = some p ∧ p.vendorId = p'.vendorId
  image : ∀ k img, ¬mine img.productId → (s'.image k = some img ↔ s.image k = some img)
  tagged : ∀ i, ¬mine i → s'.tagged i = s.tagged i

section Frames
variable {mine wider : Nat → Prop} {s s' : Site}

theorem restocked_refl (mine : Nat → Prop) (s : Site) : Restocked mine s s where
  rows _ _ := rfl
  account := rfl
  shop := rfl
  tag := rfl
  product _ _ := ⟨rfl,rfl⟩
  vendor _ p found := ⟨p,found,rfl⟩
  image _ _ _ := .rfl
  tagged _ _ := rfl

theorem restocked_trans (first : Restocked mine s middle) (second : Restocked mine middle s') : Restocked mine s s' where
  rows t other := (second.rows t other).trans (first.rows t other)
  account := second.account.trans first.account
  shop := second.shop.trans first.shop
  tag := second.tag.trans first.tag
  product i other := by
    obtain ⟨row,item⟩ := first.product i other
    obtain ⟨row',item'⟩ := second.product i other
    exact ⟨row'.trans row,item'.trans item⟩
  vendor i p' found := by
    obtain ⟨q,between,same⟩ := second.vendor i p' found
    obtain ⟨p,before,again⟩ := first.vendor i q between
    exact ⟨p,before,again.trans same⟩
  image k img other := (second.image k img other).trans (first.image k img other)
  tagged i other := (second.tagged i other).trans (first.tagged i other)

theorem restocked_wider (within : ∀ i, mine i → wider i) (restocked : Restocked mine s s') : Restocked wider s s' where
  rows := restocked.rows
  account := restocked.account
  shop := restocked.shop
  tag := restocked.tag
  product i other := restocked.product i fun own => other (within i own)
  vendor := restocked.vendor
  image k img other := restocked.image k img fun own => other (within _ own)
  tagged i other := restocked.tagged i fun own => other (within i own)

theorem setItem_restocked (own : mine productId) : Restocked mine s (s.setItem productId f) where
  rows _ _ := rfl
  account := rfl
  shop := rfl
  tag := rfl
  product i other := ⟨rfl,Function.update_of_ne (by rintro rfl; exact other own) ..⟩
  vendor _ p found := ⟨p,found,rfl⟩
  image _ _ _ := .rfl
  tagged _ _ := rfl

theorem setTags_restocked (own : mine productId) : Restocked mine s (s.setTags productId f) where
  rows _ _ := rfl
  account := rfl
  shop := rfl
  tag := rfl
  product _ _ := ⟨rfl,rfl⟩
  vendor _ p found := ⟨p,found,rfl⟩
  image _ _ _ := .rfl
  tagged i other := Function.update_of_ne (by rintro rfl; exact other own) ..

theorem images_restocked {images : Db fun _ : Unit => ProductImage}
    (image : ∀ k img, ¬mine img.productId → (images.rows () k = some img ↔ s.image k = some img)) :
    Restocked mine s {s with images := images} where
  rows _ _ := rfl
  account := rfl
  shop := rfl
  tag := rfl
  product _ _ := ⟨rfl,rfl⟩
  vendor _ p found := ⟨p,found,rfl⟩
  image := image
  tagged _ _ := rfl

theorem image_clearImages {p : Nat → ProductImage → Bool} :
    (ProductService.clearImages s p).image k = some img ↔ s.image k = some img ∧ p k img = false := by
  have rows : (ProductService.clearImages s p).image k = (s.image k).filter fun img => !p k img := by
    simp only [ProductService.clearImages,Site.image,Db.apply_deletes]
  rw [rows,Option.filter_eq_some_iff,Bool.not_eq_true']

theorem clearImages_restocked {p : Nat → ProductImage → Bool} (own : ∀ k img, p k img = true → mine img.productId) :
    Restocked mine s (ProductService.clearImages s p) := by
  refine images_restocked fun k img other => image_clearImages.trans ⟨And.left,fun found => ⟨found,?_⟩⟩
  by_contra hit
  exact other (own k img (Bool.not_eq_false _ ▸ hit))

theorem withDb_restocked {db : Database} (rows : ∀ t, t ≠ .product → db.rows t = s.db.rows t)
    (product : ∀ i, ¬mine i → db.rows .product i = s.db.rows .product i)
    (vendor : ∀ i p', db.rows .product i = some p' → ∃ p, s.db.rows .product i = some p ∧ p.vendorId = p'.vendorId) :
    Restocked mine s (s.withDb db) where
  rows := rows
  account := rfl
  shop := rfl
  tag := rfl
  product i other := ⟨product i other,rfl⟩
  vendor := vendor
  image _ _ _ := .rfl
  tagged _ _ := rfl

end Frames

theorem required_ok {x : Option (Option α)} (ok : required x = .ok y) : y = x.join := by
  cases x with
  | none => cases ok; rfl
  | some x => cases x with
    | none => cases ok
    | some value => cases ok; rfl

namespace ProductService

-- The caller's shop is open and the product is its own.
structure Owned (v : Database) (userId productId : Nat) (vendor : Nat × VendorProfile) (p : Product) : Prop where
  shop : vendorByUser v userId = some vendor
  active : vendor.2.isActive = true
  verified : vendor.2.isVerified = true
  product : v.rows .product productId = some p
  own : p.vendorId = vendor.1

section Writes
variable {s s' : Site}

theorem validate_parts (valid : validateOwnershipAndGetProduct s userId productId = .ok ()) :
    ∃ vendor p, Owned s.db userId productId vendor p := by
  simp only [validateOwnershipAndGetProduct] at valid
  split at valid
  · cases valid
  rename_i vendor found
  obtain ⟨closed,valid⟩ := handled_unless.mp valid
  split at valid
  · cases valid
  rename_i product at_product
  split at valid
  · cases valid
  rename_i own
  simp only [Bool.or_eq_true,Bool.not_eq_true',not_or,Bool.not_eq_false] at closed
  exact ⟨vendor,product,found,closed.1,closed.2,at_product,not_not.mp own⟩

theorem createProduct_parts (ran : createProduct s userId dto = .ok s') :
    ∃ vendor, vendorByUser s.db userId = some vendor ∧ vendor.2.isActive = true ∧ vendor.2.isVerified = true ∧
      ∃ item, s' = (s.withDb (s.db.apply (s.db.inserts .product [⟨vendor.1,dto.categoryId⟩]))).setItem
        (s.db.seq .product) item := by
  simp only [createProduct] at ran
  split at ran
  · cases ran
  rename_i vendor found
  obtain ⟨closed,ran⟩ := handled_unless.mp ran
  simp only [Bool.or_eq_true,Bool.not_eq_true',not_or,Bool.not_eq_false] at closed
  obtain ⟨created,made,ended⟩ := handled_bind.mp ran
  cases pure_handled.mp ended
  obtain ⟨db,body,rfl⟩ := commit_ok made
  simp only [createTx] at body
  obtain ⟨category,_,looked,body⟩ := Tx.run_bind_ok.mp body
  rw [Tx.run_findUnique] at looked
  cases looked
  split at body
  · cases body
  obtain ⟨_,_,inserted,ended⟩ := Tx.run_bind_ok.mp body
  rw [Tx.run_create] at inserted
  cases inserted
  cases ended
  exact ⟨vendor,found,closed.1,closed.2,_,rfl⟩

-- A row with what the body gives.
def recategorized (dto : UpdateProductDto) (p : Product) : Product := {p with categoryId := dto.categoryId.join.getD p.categoryId}

theorem updateProduct_parts (ran : updateProduct s userId productId dto = .ok s') :
    (∃ vendor p, Owned s.db userId productId vendor p) ∧ ∃ item : ProductColumns → ProductColumns,
      (∀ old, (item old).name = dto.name.join.getD old.name ∧ (item old).isAvailable = dto.isAvailable.join.getD old.isAvailable) ∧
      s' = (s.withDb (s.db.apply (s.db.updates .product (fun i _ => i = productId) (recategorized dto)))).setItem
        productId item := by
  simp only [updateProduct] at ran
  obtain ⟨_,valid,ran⟩ := handled_bind.mp ran
  obtain ⟨name,named,ran⟩ := handled_bind.mp ran
  obtain ⟨categoryId,categorized,ran⟩ := handled_bind.mp ran
  obtain ⟨_,_,ran⟩ := handled_bind.mp ran
  obtain ⟨_,_,ran⟩ := handled_bind.mp ran
  obtain ⟨_,_,ran⟩ := handled_bind.mp ran
  obtain ⟨isAvailable,offered,ran⟩ := handled_bind.mp ran
  cases required_ok named
  cases required_ok categorized
  cases required_ok offered
  obtain ⟨written,updated,ended⟩ := handled_bind.mp ran
  cases pure_handled.mp ended
  obtain ⟨db,body,rfl⟩ := commit_ok updated
  simp only [updateTx] at body
  obtain ⟨known,_,selected,body⟩ := Tx.run_bind_ok.mp body
  rw [Tx.run_select] at selected
  cases selected
  split at body
  · cases body
  obtain ⟨same,_⟩ := update_parts body
  subst same
  exact ⟨validate_parts valid,_,fun _ => ⟨rfl,rfl⟩,rfl⟩

theorem updateProduct_restocked (ran : updateProduct s userId productId dto = .ok s') : Restocked (· = productId) s s' := by
  obtain ⟨_,item,_,rfl⟩ := updateProduct_parts ran
  refine restocked_trans (withDb_restocked (fun t other => Db.apply_updates_other _ other) ?_ ?_) (setItem_restocked rfl)
  · intro i other
    rw [Db.apply_updates]
    simp [other]
  · intro i p' found
    rw [Db.apply_updates] at found
    obtain ⟨p,before,rfl⟩ := Option.map_eq_some_iff.mp found
    refine ⟨p,before,?_⟩
    split <;> rfl

theorem deleteRows_restocked (ran : deleteRows s productId = .ok s') :
    Restocked (· = productId) s s' ∧ s'.db.rows .product productId = none := by
  obtain ⟨db,body,rfl⟩ := commit_ok ran
  have untagged : Restocked (· = productId) s (s.setTags productId fun _ _ => false) := setTags_restocked rfl
  have cleared : Restocked (· = productId) (s.setTags productId fun _ _ => false)
      (clearImages (s.setTags productId fun _ _ => false) fun _ image => image.productId = productId) :=
    clearImages_restocked fun _ _ hit => of_decide_eq_true hit
  simp only [deleteTx] at body
  obtain ⟨items,_,counted,body⟩ := Tx.run_bind_ok.mp body
  rw [Tx.run_count] at counted
  cases counted
  split at body
  · cases body
  obtain ⟨_,_,deleted,ended⟩ := Tx.run_bind_ok.mp body
  rw [Tx.run_deleteMany] at deleted
  cases deleted
  cases ended
  refine ⟨restocked_trans untagged (restocked_trans cleared (withDb_restocked ?_ ?_ ?_)),?_⟩
  · exact fun t other => Db.apply_deletes_other _ other
  · intro i other
    rw [Db.apply_deletes]
    exact Option.ext fun p => by simp [other]
  · intro i p found
    rw [Db.apply_deletes,Option.filter_eq_some_iff] at found
    exact ⟨p,found.1,rfl⟩
  · show (Db.apply _ _).rows Tab.product productId = none
    rw [Db.apply_deletes]
    simp

-- One product after another.
theorem deleteEach_restocked (products : List (Nat × Product)) {s s' : Site}
    (ran : products.foldlM (fun s entry => deleteRows s entry.1) s = .ok s') :
    Restocked (fun i => ∃ p, (i,p) ∈ products) s s' ∧ ∀ entry ∈ products, s'.db.rows .product entry.1 = none := by
  induction products generalizing s with
  | nil =>
    cases ran
    exact ⟨restocked_refl ..,nofun⟩
  | cons entry rest ih =>
    rw [List.foldlM_cons] at ran
    obtain ⟨middle,first,ran⟩ := handled_bind.mp ran
    obtain ⟨one,gone⟩ := deleteRows_restocked first
    obtain ⟨others,none⟩ := ih ran
    refine ⟨restocked_trans (restocked_wider ?_ one) (restocked_wider ?_ others),?_⟩
    · rintro i rfl
      exact ⟨entry.2,List.mem_cons_self⟩
    · rintro i ⟨p,member⟩
      exact ⟨p,List.mem_cons_of_mem _ member⟩
    · intro other member
      rcases List.mem_cons.mp member with rfl | later
      · cases left : s'.db.rows .product other.1 with
        | none => rfl
        | some p =>
          obtain ⟨_,before,_⟩ := others.vendor _ p left
          exact nomatch gone.symm.trans before
      · exact none other later

theorem deleteProduct_parts (ran : deleteProduct s userId productId = .ok s') :
    (∃ vendor p, Owned s.db userId productId vendor p) ∧ Restocked (· = productId) s s' ∧ s'.db.rows .product productId = none := by
  obtain ⟨_,valid,ran⟩ := handled_bind.mp ran
  exact ⟨validate_parts valid,deleteRows_restocked ran⟩

theorem addProductImage_parts (ran : addProductImage s userId productId dto = .ok s') :
    (∃ vendor p, Owned s.db userId productId vendor p) ∧
      s' = {s with images := s.images.apply (s.images.inserts () [⟨productId,dto.url,dto.altText⟩])} := by
  obtain ⟨_,valid,ended⟩ := handled_bind.mp ran
  cases pure_handled.mp ended
  exact ⟨validate_parts valid,rfl⟩

theorem addProductImage_restocked (ran : addProductImage s userId productId dto = .ok s') :
    Restocked (· = productId) s s' := by
  obtain ⟨_,rfl⟩ := addProductImage_parts ran
  refine images_restocked fun k img other => ?_
  rw [Db.apply_insert]
  by_cases new : k = s.images.seq ()
  · subst k
    rw [Function.update_self,Site.image,s.images.bounded () _ (Nat.le_refl _)]
    refine ⟨?_,nofun⟩
    intro same
    cases same
    exact absurd rfl other
  · rw [Function.update_of_ne new]
    rfl

theorem removeProductImage_parts (ran : removeProductImage s userId productId imageId = .ok s') :
    (∃ vendor p, Owned s.db userId productId vendor p) ∧
      s' = clearImages s fun i image => i = imageId ∧ image.productId = productId := by
  obtain ⟨_,valid,ended⟩ := handled_bind.mp ran
  cases pure_handled.mp ended
  exact ⟨validate_parts valid,rfl⟩

theorem clearProductImages_parts (ran : clearProductImages s userId productId = .ok s') :
    (∃ vendor p, Owned s.db userId productId vendor p) ∧ s' = clearImages s fun _ image => image.productId = productId := by
  obtain ⟨_,valid,ended⟩ := handled_bind.mp ran
  cases pure_handled.mp ended
  exact ⟨validate_parts valid,rfl⟩

theorem attachTags_parts (ran : attachTags s userId productId tagIds = .ok s') :
    (∃ vendor p, Owned s.db userId productId vendor p) ∧ (∀ id ∈ tagIds, s.tag id = true) ∧
      s' = touch (s.setTags productId fun tags id => tags id || tagIds.contains id) productId := by
  obtain ⟨_,valid,ran⟩ := handled_bind.mp ran
  obtain ⟨_,ran⟩ := handled_unless.mp ran
  obtain ⟨known,ended⟩ := handled_unless.mp ran
  cases pure_handled.mp ended
  refine ⟨validate_parts valid,?_,rfl⟩
  simpa using known

theorem detachTags_parts (ran : detachTags s userId productId tagIds = .ok s') :
    (∃ vendor p, Owned s.db userId productId vendor p) ∧
      s' = touch (s.setTags productId fun tags id => tags id && !tagIds.contains id) productId := by
  obtain ⟨_,valid,ran⟩ := handled_bind.mp ran
  obtain ⟨_,ended⟩ := handled_unless.mp ran
  cases pure_handled.mp ended
  exact ⟨validate_parts valid,rfl⟩

theorem removeAllTags_parts (ran : removeAllTags s userId productId = .ok s') :
    (∃ vendor p, Owned s.db userId productId vendor p) ∧ s' = touch (s.setTags productId fun _ _ => false) productId := by
  obtain ⟨_,valid,ended⟩ := handled_bind.mp ran
  cases pure_handled.mp ended
  exact ⟨validate_parts valid,rfl⟩

theorem touch_restocked (s : Site) (productId : Nat) (f : (Nat → Bool) → Nat → Bool) :
    Restocked (· = productId) s (touch (s.setTags productId f) productId) :=
  restocked_trans (setTags_restocked rfl) (setItem_restocked rfl)

end Writes
end ProductService

theorem deleteProfile_parts {s s' : Site} (ran : VendorService.deleteProfile s userId role = .ok s') :
    ∃ vendor cleared, vendorByUser s.db userId = some vendor ∧
      Restocked (fun i => ∃ p, s.db.rows .product i = some p ∧ p.vendorId = vendor.1) s cleared ∧
      (∀ i p, s.db.rows .product i = some p → p.vendorId = vendor.1 → cleared.db.rows .product i = none) ∧
      s' = cleared.withDb (cleared.db.apply
        (cleared.db.deletes .vendorProfile fun _ (p : VendorProfile) => p.userId = userId)) := by
  simp only [VendorService.deleteProfile] at ran
  split at ran
  · cases ran
  rename_i vendor found
  obtain ⟨_,ran⟩ := handled_unless.mp ran
  obtain ⟨cleared,products,ran⟩ := handled_bind.mp ran
  obtain ⟨restocked,gone⟩ := ProductService.deleteEach_restocked _ products
  refine ⟨vendor,cleared,found,restocked_wider ?_ restocked,?_,?_⟩
  · rintro i ⟨p,member⟩
    obtain ⟨at_product,hit⟩ := s.db.mem_matching.mp member
    exact ⟨p,at_product,of_decide_eq_true hit⟩
  · intro i p at_product own
    exact gone (i,p) (s.db.mem_matching.mpr ⟨at_product,decide_eq_true own⟩)
  obtain ⟨db,body,rfl⟩ := commit_ok ran
  simp only [VendorService.deleteTx] at body
  obtain ⟨orders,_,selected,body⟩ := Tx.run_bind_ok.mp body
  rw [Tx.run_select,Except.ok.injEq,Prod.mk.injEq] at selected
  obtain ⟨_,rfl⟩ := selected
  split at body
  · cases body
  obtain ⟨_,_,deleted,ended⟩ := Tx.run_bind_ok.mp body
  rw [Tx.run_deleteMany] at deleted
  cases deleted
  cases ended
  rfl

end MesyafMarket
