import MesyafMarket.DelivererRole
import MesyafMarket.WriteIsolation

namespace MesyafMarket
open Relational VendorService OrderService AdminService

def Trading (v : Database) (vendorId : Nat) : Prop :=
  ∃ p, v.rows .vendorProfile vendorId = some p ∧ p.isActive = true ∧ p.isVerified = true

-- The product that a request to the product service is about, if there is one yet.
def HttpRequest.about : HttpRequest → Option (Option Nat)
  | createProduct _ => some none
  | updateProduct productId _ | deleteProduct productId | addProductImage productId _ | deleteProductImage productId _
  | deleteAllProductImages productId | attachProductTags productId _ | detachProductTags productId _
  | removeAllProductTags productId => some (some productId)
  | _ => none

-- The caller's shop is open, and the product is one of its own.
def Keeper (v : Database) (userId : Nat) (about : Option Nat) : Prop :=
  ∃ vendor, vendorByUser v userId = some vendor ∧ vendor.2.isActive = true ∧ vendor.2.isVerified = true ∧
    ∀ productId, about = some productId → ∃ p, v.rows .product productId = some p ∧ p.vendorId = vendor.1

theorem keeper_trades {s : Site} (keeper : Keeper s.db userId about) (own : OwnProduct s userId p) :
    Trading s.db p.vendorId := by
  obtain ⟨vendor,found,active,verified,_⟩ := keeper
  rw [OwnProduct,found,Option.map_some,Option.some.injEq] at own
  rw [← own]
  exact ⟨vendor.2,(s.db.mem_matching.mp (List.mem_of_head? found)).1,active,verified⟩

-- What a request may leave of users, orders and the marks of verification.
structure Docile (v v' : Database) : Prop where
  user : ∀ i u, v'.rows .user i = some u → v.rows .user i = some u
  order : ∀ i o, v.rows .order i = none → v'.rows .order i = some o → Trading v o.vendorId
  verified : ∀ i p, v'.rows .vendorProfile i = some p → p.isVerified = true →
    ∃ q, v.rows .vendorProfile i = some q ∧ q.isVerified = true

theorem docile_of_verified {v v' : Database} (user : v'.rows .user = v.rows .user) (order : v'.rows .order = v.rows .order)
    (verified : ∀ i p, v'.rows .vendorProfile i = some p → p.isVerified = true →
      ∃ q, v.rows .vendorProfile i = some q ∧ q.isVerified = true) : Docile v v' := by
  refine ⟨fun i u found => ?_,fun i o fresh found => ?_,verified⟩
  · rw [user] at found; exact found
  · rw [order,fresh] at found; cases found

theorem docile_of_catalog {s s' : Site} (catalog : Catalog userId mine part s s')
    (verified : ∀ i p, s'.db.rows .vendorProfile i = some p → p.isVerified = true →
      ∃ q, s.db.rows .vendorProfile i = some q ∧ q.isVerified = true) : Docile s.db s'.db :=
  docile_of_verified (catalog.rows .user nofun nofun) (catalog.rows .order nofun nofun) verified

-- Whoever the writer is, another's profile is not written.
theorem profiles_of_catalog {s s' : Site} (catalog : ∀ writer, Catalog writer mine part s s') :
    s'.db.rows .vendorProfile = s.db.rows .vendorProfile := by
  have same : ∀ i p, s'.vendorProfile i = some p ↔ s.vendorProfile i = some p := fun i p =>
    (catalog (p.1.userId+1)).vendorProfile i p (by omega)
  funext i
  have row : s'.vendorProfile i = s.vendorProfile i := Option.ext fun p => by simpa using same i p
  have first := congrArg (Option.map Prod.fst) row
  simpa [Site.vendorProfile,Option.map_map,Function.comp_def] using first

theorem docile_catalog {s s' : Site} (catalog : ∀ writer, Catalog writer mine part s s') : Docile s.db s'.db := by
  refine docile_of_catalog (catalog 0) fun i p found verified => ⟨p,?_,verified⟩
  rw [← profiles_of_catalog catalog]; exact found

section Profiles
variable {s s' : Site}

theorem createProfile_verified (ran : VendorService.createProfile s userId dto = .ok s')
    (found : s'.db.rows .vendorProfile i = some p) (verified : p.isVerified = true) :
    ∃ q, s.db.rows .vendorProfile i = some q ∧ q.isVerified = true := by
  obtain ⟨new,shop,_,unverified,rfl⟩ := createProfile_parts ran
  simp only [Site.withDb,Site.db,Db.apply_insert] at found
  rcases update_some found with ⟨_,rfl⟩ | ⟨_,before⟩
  · rw [unverified] at verified; cases verified
  · exact ⟨p,before,verified⟩

theorem updates_verified {v : Database} {P : Nat → VendorProfile → Bool} {f : VendorProfile → VendorProfile}
    (lowers : ∀ p, (f p).isVerified = true → p.isVerified = true)
    (found : (v.apply (v.updates .vendorProfile P f)).rows .vendorProfile i = some p) (verified : p.isVerified = true) :
    ∃ q, v.rows .vendorProfile i = some q ∧ q.isVerified = true := by
  rw [Db.apply_updates] at found
  obtain ⟨q,before,after⟩ := Option.map_eq_some_iff.mp found
  refine ⟨q,before,?_⟩
  split at after
  · subst after
    exact lowers q verified
  · rw [after]; exact verified

theorem updateProfile_verified (ran : VendorService.updateProfile s userId dto = .ok s')
    (found : s'.db.rows .vendorProfile i = some p) (verified : p.isVerified = true) :
    ∃ q, s.db.rows .vendorProfile i = some q ∧ q.isVerified = true := by
  simp only [VendorService.updateProfile] at ran
  obtain ⟨_,ran⟩ := handled_unless.mp ran
  obtain ⟨_,_,ran⟩ := handled_bind.mp ran
  obtain ⟨written,updated,ended⟩ := handled_bind.mp ran
  cases pure_handled.mp ended
  obtain ⟨db,body,rfl⟩ := commit_ok updated
  obtain ⟨rfl,_⟩ := update_parts body
  exact updates_verified (by exact fun _ kept => kept) found verified

theorem updateVendor_verified {f : VendorProfile → VendorProfile} (lowers : ∀ p, (f p).isVerified = true → p.isVerified = true)
    (ran : s.commit (updateVendor userId f) = .ok s') (found : s'.db.rows .vendorProfile i = some p)
    (verified : p.isVerified = true) : ∃ q, s.db.rows .vendorProfile i = some q ∧ q.isVerified = true := by
  obtain ⟨db,body,rfl⟩ := commit_ok ran
  obtain ⟨rfl,_⟩ := update_parts body
  exact updates_verified lowers found verified

theorem toggleProfile_verified (ran : VendorService.toggleProfile s userId isActive role = .ok s')
    (found : s'.db.rows .vendorProfile i = some p) (verified : p.isVerified = true) :
    ∃ q, s.db.rows .vendorProfile i = some q ∧ q.isVerified = true := by
  simp only [VendorService.toggleProfile] at ran
  split at ran
  · cases ran
  obtain ⟨_,ran⟩ := handled_unless.mp ran
  obtain ⟨active,_,ran⟩ := handled_bind.mp ran
  obtain ⟨written,updated,ended⟩ := handled_bind.mp ran
  cases pure_handled.mp ended
  exact updateVendor_verified (by exact fun _ kept => kept) updated found verified

theorem request_verified (ran : VendorService.requestPromotionOrReactivation s userId role = .ok s')
    (found : s'.db.rows .vendorProfile i = some p) (verified : p.isVerified = true) :
    ∃ q, s.db.rows .vendorProfile i = some q ∧ q.isVerified = true := by
  simp only [VendorService.requestPromotionOrReactivation] at ran
  split at ran
  · cases ran
  split at ran
  · obtain ⟨_,ran⟩ := handled_unless.mp ran
    obtain ⟨written,updated,ended⟩ := handled_bind.mp ran
    cases pure_handled.mp ended
    exact updateVendor_verified (by exact fun _ off => by cases off) updated found verified
  split at ran
  · obtain ⟨written,updated,ended⟩ := handled_bind.mp ran
    cases pure_handled.mp ended
    exact updateVendor_verified (by exact fun _ kept => kept) updated found verified
  · cases ran

theorem deleteProfile_verified (ran : VendorService.deleteProfile s userId role = .ok s')
    (found : s'.db.rows .vendorProfile i = some p) (verified : p.isVerified = true) :
    ∃ q, s.db.rows .vendorProfile i = some q ∧ q.isVerified = true := by
  obtain ⟨vendor,cleared,_,restocked,_,rfl⟩ := deleteProfile_parts ran
  simp only [Site.withDb,Site.db,Db.apply_deletes,Option.filter_eq_some_iff] at found
  have same := restocked.rows .vendorProfile (by decide)
  exact ⟨p,by rw [← same]; exact found.1,verified⟩

-- A product is created or changed for a shop that is open.
theorem validate_keeper (valid : ProductService.validateOwnershipAndGetProduct s userId productId = .ok ()) :
    Keeper s.db userId (some productId) := by
  obtain ⟨vendor,p,owned⟩ := ProductService.validate_parts valid
  refine ⟨vendor,owned.shop,owned.active,owned.verified,?_⟩
  intro k same
  cases same
  exact ⟨p,owned.product,owned.own⟩

theorem createProduct_keeper (ran : ProductService.createProduct s userId dto = .ok s') : Keeper s.db userId none := by
  obtain ⟨vendor,found,active,verified,_⟩ := ProductService.createProduct_parts ran
  exact ⟨vendor,found,active,verified,nofun⟩

theorem remove_parts {compare : String → String → Bool} {id : Option Nat} {user : AuthenticatedUser}
    (ran : UsersService.remove compare s id user password = .ok s') :
    ∃ userId, s' = s.withDb (s.db.apply (s.db.deletes .user fun i _ => i = userId)) := by
  have deletes : ∀ userId, s.commit (UsersService.deleteTx userId) = .ok s' →
      s' = s.withDb (s.db.apply (s.db.deletes .user fun i _ => i = userId)) := by
    intro userId done
    obtain ⟨db,body,rfl⟩ := commit_ok done
    simp only [UsersService.deleteTx] at body
    obtain ⟨user,_,looked,body⟩ := Tx.run_bind_ok.mp body
    rw [Tx.run_findUnique] at looked
    cases looked
    obtain ⟨held,_,selected,body⟩ := Tx.run_bind_ok.mp body
    rw [Tx.run_select] at selected
    cases selected
    split at body
    · cases body
    split at body
    · cases body
    obtain ⟨_,_,deleted,ended⟩ := Tx.run_bind_ok.mp body
    rw [Tx.run_deleteMany] at deleted
    cases deleted
    cases ended
    rfl
  simp only [UsersService.remove] at ran
  obtain ⟨_,ran⟩ := handled_unless.mp ran
  obtain ⟨userId,_,ran⟩ := handled_bind.mp ran
  split at ran
  · obtain ⟨_,ran⟩ := handled_unless.mp ran
    split at ran
    · cases ran
    obtain ⟨_,ran⟩ := handled_unless.mp ran
    exact ⟨userId,deletes userId ran⟩
  · exact ⟨userId,deletes userId ran⟩

end Profiles

-- What a handler has made of the site.
structure Attended (s : Site) (userId : Nat) (request : HttpRequest) (s' : Site) : Prop where
  docile : Docile s.db s'.db
  product : request ≠ .deleteProfile → ∀ i p, ¬(s'.product i = some p ↔ s.product i = some p) → Trading s.db p.1.vendorId
  keeper : ∀ about, request.about = some about → Keeper s.db userId about

theorem served_profile {s s' : Site} (catalog : Catalog userId (fun _ => False) (fun _ => False) s s')
    (verified : ∀ i p, s'.db.rows .vendorProfile i = some p → p.isVerified = true →
      ∃ q, s.db.rows .vendorProfile i = some q ∧ q.isVerified = true) (other : request.about = none) :
    Attended s userId request s' where
  docile := docile_of_catalog catalog verified
  product _ i p differs := absurd (catalog.product i p id) differs
  keeper about same := nomatch other.symm.trans same

theorem served_product {s s' : Site} (catalog : ∀ writer, Catalog writer (OwnProduct s userId) (OwnProductId s userId) s s')
    (keeper : Keeper s.db userId about) (same : request.about = some about) : Attended s userId request s' where
  docile := docile_catalog catalog
  product _ i p differs := by
    by_contra closed
    exact differs ((catalog 0).product i p fun own => closed (keeper_trades keeper own))
  keeper other again := by
    cases same.symm.trans again
    exact keeper

theorem left_served {compare : String → String → Bool} {s s' : Site}
    (handled : HttpRequest.handle compare s (.carrying payload) request = .ok (.left s')) :
    Attended s payload.sub request s' := by
  cases request
  case read => cases handled; exact served_profile (catalog_refl ..) (fun _ p found verified => ⟨p,found,verified⟩) rfl
  all_goals (simp only [HttpRequest.handle] at handled; obtain ⟨found,ran,same⟩ := map_handled handled; cases same)
  case updateMyProfile => exact absurd ran (updateMyProfile_fails payload)
  case remove id password =>
    simp only [UsersController.remove] at ran
    obtain ⟨req,_,ran⟩ := handled_bind.mp ran
    obtain ⟨user,_,ran⟩ := handled_bind.mp ran
    obtain ⟨userId,rfl⟩ := remove_parts ran
    have aside : ∀ t, t ≠ .user →
        (s.withDb (s.db.apply (s.db.deletes .user fun i _ => i = userId))).db.rows t = s.db.rows t :=
      fun t other => Db.apply_deletes_other _ other
    refine ⟨⟨?_,?_,?_⟩,?_,(fun _ no => by cases no)⟩
    · intro i u found
      simp only [Site.withDb,Site.db,Db.apply_deletes,Option.filter_eq_some_iff] at found
      exact found.1
    · intro i o fresh found
      rw [aside .order (by decide),fresh] at found; cases found
    · intro i p found verified
      rw [aside .vendorProfile (by decide)] at found
      exact ⟨p,found,verified⟩
    · intro _ i p differs
      refine absurd ?_ differs
      simp only [Site.product,aside .product (by decide)]
      exact .rfl
  case requestPromotionOrReactivation target =>
    simp only [VendorController.requestPromotionOrReactivation] at ran
    obtain ⟨req,_,ran⟩ := handled_bind.mp ran
    obtain ⟨user,_,ran⟩ := handled_bind.mp ran
    have served : Attended s target (.requestPromotionOrReactivation target) s' :=
      served_profile ((request_parts ran).2 _ _) (fun _ _ => request_verified ran) rfl
    exact ⟨served.docile,served.product,(fun _ no => by cases no)⟩
  case deleteProfile =>
    simp only [VendorController.deleteProfile] at ran
    obtain ⟨id,_,ran⟩ := handled_bind.mp ran
    obtain ⟨req,_,ran⟩ := handled_bind.mp ran
    obtain ⟨user,_,ran⟩ := handled_bind.mp ran
    exact ⟨docile_of_catalog (deleteProfile_catalog ran) fun _ _ => deleteProfile_verified ran,
      fun other => absurd rfl other,(fun _ no => by cases no)⟩
  case toggleProfile isActive =>
    simp only [VendorController.toggleProfile] at ran
    obtain ⟨id,guarded,ran⟩ := handled_bind.mp ran
    cases guardedId_ok guarded
    obtain ⟨req,_,ran⟩ := handled_bind.mp ran
    obtain ⟨user,_,ran⟩ := handled_bind.mp ran
    exact served_profile (toggleProfile_catalog ran) (fun _ _ => toggleProfile_verified ran) rfl
  all_goals (obtain ⟨id,guarded,ran⟩ := handled_bind.mp ran; cases guardedId_ok guarded)
  case createVendorProfile => exact served_profile (createProfile_catalog ran) (fun _ _ => createProfile_verified ran) rfl
  case updateProfile => exact served_profile (updateProfile_catalog ran) (fun _ _ => updateProfile_verified ran) rfl
  case createProduct =>
    exact served_product (fun _ => ProductService.createProduct_catalog ran) (createProduct_keeper ran) rfl
  all_goals (have keeper := validate_keeper (handled_bind.mp ran).choose_spec.1; refine served_product (fun _ => ?_) keeper rfl)
  case updateProduct => exact ProductService.updateProduct_catalog ran
  case deleteProduct => exact ProductService.deleteProduct_catalog ran
  case addProductImage => exact ProductService.addProductImage_catalog ran
  case deleteProductImage => exact ProductService.removeProductImage_catalog ran
  case deleteAllProductImages => exact ProductService.clearProductImages_catalog ran
  case attachProductTags => exact ProductService.attachTags_catalog ran
  case detachProductTags => exact ProductService.detachTags_catalog ran
  case removeAllProductTags => exact ProductService.removeAllTags_catalog ran

-- Without a token nothing is called and nothing is left but what was there.
theorem unsigned_left {compare : String → String → Bool} {s : Site} {request : HttpRequest}
    (handled : request.handle compare s ⟨none,none⟩ = .ok outcome) : outcome = .left s := by
  cases request with
  | read handler => cases handled; rfl
  | _ => cases handled

-- What the services of the market that a request may call have done so far.
structure Placed (v db : Database) : Prop extends Docile v db where
  vendorProfile : db.rows .vendorProfile = v.rows .vendorProfile
  product : db.rows .product = v.rows .product

-- Where they are: an order is only placed with a shop that is open.
def Placing (v : Database) : Proc → Database → Prop
  | .insertOrder _ vendorId _ _,db => Trading v vendorId ∧ Placed v db
  | .closeBatch _ caller,db | .queueAssignment _ caller,db => caller.Direct ∧ Placed v db
  | .createOrder .. ,db | .notifyNewOrder ..,db | .vendorMarkReady ..,db | .readReadyOrder ..,db | .claimReady ..,db
  | .scheduleBatchTimeout ..,db | .notifyReady ..,db | .updateProfile ..,db | .writeProfile ..,db
  | .returned _,db => Placed v db
  | _,_ => False

section Calls
variable {v db db' : Database}

theorem placed_refl (v : Database) : Placed v v where
  toDocile := docile_of_verified rfl rfl fun _ p found verified => ⟨p,found,verified⟩
  vendorProfile := rfl
  product := rfl

theorem placed_next (placed : Placed v db) (rows : ∀ t, t = .vendorProfile ∨ t = .product ∨ t = .user → db'.rows t = db.rows t)
    (order : ∀ i o, db'.rows .order i = some o → (∃ p, db.rows .order i = some p ∧ p.vendorId = o.vendorId) ∨
      Trading v o.vendorId) : Placed v db' where
  user i u found := placed.user i u (by rw [← rows .user (by simp)]; exact found)
  order i o fresh found := by
    rcases order i o found with ⟨p,before,same⟩ | serving
    · rw [← same]; exact placed.order i p fresh before
    · exact serving
  verified i p found := placed.verified i p (by rw [← rows .vendorProfile (by simp)]; exact found)
  vendorProfile := (rows .vendorProfile (by simp)).trans placed.vendorProfile
  product := (rows .product (by simp)).trans placed.product

theorem placing_placed (placing : Placing v x db) : Placed v db := by
  cases x <;> simp only [Placing] at placing
  case insertOrder => exact placing.2
  case closeBatch => exact placing.2
  case queueAssignment => exact placing.2
  all_goals exact placing

theorem closed_placing (direct : CloseCaller.Direct caller) (placed : Placed v db) : Placing v (.closed caller) db := by
  cases caller with
  | expired rest => cases direct
  | markReady | timer => exact placed

theorem afterBatching_placing (placed : Placed v db) : Placing v (.afterBatching outcome c o) db := by
  unfold Proc.afterBatching
  split
  · exact ⟨trivial,placed⟩
  · exact placed

theorem caught_placing (placing : Placing v x db) (e : Err) : Placing v (x.caught e) db := by
  have placed := placing_placed placing
  cases x <;> simp only [Placing] at placing
  case closeBatch b caller =>
    cases caller with
    | expired rest => cases placing.1
    | markReady | timer => exact placed
  case queueAssignment b caller =>
    cases caller with
    | expired rest => cases placing.1
    | markReady | timer => exact placed
  all_goals exact placed

theorem query_placing {env : Env} {read : Database → Proc} (placing : Placing v x db)
    (at_query : Proc.next env x = .query read) : Placing v (read db) db := by
  have placed := placing_placed placing
  cases x <;> simp only [Placing] at placing
  case createOrder dto vendorId c =>
    cases at_query
    beta_reduce
    unfold Proc.vendorOfOrder
    split
    · exact placed
    rename_i vendor found
    split
    · exact placed
    rename_i closed
    simp only [Bool.or_eq_true,Bool.not_eq_true',not_or,Bool.not_eq_false] at closed
    rw [placed.vendorProfile] at found
    exact ⟨⟨vendor,found,closed.1,closed.2⟩,placed⟩
  case vendorMarkReady => cases at_query; exact placed
  case readReadyOrder =>
    cases at_query
    beta_reduce
    unfold Proc.readyOrder
    split
    · exact placed
    split <;> exact placed
  case updateProfile =>
    cases at_query
    beta_reduce
    split <;> exact placed
  all_goals cases at_query

theorem createOrder_placed (placed : Placed v db) (trading : Trading v vendorId)
    (ran : (createOrderTx dto vendorId c vendor).run db = .ok (o,db')) : Placed v db' := by
  obtain ⟨_,result⟩ := createOrderTx_parts ran
  refine placed_next placed ?_ ?_
  · rintro t (rfl | rfl | rfl)
    · exact (confined_run createOrderTx_uncatalogued ran (by decide)).1
    · exact (confined_run createOrderTx_uncatalogued ran (by decide)).1
    · exact congrArg Dispatch.user result
  · intro i p found
    have orders : db'.rows .order = Function.update (db.rows .order) o _ := congrArg Dispatch.order result
    rw [orders] at found
    rcases update_some found with ⟨_,rfl⟩ | ⟨_,before⟩
    · exact .inr trading
    · exact .inl ⟨p,before,rfl⟩

theorem markReady_placed {env : Env} (placed : Placed v db)
    (ran : (vendorMarkReadyTx env o orderType).run db = .ok (outcome,db')) : Placed v db' := by
  obtain ⟨r,at_order,_,parts⟩ := vendorMarkReadyTx_parts ran
  have joins : db'.rows .order = Function.update (db.rows .order) o
      (some (joined outcome.batchId (readied orderType db.clock r))) := by
    rcases parts with ⟨b,k,close,_,_,rfl,result⟩ | ⟨b,_,rfl,result⟩ <;> exact congrArg Dispatch.order result
  have users : db'.rows .user = db.rows .user := by
    rcases parts with ⟨b,k,close,_,_,_,result⟩ | ⟨b,_,_,result⟩ <;> exact congrArg Dispatch.user result
  refine placed_next placed ?_ ?_
  · rintro t (rfl | rfl | rfl)
    · exact (confined_run vendorMarkReadyTx_uncatalogued ran (by decide)).1
    · exact (confined_run vendorMarkReadyTx_uncatalogued ran (by decide)).1
    · exact users
  · intro i p found
    rw [joins] at found
    rcases update_some found with ⟨rfl,rfl⟩ | ⟨_,before⟩
    · exact .inl ⟨r,at_order,rfl⟩
    · exact .inl ⟨p,before,rfl⟩

-- A transaction on one table, which is none of those that matter here.
theorem confined_placed {body : Transaction α} (placed : Placed v db) (within : Confined (· = t) body)
    (ran : body.run db = .ok (a,db')) (aside : t ≠ .vendorProfile ∧ t ≠ .product ∧ t ≠ .user ∧ t ≠ .order) : Placed v db' := by
  have same : ∀ k, k ≠ t → db'.rows k = db.rows k := fun k other => (confined_run within ran other).1
  refine placed_next placed ?_ fun i o found => .inl ⟨o,?_,rfl⟩
  · rintro k (rfl | rfl | rfl)
    · exact same _ aside.1.symm
    · exact same _ aside.2.1.symm
    · exact same _ aside.2.2.1.symm
  · rw [← same _ aside.2.2.2.symm]; exact found

theorem commit_placing {env : Env} (placing : Placing v x db) (at_tx : Proc.next env x = .tx body)
    (ran : body.run db = .ok (y,db')) : Placing v y db' := by
  cases x <;> simp only [Placing] at placing
  case insertOrder dto vendorId c vendor =>
    cases at_tx
    obtain ⟨o,_,created,ended⟩ := Tx.run_bind_ok.mp ran
    cases ended
    exact createOrder_placed placing.2 placing.1 created
  case claimReady o c orderType =>
    cases at_tx
    obtain ⟨outcome,_,marked,ended⟩ := Tx.run_bind_ok.mp ran
    cases ended
    have placed := markReady_placed placing marked
    split
    · exact placed
    · exact afterBatching_placing placed
  case closeBatch b caller =>
    cases at_tx
    obtain ⟨count,_,closed,ended⟩ := Tx.run_bind_ok.mp ran
    cases ended
    have placed := confined_placed placing.2 (t := .deliveryBatch) (confined_updateMany rfl) closed (by decide)
    split
    · exact closed_placing placing.1 placed
    · exact ⟨placing.1,placed⟩
  case writeProfile u data =>
    cases at_tx
    obtain ⟨_,_,written,ended⟩ := Tx.run_bind_ok.mp ran
    cases ended
    exact confined_placed placing (t := .delivererProfile) (confined_update rfl) written (by decide)
  all_goals cases at_tx

theorem placing_step {env : Env} (x y : Proc) (db db' : Database) (placing : Placing v x db)
    (flows : Flows (market env) db db' x y) : Placing v y db' := by
  have placed := placing_placed placing
  cases flows with
  | caught still => subst still; exact caught_placing placing _
  | query at_query still => subst still; exact query_placing placing at_query
  | commit at_tx ran => exact commit_placing placing at_tx ran
  | input at_input still =>
    cases x <;> simp only [Placing] at placing <;> cases at_input
  | add at_add still =>
    subst still
    cases x <;> simp only [Placing] at placing
    case scheduleBatchTimeout outcome c o =>
      cases at_add
      exact afterBatching_placing placing
    case queueAssignment b caller =>
      cases at_add
      exact closed_placing placing.1 placing.2
    all_goals cases at_add
  | emit at_emit still =>
    subst still
    cases x <;> simp only [Placing] at placing <;> cases at_emit <;> exact placed

theorem called_placing {compare : String → String → Bool} {s : Site}
    (handled : HttpRequest.handle compare s (.carrying payload) request = .ok (.calls x)) : Placing s.db x s.db := by
  cases request
  case read => cases handled
  all_goals (simp only [HttpRequest.handle] at handled; obtain ⟨found,ran,same⟩ := map_handled handled; cases same)
  case vendorAcceptOrder orderId => cases (decided_fails .vendorAcceptOrder payload orderId).symm.trans ran
  case vendorRejectOrder orderId => cases (decided_fails .vendorRejectOrder payload orderId).symm.trans ran
  case createOrder vendorId dto => cases ran; exact placed_refl _
  case markOrderReady orderId =>
    obtain ⟨id,_,ended⟩ := handled_bind.mp ran
    cases ended
    exact placed_refl _
  case testBatch batchId =>
    cases batchId with
    | none => cases ran
    | some b => cases ran; exact ⟨trivial,placed_refl _⟩
  case updateMyDelivererProfile dto =>
    obtain ⟨id,_,ended⟩ := handled_bind.mp ran
    cases ended
    exact placed_refl _

theorem calls_served {env : Env} {compare : String → String → Bool} {s : Site}
    (handled : HttpRequest.handle compare s (.carrying payload) request = .ok (.calls x))
    (path : Reached (market env) (OwnSteps s.market.spawned) (s.market.start x) w) :
    Placed s.db w.db := by
  obtain ⟨y,_,placing⟩ := alone_reached placing_step (start_threads s.market) (called_placing handled) path
  exact placing_placed placing

end Calls

inductive ShopDecision where
  | created | approved | rejected | suspended | demoted | deleted
  deriving DecidableEq

-- What the first write of an admin's call makes of a profile.
def AdminRequest.ruling (v : Database) (i : Nat) (p : VendorProfile) : AdminRequest → Option ShopDecision
  | .approveVendorPromotion vendorId approve _ =>
    if i = vendorId then some (if Json.truthy approve then .approved else .rejected) else none
  | .suspendVendor vendorId _ => if i = vendorId then some .suspended else none
  | .updateUserRole id role _ =>
    if p.userId = id ∧ (v.rows .user id).map User.role = some .vendor ∧ isRole .customer role then some .demoted
    else none
  | _ => none

-- What an admin's call decides about a profile: the profile of a vendor who becomes a
-- customer is demoted, in whatever form the body has the role.
def AdminRequest.verdict (v : Database) (i : Nat) (p : VendorProfile) : AdminRequest → Option ShopDecision
  | .updateUserRole id role _ =>
    if p.userId = id ∧ (v.rows .user id).map User.role = some .vendor ∧ roleOf role = .ok (some .customer) then
      some .demoted
    else none
  | request => request.ruling v i p

-- A profile is verified by a decision, or has been before it.
def Vouched (verdict : Option ShopDecision) (before after : VendorProfile) : Prop := after.isVerified = true →
  match verdict with
  | some decision => decision = .approved
  | none => before.isVerified = true

-- What an admin's call leaves: roles apart, it decides about profiles that there are.
structure Supervised (verdict : Nat → VendorProfile → Option ShopDecision) (r r' : Records) : Prop where
  user : ∀ i, r.db.rows .user i = none → r'.db.rows .user i = none
  order : ∀ i, r.db.rows .order i = none → r'.db.rows .order i = none
  product : r'.site.product = r.site.product
  absent : ∀ i, r.db.rows .vendorProfile i = none → r'.db.rows .vendorProfile i = none
  present : ∀ i p, r.db.rows .vendorProfile i = some p →
    ∃ p', r'.db.rows .vendorProfile i = some p' ∧ Vouched (verdict i p) p p'

abbrev Unjudged : Records → Records → Prop := Supervised fun _ _ => none

section Admins
variable {r r' : Records} {fault : Option Nat} {verdict : Nat → VendorProfile → Option ShopDecision}

theorem unjudged_refl (r : Records) : Unjudged r r :=
  ⟨fun _ => id,fun _ => id,rfl,fun _ => id,fun _ p found => ⟨p,found,id⟩⟩

theorem supervised_trans (first : Supervised verdict r middle) (second : Unjudged middle r') : Supervised verdict r r' where
  user i fresh := second.user i (first.user i fresh)
  order i fresh := second.order i (first.order i fresh)
  product := second.product.trans first.product
  absent i gone := second.absent i (first.absent i gone)
  present i p found := by
    obtain ⟨q,between,vouched⟩ := first.present i p found
    obtain ⟨p',after,kept⟩ := second.present i q between
    exact ⟨p',after,fun verified => vouched (kept verified)⟩

theorem supervised_congr {other : Nat → VendorProfile → Option ShopDecision} (supervised : Supervised verdict r r')
    (same : ∀ i p, r.db.rows .vendorProfile i = some p → other i p = verdict i p) : Supervised other r r' where
  user := supervised.user
  order := supervised.order
  product := supervised.product
  absent := supervised.absent
  present i p found := by
    rw [same i p found]
    exact supervised.present i p found

-- Its first write decides, the others leave the profiles alone.
theorem supervised_write {body : Records → Except Failure Records} {next : Call α}
    (first : ∀ s', body r = .ok s' → Supervised verdict r s') (rest : ∀ s', body r = .ok s' → next.Always (Unjudged s') s') :
    Supervised (fun i p => if 0 < (Script.write body next).writes fault r then verdict i p else none) r
      ((Script.write body next).left fault r) := by
  rcases Script.write_cases body next fault r with ⟨_,left,count⟩ | ⟨s',_,ran,left,count⟩
  · rw [left]
    simp only [count,Nat.lt_irrefl,if_false]
    exact unjudged_refl r
  · rw [left]
    simp only [count,Nat.zero_lt_succ,if_true]
    exact supervised_trans (first s' ran) (Script.always_iff.mp (rest s' ran) _)

theorem unjudged_of_rows (rows : ∀ t, t = .vendorProfile ∨ t = .product → r'.db.rows t = r.db.rows t)
    (user : ∀ i, r.db.rows .user i = none → r'.db.rows .user i = none)
    (order : ∀ i, r.db.rows .order i = none → r'.db.rows .order i = none) (item : r'.site.item = r.site.item) :
    Unjudged r r' where
  user := user
  order := order
  product := by
    funext i
    have products : r'.site.db.rows .product = r.site.db.rows .product := rows .product (.inr rfl)
    simp only [Site.product,products,item]
  absent i gone := by rw [rows .vendorProfile (.inl rfl)]; exact gone
  present i p found := ⟨p,by rw [rows .vendorProfile (.inl rfl)]; exact found,id⟩

theorem writeRole_unjudged (ran : writeRole userId role r = .ok r') : Unjudged r r' := by
  obtain ⟨u,at_user,after⟩ := writeRole_parts ran
  obtain ⟨site,done,rfl⟩ := write_ok ran
  obtain ⟨written,updated,ended⟩ := handled_bind.mp done
  cases pure_handled.mp ended
  obtain ⟨db,body,rfl⟩ := commit_ok updated
  have others : ∀ t, t ≠ .user → db.rows t = r.db.rows t := fun t other =>
    (confined_run (confined_update (T := (· = .user)) rfl) body other).1
  refine unjudged_of_rows ?_ ?_ ?_ rfl
  · rintro t (rfl | rfl)
    · exact others _ nofun
    · exact others _ nofun
  · intro i fresh
    have users := congrFun (congrArg Dispatch.user after) i
    dsimp only at users
    have apart : i ≠ userId := by
      rintro rfl
      exact nomatch fresh.symm.trans at_user
    rw [Function.update_of_ne apart] at users
    exact users.trans fresh
  · intro i fresh
    exact (congrFun (others .order nofun) i).trans fresh

theorem createDeliverer_unjudged (ran : createDeliverer userId r = .ok r') : Unjudged r r' := by
  obtain ⟨created,made,ended⟩ := handled_bind.mp ran
  cases pure_handled.mp ended
  obtain ⟨site,done,rfl⟩ := write_ok made
  obtain ⟨db,body,rfl⟩ := commit_ok done
  have within : Confined (· = .delivererProfile) (createProfileTx userId) := by
    refine confined_bind confined_select fun found => confined_bind (fun v => ⟨fun _ _ => ⟨fun _ => rfl,rfl⟩,trivial⟩) fun user => ?_
    split
    · trivial
    split
    · trivial
    exact confined_bind (confined_create rfl) fun _ => trivial
  have others : ∀ t, t ≠ .delivererProfile → db.rows t = r.db.rows t := fun t other => (confined_run within body other).1
  refine unjudged_of_rows ?_ ?_ ?_ rfl
  · rintro t (rfl | rfl)
    · exact others _ nofun
    · exact others _ nofun
  · intro i fresh
    exact (congrFun (others .user nofun) i).trans fresh
  · intro i fresh
    exact (congrFun (others .order nofun) i).trans fresh

theorem deleteDeliverer_unjudged (ran : (r.write fun s => s.commit (deleteProfileTx userId)) = .ok r') : Unjudged r r' := by
  obtain ⟨site,done,rfl⟩ := write_ok ran
  obtain ⟨db,body,rfl⟩ := commit_ok done
  obtain ⟨d,p,_,_,after⟩ := deleteProfileTx_parts body
  have within : Confined (· ∈ [Tab.deliveryJob,.deliveryBatch,.order,.delivererProfile]) (deleteProfileTx userId) := by
    refine confined_bind confined_select fun found => ?_
    split
    · trivial
    refine confined_bind ?_ fun _ => confined_bind (confined_deleteMany (by decide)) fun _ => trivial
    refine confined_bind (confined_updateMany (by decide)) fun _ => ?_
    refine confined_bind (confined_updateMany (by decide)) fun _ => ?_
    exact confined_bind (confined_updateMany (by decide)) fun _ => trivial
  refine unjudged_of_rows ?_ ?_ ?_ rfl
  · rintro t (rfl | rfl)
    · exact (confined_run within body (by decide)).1
    · exact (confined_run within body (by decide)).1
  · intro i fresh
    have users : db.rows .user = r.db.rows .user := (confined_run within body (by decide)).1
    exact (congrFun users i).trans fresh
  · intro i fresh
    have orders : db.rows .order = ((dispatch r.db).forget d).order := congrArg Dispatch.order after
    have before : (dispatch r.db).order i = none := fresh
    show db.rows .order i = none
    rw [orders]
    simp only [Dispatch.forget,rewritten,before,Option.map_none]

-- An update of the profiles that `P` picks.
theorem supervised_update {db : Database} {P : Nat → VendorProfile → Bool} {f : VendorProfile → VendorProfile}
    (same : db = r.db.apply (r.db.updates .vendorProfile P f)) (after : r'.db = db) (item : r'.site.item = r.site.item)
    (picked : ∀ i p, r.db.rows .vendorProfile i = some p → P i p = true → Vouched (verdict i p) p (f p))
    (others : ∀ i p, r.db.rows .vendorProfile i = some p → P i p = false → verdict i p = none) :
    Supervised verdict r r' := by
  have rest : ∀ t, t ≠ .vendorProfile → r'.db.rows t = r.db.rows t := by
    intro t other
    rw [after,same]
    exact Db.apply_updates_other _ other
  have rows : ∀ i, r'.db.rows .vendorProfile i =
      (r.db.rows .vendorProfile i).map fun p => if P i p then f p else p := by
    intro i
    rw [after,same,Db.apply_updates]
  refine ⟨?_,?_,?_,?_,?_⟩
  · intro i fresh
    rw [rest .user nofun]; exact fresh
  · intro i fresh
    rw [rest .order nofun]; exact fresh
  · funext i
    have products : r'.site.db.rows .product = r.site.db.rows .product := rest .product nofun
    simp only [Site.product,products,item]
  · intro i gone
    rw [rows,gone]; rfl
  · intro i p found
    refine ⟨if P i p then f p else p,by rw [rows,found]; rfl,?_⟩
    cases hit : P i p with
    | true => exact picked i p found hit
    | false =>
      rw [others i p found hit]
      exact id

theorem demoteVendor_supervised (ran : demoteVendor userId reason r = .ok r')
    (decided : ∀ i p, r.db.rows .vendorProfile i = some p → p.userId ≠ userId → verdict i p = none) :
    Supervised verdict r r' := by
  obtain ⟨site,done,rfl⟩ := write_ok ran
  obtain ⟨text,_,done⟩ := handled_bind.mp done
  obtain ⟨written,updated,ended⟩ := handled_bind.mp done
  cases pure_handled.mp ended
  obtain ⟨db,body,rfl⟩ := commit_ok updated
  refine supervised_update (update_parts body).1 rfl rfl (fun _ _ _ _ => ?_) ?_
  · intro verified; cases verified
  · intro i p found other
    exact decided i p found (of_decide_eq_false other)

theorem writeVendor_supervised (ran : writeVendor vendorId f g r = .ok r')
    (picked : ∀ p, r.db.rows .vendorProfile vendorId = some p → Vouched (verdict vendorId p) p (f p))
    (others : ∀ i p, i ≠ vendorId → verdict i p = none) : Supervised verdict r r' := by
  obtain ⟨site,done,rfl⟩ := write_ok ran
  obtain ⟨written,updated,ended⟩ := handled_bind.mp done
  cases pure_handled.mp ended
  obtain ⟨db,body,rfl⟩ := commit_ok updated
  refine supervised_update (update_parts body).1 rfl rfl ?_ ?_
  · intro i p found hit
    have same : i = vendorId := of_decide_eq_true hit
    subst same
    exact picked p found
  · intro i p _ other
    exact others i p (of_decide_eq_false other)

theorem suspend_supervised (ran : suspend vendorId reason r = .ok r') (others : ∀ i p, i ≠ vendorId → verdict i p = none) :
    Supervised verdict r r' := by
  obtain ⟨text,_,ran⟩ := handled_bind.mp ran
  refine writeVendor_supervised ran (fun _ _ => ?_) others
  intro verified; cases verified

theorem supervised_aside {env : Env} {request : AdminRequest} (quiet : ∀ i p, request.ruling r.db i p = none)
    (always : (AdminController.handle env request).Always (Unjudged r) r) :
    Supervised (fun i p => if 0 < (AdminController.handle env request).writes fault r then request.ruling r.db i p else none) r
      ((AdminController.handle env request).left fault r) := by
  refine supervised_congr (Script.always_iff.mp always fault) fun i p _ => ?_
  rw [quiet,ite_self]

theorem promoteUserToDeliverer_unjudged : (promoteUserToDeliverer userId).Always (Unjudged r) r := by
  unfold promoteUserToDeliverer Script.Always
  dsimp only
  split
  · exact unjudged_refl r
  refine ⟨unjudged_refl r,fun s ran => ?_⟩
  have role := writeRole_unjudged ran
  refine ⟨role,fun s' made => ?_⟩
  have profile := supervised_trans role (createDeliverer_unjudged made)
  unfold Script.Always
  dsimp only
  split <;> exact profile

theorem removeDeliverer_unjudged : (removeDeliverer userId).Always (Unjudged r) r := by
  unfold removeDeliverer Script.Always
  dsimp only
  split
  · exact unjudged_refl r
  refine ⟨unjudged_refl r,fun s ran => ?_⟩
  have profile := deleteDeliverer_unjudged ran
  exact ⟨profile,fun s' written => supervised_trans profile (writeRole_unjudged written)⟩

theorem updatedProfile_unjudged : (updatedProfile vendorId message).Always (Unjudged r) r := by
  unfold updatedProfile Script.Always
  dsimp only
  split <;> exact unjudged_refl r

theorem roleWritten_unjudged : (Script.write (fun r => do writeRole userId (← roleOf role) r)
    (updatedUser userId message) : Call Json).Always (Unjudged r) r := by
  refine ⟨unjudged_refl r,fun s ran => ?_⟩
  obtain ⟨new,_,ran⟩ := handled_bind.mp ran
  have written := writeRole_unjudged ran
  unfold updatedUser Script.Always
  dsimp only
  split <;> exact written

theorem updateUserRole_supervised (env : Env) :
    Supervised (fun i p => if 0 < (AdminController.handle env (.updateUserRole userId role reason)).writes fault r then
      (AdminRequest.updateUserRole userId role reason).ruling r.db i p else none) r
      ((AdminController.handle env (.updateUserRole userId role reason)).left fault r) := by
  simp only [AdminController.handle,AdminService.updateUserRole,Script.left,Script.writes]
  split
  · simp only [Script.left,Script.writes,Nat.lt_irrefl,if_false]
    exact unjudged_refl r
  rename_i user found
  by_cases demotes : user.role = .vendor ∧ isRole .customer role ∧ (vendorByUser r.db userId).isSome
  · simp only [if_pos demotes]
    refine supervised_write (fun s' ran => demoteVendor_supervised ran fun i p _ other => ?_) fun s' _ => roleWritten_unjudged
    simp only [AdminRequest.ruling,other,false_and,if_false]
  · simp only [if_neg demotes]
    refine supervised_congr (Script.always_iff.mp roleWritten_unjudged fault) fun i p at_profile => ?_
    -- Where there is a profile of the user, the branch is taken whenever the roles are those.
    have unjudged : (AdminRequest.updateUserRole userId role reason).ruling r.db i p = none := by
      simp only [AdminRequest.ruling,found,Option.map_some,Option.some.injEq,ite_eq_right_iff,reduceCtorEq,imp_false]
      rintro ⟨own,vendor,customer⟩
      refine demotes ⟨vendor,customer,?_⟩
      have member : (i,p) ∈ r.db.matching .vendorProfile fun _ (p : VendorProfile) => p.userId = userId :=
        r.db.mem_matching.mpr ⟨at_profile,decide_eq_true own⟩
      rw [vendorByUser,List.isSome_head?]
      exact List.ne_nil_of_mem member
    rw [unjudged,ite_self]

theorem approveVendorPromotion_supervised (env : Env) :
    Supervised (fun i p => if 0 < (AdminController.handle env (.approveVendorPromotion vendorId approve reason)).writes fault r
      then (AdminRequest.approveVendorPromotion vendorId approve reason).ruling r.db i p else none) r
      ((AdminController.handle env (.approveVendorPromotion vendorId approve reason)).left fault r) := by
  have others : ∀ i p, i ≠ vendorId → (AdminRequest.approveVendorPromotion vendorId approve reason).ruling r.db i p = none :=
    fun i p other => if_neg other
  simp only [AdminController.handle,AdminService.approveVendorPromotion,Script.left,Script.writes]
  split
  · simp only [Script.left,Script.writes,Nat.lt_irrefl,if_false]
    exact unjudged_refl r
  rename_i profile found
  by_cases approves : Json.truthy approve = true
  · simp only [approves,if_true]
    refine supervised_write (fun s' ran => writeVendor_supervised ran (fun p _ => ?_) others) fun s' _ => ?_
    · intro _
      simp [AdminRequest.ruling,approves]
    · refine ⟨unjudged_refl s',fun s'' written => ?_⟩
      have role := writeRole_unjudged written
      split <;> exact role
  · simp only [approves]
    exact supervised_write (fun s' ran => suspend_supervised ran others) fun s' _ => updatedProfile_unjudged

theorem suspendVendor_supervised (env : Env) :
    Supervised (fun i p => if 0 < (AdminController.handle env (.suspendVendor vendorId reason)).writes fault r
      then (AdminRequest.suspendVendor vendorId reason).ruling r.db i p else none) r
      ((AdminController.handle env (.suspendVendor vendorId reason)).left fault r) := by
  have others : ∀ i p, i ≠ vendorId → (AdminRequest.suspendVendor vendorId reason).ruling r.db i p = none :=
    fun i p other => if_neg other
  simp only [AdminController.handle,AdminService.suspendVendor,Script.left,Script.writes]
  split
  · simp only [Script.left,Script.writes,Nat.lt_irrefl,if_false]
    exact unjudged_refl r
  · exact supervised_write (fun s' ran => suspend_supervised ran others) fun s' _ => updatedProfile_unjudged

theorem handle_supervised (env : Env) (request : AdminRequest) :
    Supervised (fun i p => if 0 < (AdminController.handle env request).writes fault r then request.ruling r.db i p else none) r
      ((AdminController.handle env request).left fault r) := by
  cases request with
  | getAllUsers | getPendingVendors => exact supervised_aside (fun _ _ => rfl) (unjudged_refl r)
  | approveVendorPromotion vendorId approve reason => exact approveVendorPromotion_supervised env
  | suspendVendor vendorId reason => exact suspendVendor_supervised env
  | updateUserRole id role reason => exact updateUserRole_supervised env
  | promoteUserToDeliverer userId => exact supervised_aside (fun _ _ => rfl) promoteUserToDeliverer_unjudged
  | removeDeliverer userId => exact supervised_aside (fun _ _ => rfl) removeDeliverer_unjudged

end Admins

inductive WebRequest where
  | register (dto : AuthService.RegisterDto)
  | login (dto : AuthService.LoginDto)
  | admin (request : AdminRequest)
  | http (request : HttpRequest)

def FromAdmin (bearer : Option JwtPayload) : Prop := ∃ payload, bearer = some payload ∧ payload.role = .admin

section Serving
variable (env : Env) (compare : String → String → Bool) (hash : String → String)

-- How a request is answered, which may come with a token: what it leaves when its write
-- number `fault` fails, or at any point of a service that it calls.
inductive Answers (bearer : Option JwtPayload) (fault : Option Nat) (r : Records) : WebRequest → Records → Prop where
  | register : Answers bearer fault r (.register dto) ((AuthService.register hash dto).left fault r)
  | login : Answers bearer fault r (.login dto) ((AuthService.login compare dto).left fault r)
  | admin : Answers bearer fault r (.admin request) ((AdminController.answer env ⟨bearer,none⟩ request).left fault r)
  | failed (handled : request.handle compare r.site ⟨bearer,none⟩ = .error e) : Answers bearer fault r (.http request) r
  | left (handled : request.handle compare r.site ⟨bearer,none⟩ = .ok (.left s)) :
      Answers bearer fault r (.http request) (r.follow s)
  | calls (handled : request.handle compare r.site ⟨bearer,none⟩ = .ok (.calls x))
      (path : Reached (market env) (OwnSteps r.site.market.spawned) (r.site.market.start x) w) :
      Answers bearer fault r (.http request) (r.follow {r.site with market := w})

-- What a request has decided about a profile, if it has.
def WebRequest.verdict (bearer : Option JwtPayload) (fault : Option Nat) (r r' : Records) (request : WebRequest) (i : Nat) :
    Option ShopDecision :=
  match r.db.rows .vendorProfile i,r'.db.rows .vendorProfile i with
  | none,none => none
  | none,some _ => some .created
  | some _,none => some .deleted
  | some p,some _ => match request with
    | .admin request =>
      if 0 < (AdminController.answer env ⟨bearer,none⟩ request).writes fault r then request.verdict r.db i p else none
    | _ => none

-- An admin makes the vendor of a verified shop a customer with the role as `{ set: role }`,
-- which is not the role that the service compares with.
def WebRequest.Slips (bearer : Option JwtPayload) (fault : Option Nat) (r : Records) : WebRequest → Prop
  | .admin (.updateUserRole id role _) => FromAdmin bearer ∧ fault ≠ some 0 ∧
    roleOf role = .ok (some .customer) ∧ isRole .customer role = false ∧
    (r.db.rows .user id).map User.role = some .vendor ∧
    ∃ i p, r.db.rows .vendorProfile i = some p ∧ p.userId = id ∧ p.isVerified = true
  | _ => False

structure Judgement where
  bearer : Option JwtPayload
  verdict : Nat → Option ShopDecision

-- The most recent decision about a profile, with the token that came with it.
def latest (history : List Judgement) (i : Nat) : Option (ShopDecision × Option JwtPayload) :=
  history.findSome? fun judgement => (judgement.verdict i).map fun decision => (decision,judgement.bearer)

-- Requests that `may` be made, one after another while time passes; the judgements, the
-- last one first.
inductive Course (may : Option JwtPayload → Option Nat → Records → WebRequest → Prop) (start : Records) :
    List Judgement → Records → Prop where
  | start : Course may start [] start
  | pass (path : Course may start history r) (ms : Nat) :
      Course may start history {r with site := {r.site with market := r.site.market.move (market env) (.tick ms)}}
  | next (path : Course may start history r) (allowed : may bearer fault r request)
      (answered : Answers env compare hash bearer fault r request r') :
      Course may start (⟨bearer,request.verdict env bearer fault r r'⟩::history) r'

end Serving

-- A profile that is verified at the start counts as approved.
def Approved (start : Records) (history : List Judgement) (i : Nat) : Prop :=
  match latest history i with
  | some (decision,bearer) => decision = .approved ∧ FromAdmin bearer
  | none => ∃ p, start.db.rows .vendorProfile i = some p ∧ p.isVerified = true

structure Lawful (bearer : Option JwtPayload) (r : Records) (request : WebRequest) (r' : Records) : Prop where
  registered : ∀ i u, r.db.rows .user i = none → r'.db.rows .user i = some u → u.role = .customer
  role : ∀ i u u', r.db.rows .user i = some u → r'.db.rows .user i = some u' → u'.role ≠ u.role → FromAdmin bearer
  order : ∀ i o, r.db.rows .order i = none → r'.db.rows .order i = some o → Trading r.db o.vendorId
  product : request ≠ .http .deleteProfile → ∀ i p, ¬(r'.site.product i = some p ↔ r.site.product i = some p) →
    Trading r.db p.1.vendorId

section Requests
variable {env : Env} {compare : String → String → Bool} {hash : String → String} {bearer : Option JwtPayload}
  {fault : Option Nat} {r r' : Records} {request : WebRequest}

theorem answer_cases (env : Env) (bearer : Option JwtPayload) (request : AdminRequest) :
    (∃ e, AdminController.answer env ⟨bearer,none⟩ request = .throw e) ∨
    FromAdmin bearer ∧ AdminController.answer env ⟨bearer,none⟩ request = AdminController.handle env request := by
  cases bearer with
  | none => exact .inl ⟨_,rfl⟩
  | some payload =>
    by_cases admin : payload.role = .admin
    · refine .inr ⟨⟨payload,rfl,admin⟩,?_⟩
      have passed : (authGuard ⟨some payload,none⟩ >>= RolesGuard.canActivate [.admin]) =
          .ok ⟨some payload,some (JwtStrategy.validate payload)⟩ := if_pos (List.mem_singleton.mpr admin)
      simp only [AdminController.answer,passed]
    · refine .inl ⟨.forbiddenResource,?_⟩
      have refused : (authGuard ⟨some payload,none⟩ >>= RolesGuard.canActivate [.admin]) = .error .forbiddenResource :=
        if_neg fun member => admin (List.mem_singleton.mp member)
      simp only [AdminController.answer,refused]

-- What the requests of others leave decides about no profile that there is.
theorem docile_lawful (docile : Docile r.db r'.db) (product : request ≠ .http .deleteProfile → ∀ i p,
    ¬(r'.site.product i = some p ↔ r.site.product i = some p) → Trading r.db p.1.vendorId) : Lawful bearer r request r' where
  registered i u fresh found := nomatch fresh.symm.trans (docile.user i u found)
  role i u u' before after differs := by
    cases before.symm.trans (docile.user i u' after)
    exact absurd rfl differs
  order := docile.order
  product := product

theorem unchanged_lawful (r : Records) : Lawful bearer r request r :=
  docile_lawful (placed_refl _).toDocile fun _ _ _ differs => absurd .rfl differs

theorem http_docile {request : HttpRequest} (answered : Answers env compare hash bearer fault r (.http request) r') :
    Docile r.db r'.db ∧ (request ≠ .deleteProfile → ∀ i p,
      ¬(r'.site.product i = some p ↔ r.site.product i = some p) → Trading r.db p.1.vendorId) := by
  have still : Docile r.db r.db := (placed_refl _).toDocile
  cases answered with
  | failed handled => exact ⟨still,fun _ _ _ differs => absurd .rfl differs⟩
  | left handled =>
    cases bearer with
    | none => cases unsigned_left handled; exact ⟨still,fun _ _ _ differs => absurd .rfl differs⟩
    | some payload =>
      have served : Attended r.site payload.sub request _ := left_served handled
      exact ⟨served.docile,served.product⟩
  | calls handled path =>
    cases bearer with
    | none => cases unsigned_left handled
    | some payload =>
      have signed : (⟨some payload,none⟩ : Request) = .carrying payload := rfl
      rw [signed] at handled
      have placed := calls_served handled path
      refine ⟨placed.toDocile,fun _ i p differs => absurd ?_ differs⟩
      simp only [Records.follow,Site.product,Site.db,placed.product]

theorem login_left : (AuthService.login compare dto).left fault r = r := by
  unfold AuthService.login Script.left
  dsimp only
  split
  · rfl
  · split <;> rfl

theorem register_left : (AuthService.register hash dto).left fault r = r ∨
    ∃ r', UsersService.create ⟨dto.name,dto.email,hash dto.password,none⟩ r = .ok r' ∧
      (AuthService.register hash dto).left fault r = r' := by
  unfold AuthService.register Script.left
  rcases Script.write_cases _ _ fault r with ⟨_,left,_⟩ | ⟨r',_,ran,left,_⟩
  · exact .inl left
  · refine .inr ⟨r',ran,?_⟩
    rw [left]
    unfold Script.left
    dsimp only
    split <;> rfl

theorem create_aside {data : UsersService.CreateUserDto} (ran : UsersService.create data r = .ok r') :
    (∀ t, t ≠ .user → r'.db.rows t = r.db.rows t) ∧ r'.site.item = r.site.item := by
  unfold UsersService.create at ran
  dsimp only at ran
  split at ran
  · cases ran
  obtain ⟨created,made,ended⟩ := handled_bind.mp ran
  cases pure_handled.mp ended
  obtain ⟨site,done,rfl⟩ := write_ok made
  obtain ⟨db,body,rfl⟩ := commit_ok done
  have within : Confined (· = Tab.user) (do
      let _ ← Tx.create Tab.user fun _ => (⟨data.role.getD .customer,none,false⟩ : User) : Transaction Unit) :=
    confined_bind (confined_create rfl) fun _ => trivial
  exact ⟨fun t other => (confined_run within body other).1,rfl⟩

theorem register_answered {dto : AuthService.RegisterDto} :
    Lawful bearer r (.register dto) ((AuthService.register hash dto).left fault r) ∧
      ((AuthService.register hash dto).left fault r).db.rows .vendorProfile = r.db.rows .vendorProfile := by
  have either : (AuthService.register hash dto).left fault r = r ∨ ∃ r', UsersService.create
      ⟨dto.name,dto.email,hash dto.password,none⟩ r = .ok r' ∧ (AuthService.register hash dto).left fault r = r' := register_left
  rcases either with left | ⟨r',ran,left⟩
  · rw [left]
    exact ⟨unchanged_lawful r,rfl⟩
  rw [left]
  obtain ⟨k,fresh,after⟩ := create_parts ran
  obtain ⟨others,item⟩ := create_aside ran
  have users : r'.db.rows .user = Function.update (r.db.rows .user) k (some ⟨.customer,none,false⟩) :=
    congrArg Dispatch.user after
  refine ⟨⟨?_,?_,?_,?_⟩,others _ nofun⟩
  · intro i u gone found
    rw [users] at found
    rcases update_some found with ⟨_,rfl⟩ | ⟨_,before⟩
    · rfl
    · cases gone.symm.trans before
  · intro i u u' before found differs
    rw [users] at found
    rcases update_some found with ⟨rfl,_⟩ | ⟨_,kept⟩
    · cases fresh.symm.trans before
    · cases before.symm.trans kept
      exact absurd rfl differs
  · intro i o gone found
    rw [others .order nofun,gone] at found; cases found
  · intro _ i p differs
    have products : r'.site.db.rows .product = r.site.db.rows .product := others .product nofun
    refine absurd ?_ differs
    simp only [Site.product,products,item]

theorem supervised_lawful {verdict : Nat → VendorProfile → Option ShopDecision} (supervised : Supervised verdict r r')
    (admin : FromAdmin bearer) : Lawful bearer r request r' where
  registered i u gone found := nomatch (supervised.user i gone).symm.trans found
  role _ _ _ _ _ _ := admin
  order i o gone found := nomatch (supervised.order i gone).symm.trans found
  product _ i p differs := absurd (by rw [supervised.product]) differs

theorem answers_lawful (answered : Answers env compare hash bearer fault r request r') : Lawful bearer r request r' := by
  cases request with
  | register dto => cases answered; exact register_answered.1
  | login dto =>
    cases answered
    rw [login_left]; exact unchanged_lawful r
  | admin request =>
    cases answered
    rcases answer_cases env bearer request with ⟨e,refused⟩ | ⟨admin,passed⟩
    · rw [refused]; exact unchanged_lawful r
    · rw [passed]; exact supervised_lawful (handle_supervised env request) admin
  | http request =>
    obtain ⟨docile,product⟩ := http_docile answered
    exact docile_lawful docile fun other => product fun same => other (by rw [same])

-- A profile is verified because of what the request has decided, or was so before it.
def Judged (verdict : Nat → Option ShopDecision) (bearer : Option JwtPayload) (r r' : Records) : Prop :=
  ∀ i p, r'.db.rows .vendorProfile i = some p → p.isVerified = true → match verdict i with
    | some decision => decision = .approved ∧ FromAdmin bearer
    | none => ∃ q, r.db.rows .vendorProfile i = some q ∧ q.isVerified = true

theorem undecided_judged (other : ∀ admin, request ≠ .admin admin)
    (verified : ∀ i p, r'.db.rows .vendorProfile i = some p → p.isVerified = true →
      ∃ q, r.db.rows .vendorProfile i = some q ∧ q.isVerified = true) :
    Judged (request.verdict env bearer fault r r') bearer r r' := by
  intro i p found marked
  obtain ⟨q,before,was⟩ := verified i p found marked
  have undecided : request.verdict env bearer fault r r' i = none := by
    cases request with
    | admin request => exact absurd rfl (other request)
    | register dto | login dto | http request => simp only [WebRequest.verdict,before,found]
  rw [undecided]
  exact ⟨q,before,was⟩

-- Where the request does not slip, what it makes of a profile that stays or is approved is
-- what it decides.
theorem verdict_ruling {request : AdminRequest} (steady : ¬(WebRequest.admin request).Slips bearer fault r) (admin : FromAdmin bearer)
    (first : fault ≠ some 0) (before : r.db.rows .vendorProfile i = some q)
    (known : request.ruling r.db i q = none → q.isVerified = true) : request.verdict r.db i q = request.ruling r.db i q := by
  cases request with
  | updateUserRole id role reason =>
    cases same : isRole .customer role with
    | true => simp only [AdminRequest.verdict,AdminRequest.ruling,same,isRole_roleOf same]
    | false =>
      have kept : (AdminRequest.updateUserRole id role reason).ruling r.db i q = none := by simp [AdminRequest.ruling,same]
      rw [kept]
      refine if_neg ?_
      rintro ⟨own,vendor,customer⟩
      exact steady ⟨admin,first,customer,same,vendor,i,q,before,own,known kept⟩
  | _ => rfl

theorem answers_judged (steady : ¬request.Slips bearer fault r) (answered : Answers env compare hash bearer fault r request r') :
    Judged (request.verdict env bearer fault r r') bearer r r' := by
  cases request with
  | register dto =>
    cases answered
    refine undecided_judged nofun fun i p found verified => ⟨p,?_,verified⟩
    obtain ⟨_,same⟩ : Lawful bearer r (.register dto) _ ∧ _ := register_answered
    rw [← same]; exact found
  | login dto =>
    cases answered
    rw [login_left]
    exact undecided_judged nofun fun i p found verified => ⟨p,found,verified⟩
  | http request => exact undecided_judged nofun (http_docile answered).1.verified
  | admin request =>
    cases answered
    intro i p found marked
    rcases answer_cases env bearer request with ⟨e,refused⟩ | ⟨admin,passed⟩
    · rw [refused] at found
      have before : r.db.rows .vendorProfile i = some p := found
      simp only [WebRequest.verdict,refused,before,Script.left,Script.writes,Nat.lt_irrefl,if_false]
      exact ⟨p,rfl,marked⟩
    · have supervised : Supervised _ r ((AdminController.handle env request).left fault r) := handle_supervised env request
      rw [passed] at found
      cases before : r.db.rows .vendorProfile i with
      | none => cases (supervised.absent i before).symm.trans found
      | some q =>
        obtain ⟨p',after,vouched⟩ := supervised.present i q before
        cases after.symm.trans found
        have reason := vouched marked
        simp only [WebRequest.verdict,passed,before,found]
        by_cases wrote : 0 < (AdminController.handle env request).writes fault r
        · rw [if_pos wrote] at reason ⊢
          have decided : request.verdict r.db i q = request.ruling r.db i q :=
            verdict_ruling steady admin (Script.first_written wrote) before fun none => by simpa only [none] using reason
          rw [decided]
          split at reason
          · exact ⟨reason,admin⟩
          · exact ⟨q,rfl,reason⟩
        · rw [if_neg wrote] at reason ⊢
          exact ⟨q,rfl,reason⟩

theorem latest_cons (judgement : Judgement) (history : List Judgement) : latest (judgement::history) i =
    match judgement.verdict i with
    | some decision => some (decision,judgement.bearer)
    | none => latest history i := by
  unfold latest
  rw [List.findSome?_cons]
  cases judgement.verdict i <;> rfl

theorem course_approved {start : Records}
    (course : Course env compare hash (fun bearer fault r request => ¬request.Slips bearer fault r) start history r)
    (found : r.db.rows .vendorProfile i = some p) (verified : p.isVerified = true) : Approved start history i := by
  induction course generalizing p with
  | start => exact ⟨p,found,verified⟩
  | pass _ ms ih => exact ih found verified
  | next _ steady answered ih =>
    have judged := answers_judged steady answered i p found verified
    unfold Approved
    rw [latest_cons]
    dsimp only
    split at judged
    · exact judged
    · obtain ⟨q,before,was⟩ := judged
      exact ih before was

theorem no_privilege {start : Records}
    (course : Course env compare hash (fun bearer fault r request => ¬request.Slips bearer fault r) start history r) :
    (∀ i p, r.db.rows .vendorProfile i = some p → p.isVerified = true → Approved start history i) ∧
    (∀ bearer fault request r', Answers env compare hash bearer fault r request r' → Lawful bearer r request r') ∧
    ∀ payload request about s, HttpRequest.about request = some about →
      request.handle compare r.site (.carrying payload) = .ok (.left s) → Keeper r.db payload.sub about :=
  ⟨fun _ _ => course_approved course,fun _ _ _ _ => answers_lawful,fun _ _ about _ same handled => (left_served handled).keeper about same⟩

end Requests

def steward : JwtPayload := ⟨4,"admin",.admin,none⟩

-- A shop that waits for an admin.
def applicant : (t : Tab) → List (Row t)
  | .vendorProfile => [⟨1,some 0,some 0,false,true⟩]
  | t => villageRows t

theorem no_privilege_applicant : ∃ history r,
    Course village (· == ·) id (fun bearer fault r request => ¬request.Slips bearer fault r) (recordsOf (premises applicant)) history r ∧
    r.db.rows .vendorProfile 0 = some ⟨1,some 0,some 0,true,true⟩ ∧
    Approved (recordsOf (premises applicant)) history 0 ∧ latest history 0 = some (.approved,some steward) := by
  have answered : Answers village (· == ·) id (some steward) none (recordsOf (premises applicant))
      (.admin (.approveVendorPromotion 0 (some (.bool true)) none)) _ := .admin
  have course : Course village (· == ·) id (fun bearer fault r request => ¬request.Slips bearer fault r)
      (recordsOf (premises applicant)) _ _ := .next .start (by intro slips; exact slips) answered
  have approved : ((AdminController.answer village ⟨some steward,none⟩ (.approveVendorPromotion 0 (some (.bool true)) none)).left
      none (recordsOf (premises applicant))).db.rows .vendorProfile 0 = some ⟨1,some 0,some 0,true,true⟩ := by decide +kernel
  exact ⟨_,_,course,approved,(no_privilege course).1 0 _ approved rfl,by decide +kernel⟩

-- The vendor is made a customer with `{ set: 'CUSTOMER' }`, and the shop stays verified.
theorem privilege_left : ¬∀ (env : Env) (compare : String → String → Bool) (hash : String → String) start history r,
    Course env compare hash (fun _ _ _ _ => True) start history r → ∀ i p, r.db.rows .vendorProfile i = some p →
      p.isVerified = true → Approved start history i := by
  intro claim
  have answered : Answers village (· == ·) id (some steward) none (recordsOf morning)
      (.admin (.updateUserRole 1 (some (.obj [("set",.str "CUSTOMER")])) none)) _ := .admin
  have approved := claim village (· == ·) id (recordsOf morning) _ _ (.next .start trivial answered) 0 ⟨1,some 0,some 0,true,true⟩
    (by decide +kernel) rfl
  have decided : latest [(⟨some steward,WebRequest.verdict village (some steward) none (recordsOf morning)
      ((AdminController.answer village ⟨some steward,none⟩ (.updateUserRole 1 (some (.obj [("set",.str "CUSTOMER")])) none)).left
        none (recordsOf morning)) (.admin (.updateUserRole 1 (some (.obj [("set",.str "CUSTOMER")])) none))⟩ : Judgement)] 0 =
      some (.demoted,some steward) := by decide +kernel
  unfold Approved at approved
  rw [decided] at approved
  cases approved.1

end MesyafMarket
