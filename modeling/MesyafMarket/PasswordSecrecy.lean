import MesyafMarket.Privilege
import MesyafMarket.Responses

namespace MesyafMarket
open Relational VendorService

-- The store with other password hashes and nothing else changed.
def Site.rehash (h : Nat → String) (s : Site) : Site := {s with account := fun i => {s.account i with password := h i}}

def Records.rehash (h : Nat → String) (r : Records) : Records := {r with site := r.site.rehash h}

def Outcome.rehash (h : Nat → String) : Outcome → Outcome
  | .left s => .left (s.rehash h)
  | .calls x => .calls x

section Handlers
variable {h : Nat → String} {s : Site}

@[simp] theorem rehash_db : (s.rehash h).db = s.db := rfl

theorem commit_rehash {body : Transaction Unit} : (s.rehash h).commit body = (s.commit body).map (Site.rehash h) := by
  unfold Site.commit
  rw [rehash_db]
  cases body.run s.db <;> rfl

-- A handler in parts: each part leaves the same but for the hashes.
theorem then_rehash {x : Except Failure α} {f g : α → Except Failure Site} (same : ∀ a, f a = (g a).map (Site.rehash h)) :
    (x >>= f) = (x >>= g).map (Site.rehash h) := by
  cases x with
  | error e => rfl
  | ok a => exact same a

theorem if_rehash {c : Prop} [Decidable c] {a b a' b' : Except Failure Site} (yes : a = a'.map (Site.rehash h))
    (no : b = b'.map (Site.rehash h)) : (if c then a else b) = (if c then a' else b').map (Site.rehash h) := by
  split
  · exact yes
  · exact no

theorem commit_then {body : Transaction Unit} {f g : Site → Except Failure Site}
    (same : ∀ written, f (written.rehash h) = (g written).map (Site.rehash h)) :
    ((s.rehash h).commit body >>= f) = (s.commit body >>= g).map (Site.rehash h) := by
  rw [commit_rehash]
  cases s.commit body with
  | error e => rfl
  | ok written => exact same written

theorem createProfile_rehash : VendorService.createProfile (s.rehash h) userId dto =
    (VendorService.createProfile s userId dto).map (Site.rehash h) := commit_then fun _ => rfl

theorem updateProfile_rehash : VendorService.updateProfile (s.rehash h) userId dto =
    (VendorService.updateProfile s userId dto).map (Site.rehash h) :=
  if_rehash rfl (then_rehash fun _ => commit_then fun _ => rfl)

theorem toggleProfile_rehash : VendorService.toggleProfile (s.rehash h) userId isActive role =
    (VendorService.toggleProfile s userId isActive role).map (Site.rehash h) := by
  simp only [VendorService.toggleProfile,rehash_db]
  split
  · rfl
  split
  · rfl
  · exact then_rehash fun active => commit_then fun _ => rfl

theorem request_rehash : VendorService.requestPromotionOrReactivation (s.rehash h) userId role =
    (VendorService.requestPromotionOrReactivation s userId role).map (Site.rehash h) := by
  simp only [VendorService.requestPromotionOrReactivation,rehash_db]
  split
  · rfl
  · exact if_rehash (if_rehash rfl (commit_then fun _ => rfl)) (if_rehash (commit_then fun _ => rfl) rfl)

theorem deleteRows_rehash : ProductService.deleteRows (s.rehash h) productId =
    (ProductService.deleteRows s productId).map (Site.rehash h) := by
  have cleared : ProductService.clearImages ((s.rehash h).setTags productId fun _ _ => false)
      (fun _ image => image.productId = productId) =
        (ProductService.clearImages (s.setTags productId fun _ _ => false) fun _ image => image.productId = productId).rehash h :=
    rfl
  unfold ProductService.deleteRows
  rw [cleared]
  exact commit_rehash

theorem deleteEach_rehash (products : List (Nat × Product)) :
    products.foldlM (fun s entry => ProductService.deleteRows s entry.1) (s.rehash h) =
      (products.foldlM (fun s entry => ProductService.deleteRows s entry.1) s).map (Site.rehash h) := by
  induction products generalizing s with
  | nil => rfl
  | cons entry rest ih =>
    rw [List.foldlM_cons,List.foldlM_cons,deleteRows_rehash]
    cases ProductService.deleteRows s entry.1 with
    | error e => rfl
    | ok middle => exact ih

theorem deleteProfile_rehash : VendorService.deleteProfile (s.rehash h) userId role =
    (VendorService.deleteProfile s userId role).map (Site.rehash h) := by
  simp only [VendorService.deleteProfile,rehash_db]
  split
  · rfl
  split
  · rfl
  rename_i profile _ _
  rw [deleteEach_rehash]
  cases (s.db.matching .product fun _ (p : Product) => p.vendorId = profile.1).foldlM
      (fun s entry => ProductService.deleteRows s entry.1) s with
  | error e => rfl
  | ok cleared => exact commit_rehash

theorem createProduct_rehash : ProductService.createProduct (s.rehash h) userId dto =
    (ProductService.createProduct s userId dto).map (Site.rehash h) := by
  simp only [ProductService.createProduct,rehash_db]
  split
  · rfl
  split
  · rfl
  · exact commit_then fun _ => rfl

-- What the other handlers of products do once the ownership is clear.
theorem owned_rehash {f g : Unit → Except Failure Site} (same : ∀ a, f a = (g a).map (Site.rehash h)) :
    (ProductService.validateOwnershipAndGetProduct (s.rehash h) userId productId >>= f) =
      (ProductService.validateOwnershipAndGetProduct s userId productId >>= g).map (Site.rehash h) := then_rehash same

theorem updateProduct_rehash : ProductService.updateProduct (s.rehash h) userId productId dto =
    (ProductService.updateProduct s userId productId dto).map (Site.rehash h) :=
  owned_rehash fun _ => then_rehash fun _ => then_rehash fun _ => then_rehash fun _ => then_rehash fun _ =>
    then_rehash fun _ => then_rehash fun _ => commit_then fun _ => rfl

theorem attachTags_rehash : ProductService.attachTags (s.rehash h) userId productId tagIds =
    (ProductService.attachTags s userId productId tagIds).map (Site.rehash h) :=
  owned_rehash fun _ => if_rehash rfl (if_rehash rfl rfl)

theorem detachTags_rehash : ProductService.detachTags (s.rehash h) userId productId tagIds =
    (ProductService.detachTags s userId productId tagIds).map (Site.rehash h) :=
  owned_rehash fun _ => if_rehash rfl rfl

-- Who is no admin gets no further than the comparison with the caller.
theorem remove_rehash {compare : String → String → Bool} {id : Option Nat} {user : AuthenticatedUser} :
    UsersService.remove compare (s.rehash h) id user password =
      (UsersService.remove compare s id user password).map (Site.rehash h) := by
  unfold UsersService.remove
  by_cases admin : user.role = .admin
  · have allowed : ¬(user.role ≠ .admin ∧ ¬(id.isSome ∧ user.number "userId" = id)) := fun refused => refused.1 admin
    rw [if_neg allowed,if_neg allowed]
    refine then_rehash fun userId => ?_
    rw [if_neg (not_not.mpr admin),if_neg (not_not.mpr admin)]
    exact commit_rehash
  · have refused : user.role ≠ .admin ∧ ¬(id.isSome ∧ user.number "userId" = id) := by
      refine ⟨admin,fun own => ?_⟩
      have missing : (none : Option Nat) = id := own.2
      rw [← missing] at own
      cases own.1
    rw [if_pos refused,if_pos refused]
    rfl

theorem setAccount_rehash {f : UserColumns → UserColumns}
    (keeps : ∀ account password, f {account with password := password} = {f account with password := password}) :
    (s.rehash h).setAccount userId f = (s.setAccount userId f).rehash h := by
  have accounts : ((s.rehash h).setAccount userId f).account = ((s.setAccount userId f).rehash h).account := by
    funext i
    by_cases same : i = userId
    · subst same
      simp only [Site.setAccount,Site.rehash,Function.update_self]
      exact keeps _ _
    · simp only [Site.setAccount,Site.rehash,Function.update_of_ne same]
  exact congrArg (fun account => {s with account := account}) accounts

theorem updateMyProfile_rehash (received : Request) : UsersController.updateMyProfile (s.rehash h) received dto =
    (UsersController.updateMyProfile s received dto).map (Site.rehash h) := by
  refine then_rehash fun req => then_rehash fun user => ?_
  unfold UsersService.updateProfile
  refine if_rehash rfl ?_
  refine then_rehash fun role => then_rehash fun userId => commit_then fun written => ?_
  exact congrArg Except.ok (setAccount_rehash fun _ _ => rfl)

end Handlers

theorem map_outcome {x y : Except Failure Site} (same : x = y.map (Site.rehash h)) :
    x.map Outcome.left = (y.map Outcome.left).map (Outcome.rehash h) := by
  rw [same]
  cases y <;> rfl

theorem calls_outcome (x : Except Failure Proc) : x.map Outcome.calls = (x.map Outcome.calls).map (Outcome.rehash h) := by
  cases x <;> rfl

theorem handle_rehash (compare : String → String → Bool) (s : Site) (received : Request) (request : HttpRequest) :
    request.handle compare (s.rehash h) received = (request.handle compare s received).map (Outcome.rehash h) := by
  cases request
  case read => rfl
  case updateMyProfile => exact map_outcome (updateMyProfile_rehash received)
  case remove => exact map_outcome (then_rehash fun _ => then_rehash fun _ => remove_rehash)
  case createVendorProfile => exact map_outcome (then_rehash fun _ => createProfile_rehash)
  case updateProfile => exact map_outcome (then_rehash fun _ => updateProfile_rehash)
  case deleteProfile => exact map_outcome (then_rehash fun _ => then_rehash fun _ => then_rehash fun _ => deleteProfile_rehash)
  case toggleProfile => exact map_outcome (then_rehash fun _ => then_rehash fun _ => then_rehash fun _ => toggleProfile_rehash)
  case requestPromotionOrReactivation => exact map_outcome (then_rehash fun _ => then_rehash fun _ => request_rehash)
  case createProduct => exact map_outcome (then_rehash fun _ => createProduct_rehash)
  case updateProduct => exact map_outcome (then_rehash fun _ => updateProduct_rehash)
  case deleteProduct => exact map_outcome (then_rehash fun _ => owned_rehash fun _ => deleteRows_rehash)
  case addProductImage => exact map_outcome (then_rehash fun _ => owned_rehash fun _ => rfl)
  case deleteProductImage => exact map_outcome (then_rehash fun _ => owned_rehash fun _ => rfl)
  case deleteAllProductImages => exact map_outcome (then_rehash fun _ => owned_rehash fun _ => rfl)
  case attachProductTags => exact map_outcome (then_rehash fun _ => attachTags_rehash)
  case detachProductTags => exact map_outcome (then_rehash fun _ => detachTags_rehash)
  case removeAllProductTags => exact map_outcome (then_rehash fun _ => owned_rehash fun _ => rfl)
  all_goals exact calls_outcome _

section Rows
variable {h : Nat → String} {r : Records} {scan : Scan}

-- A row of a user as a whole shows its hash, what is selected of it does not.
theorem user_rehash : (r.rehash h).user i u = r.user i u ↔ h i = (r.site.account i).password := by
  have selected : (r.rehash h).selectedFields i u = r.selectedFields i u := rfl
  simp only [Records.user,selected,Json.obj.injEq,List.cons.injEq,Prod.mk.injEq,Json.str.injEq,true_and,and_true]
  rfl

theorem userOf_rehash : (r.rehash h).userOf i = r.userOf i ↔
    ((r.db.rows .user i).isSome = true → h i = (r.site.account i).password) := by
  have rows : (r.rehash h).db.rows .user i = r.db.rows .user i := rfl
  unfold Records.userOf
  rw [rows]
  cases r.db.rows .user i with
  | none => exact iff_of_true rfl nofun
  | some u => exact user_rehash.trans ⟨fun same _ => same,fun same => same rfl⟩

theorem orderWithCustomer_rehash : (r.rehash h).orderWithCustomer scan i o = r.orderWithCustomer scan i o ↔
    (r.rehash h).userOf o.customerId = r.userOf o.customerId := by
  have fields : (r.rehash h).orderFields i o = r.orderFields i o := rfl
  have items : (r.rehash h).itemsOf scan i = r.itemsOf scan i := rfl
  simp [Records.orderWithCustomer,fields,items]

theorem orderOfJob_rehash : (r.rehash h).orderOfJob scan i o = r.orderOfJob scan i o ↔
    (r.rehash h).userOf o.customerId = r.userOf o.customerId := by
  have fields : (r.rehash h).orderFields i o = r.orderFields i o := rfl
  have items : (r.rehash h).itemsOf scan i = r.itemsOf scan i := rfl
  have vendor : (r.rehash h).vendorOf o.vendorId = r.vendorOf o.vendorId := rfl
  simp [Records.orderOfJob,fields,items,vendor]

theorem listing_rehash {f g : α → Json} (rows : List α) :
    Json.arr ((scan.order rows).map f) = Json.arr ((scan.order rows).map g) ↔ ∀ row ∈ rows, f row = g row := by
  rw [Json.arr.injEq,List.map_inj_left]
  exact ⟨fun same row member => same row ((scan.perm rows).mem_iff.mpr member),
    fun same row member => same row ((scan.perm rows).mem_iff.mp member)⟩

theorem jobWithOrders_rehash : (r.rehash h).jobWithOrders scan i job = r.jobWithOrders scan i job ↔
    ∀ o ∈ r.jobOrders i, (r.rehash h).userOf o.2.customerId = r.userOf o.2.customerId := by
  have fields : (r.rehash h).jobFields i job = r.jobFields i job := rfl
  have rows : (r.rehash h).db = r.db := rfl
  have orders : (r.rehash h).jobOrders i = r.jobOrders i := rfl
  simp only [Records.jobWithOrders,fields,rows,orders,Json.obj.injEq,List.append_cancel_left_eq,List.cons.injEq,
    Prod.mk.injEq,true_and,and_true,listing_rehash,orderOfJob_rehash]

end Rows

inductive WebOperation where
  | read (request : ReadRequest)
  | http (request : HttpRequest)
  | admin (request : AdminRequest)

-- What an operation answers the one who calls it.
inductive Responds (env : Env) (contains : Contains) (compare : String → String → Bool) (cache : ProductCache)
    (bearer : Option JwtPayload) (r : Records) : WebOperation → Except Failure Json → Prop where
  | read : Responds env contains compare cache bearer r (.read request) (request.answer env contains cache r ⟨bearer,none⟩)
  | admin : Responds env contains compare cache bearer r (.admin request)
      ((AdminController.answer env ⟨bearer,none⟩ request).run r).2
  | failed (handled : request.handle compare r.site ⟨bearer,none⟩ = .error e) :
      Responds env contains compare cache bearer r (.http request) (.error e)
  | left (signed : bearer = some payload) (handled : request.handle compare r.site ⟨bearer,none⟩ = .ok (.left s)) :
      Responds env contains compare cache bearer r (.http request)
        (.ok (request.shows (env.scanning s.db) r (r.follow s) (JwtStrategy.validate payload)))
  | calls (signed : bearer = some payload) (handled : request.handle compare r.site ⟨bearer,none⟩ = .ok (.calls x))
      (path : Ends (market env) r.site.market.spawned (r.site.market.start x) last)
      (ended : last.threads r.site.market.spawned = some (.returned reply)) :
      Responds env contains compare cache bearer r (.http request)
        (request.replied (env.scanning last.db) r (r.follow {r.site with market := last}) (JwtStrategy.validate payload) reply)

-- The users whose row is in the answer as a whole.
def WebOperation.Exposes (bearer : Option JwtPayload) (r : Records) : WebOperation → Nat → Prop
  | .read (.getVendorOrders status),i => ∃ payload vendor, bearer = some payload ∧
    vendorByUser r.db payload.sub = some vendor ∧
    ∃ o ∈ VendorService.ordersOf r vendor.1 status, o.2.customerId = i ∧ (r.db.rows .user i).isSome = true
  | .read (.getDelivererJobs status),i => ∃ payload deliverer, bearer = some payload ∧
    DelivererService.delivererByUser r.db payload.sub = some deliverer ∧
    ∃ job ∈ DelivererJobService.jobsOf r deliverer.1 status,
      ∃ o ∈ r.jobOrders job.1, o.2.customerId = i ∧ (r.db.rows .user i).isSome = true
  | .read .getMyProfile,i => ∃ payload deliverer, bearer = some payload ∧ payload.role = .deliverer ∧
    DelivererService.delivererByUser r.db payload.sub = some deliverer ∧ deliverer.2.userId = i ∧
    (r.db.rows .user i).isSome = true
  | .http (.remove id _),i => FromAdmin bearer ∧ id = some i ∧ (r.db.rows .user i).isSome = true ∧
    UsersService.referenced r.db i = false
  | .admin (.updateUserRole userId role reason),i => FromAdmin bearer ∧ userId = i ∧ ∃ user new,
    r.db.rows .user i = some user ∧ roleOf role = .ok new ∧
    (user.role = .vendor → isRole .customer role = true → (vendorByUser r.db i).isSome = true →
      ∃ text, nullableText (reasonOr "demoted" reason) = .ok text)
  | _,_ => False

section Answers
variable {env : Env} {contains : Contains} {compare : String → String → Bool} {cache : ProductCache}
  {bearer : Option JwtPayload} {h : Nat → String} {r : Records}

theorem vendorOrders_rehash : (ReadRequest.getVendorOrders status).answer env contains cache (r.rehash h) ⟨bearer,none⟩ =
      (ReadRequest.getVendorOrders status).answer env contains cache r ⟨bearer,none⟩ ↔
    ∀ i, (WebOperation.read (.getVendorOrders status)).Exposes bearer r i → h i = (r.site.account i).password := by
  have unseen : (∀ payload, bearer = some payload → vendorByUser r.db payload.sub = none) →
      ∀ i, ¬(WebOperation.read (.getVendorOrders status)).Exposes bearer r i := by
    rintro none i ⟨payload,vendor,signed,found,_⟩
    rw [none payload signed] at found; cases found
  cases bearer with
  | none => exact iff_of_true rfl fun i exposed => absurd exposed (unseen (fun _ no => by cases no) i)
  | some payload =>
    have answers : ∀ r : Records, (ReadRequest.getVendorOrders status).answer env contains cache r ⟨some payload,none⟩ =
        (vendorByUser r.db payload.sub).elim (.error (.service (.notFound "Vendor profile not found")))
          fun vendor => .ok <| .arr <| ((env.scanning r.db).order (VendorService.ordersOf r vendor.1 status)).map fun o =>
            r.orderWithCustomer (env.scanning r.db) o.1 o.2 := by
      intro r
      cases found : vendorByUser r.db payload.sub <;>
        simp [ReadRequest.answer,VendorController.vendorOrders,authGuard,Request.userNumber,AuthenticatedUser.number,uniqueId,
          JwtStrategy.validate,bind,Except.bind,found] <;> rfl
    rw [answers,answers]
    have db : (r.rehash h).db = r.db := rfl
    rw [db]
    cases found : vendorByUser r.db payload.sub with
    | none =>
      refine iff_of_true rfl fun i exposed => absurd exposed (unseen ?_ i)
      intro other signed
      cases signed
      exact found
    | some vendor =>
      have rows : VendorService.ordersOf (r.rehash h) vendor.1 status = VendorService.ordersOf r vendor.1 status := rfl
      simp only [Option.elim_some,Except.ok.injEq,rows,listing_rehash,orderWithCustomer_rehash,userOf_rehash]
      constructor
      · rintro same i ⟨_,vendor',signed,found',o,member,rfl,known⟩
        cases signed
        cases found.symm.trans found'
        exact same o member known
      · intro same o member known
        exact same _ ⟨payload,vendor,rfl,found,o,member,rfl,known⟩

theorem delivererJobs_rehash : (ReadRequest.getDelivererJobs status).answer env contains cache (r.rehash h) ⟨bearer,none⟩ =
      (ReadRequest.getDelivererJobs status).answer env contains cache r ⟨bearer,none⟩ ↔
    ∀ i, (WebOperation.read (.getDelivererJobs status)).Exposes bearer r i → h i = (r.site.account i).password := by
  have unseen : (∀ payload, bearer = some payload → DelivererService.delivererByUser r.db payload.sub = none) →
      ∀ i, ¬(WebOperation.read (.getDelivererJobs status)).Exposes bearer r i := by
    rintro none i ⟨payload,deliverer,signed,found,_⟩
    rw [none payload signed] at found; cases found
  cases bearer with
  | none => exact iff_of_true rfl fun i exposed => absurd exposed (unseen (fun _ no => by cases no) i)
  | some payload =>
    have answers : ∀ r : Records, (ReadRequest.getDelivererJobs status).answer env contains cache r ⟨some payload,none⟩ =
        (DelivererService.delivererByUser r.db payload.sub).elim
          (.error (.service (.notFound "Deliverer profile not found")))
          fun deliverer => .ok <| .arr <|
            ((env.scanning r.db).order (DelivererJobService.jobsOf r deliverer.1 status)).map fun job =>
              r.jobWithOrders (env.scanning r.db) job.1 job.2 := by
      intro r
      cases found : DelivererService.delivererByUser r.db payload.sub <;>
        simp [ReadRequest.answer,DelivererController.delivererJobs,authGuard,Request.userNumber,AuthenticatedUser.number,uniqueId,
          JwtStrategy.validate,bind,Except.bind,found] <;> rfl
    rw [answers,answers]
    have db : (r.rehash h).db = r.db := rfl
    rw [db]
    cases found : DelivererService.delivererByUser r.db payload.sub with
    | none =>
      refine iff_of_true rfl fun i exposed => absurd exposed (unseen ?_ i)
      intro other signed
      cases signed
      exact found
    | some deliverer =>
      have rows : DelivererJobService.jobsOf (r.rehash h) deliverer.1 status = DelivererJobService.jobsOf r deliverer.1 status := rfl
      simp only [Option.elim_some,Except.ok.injEq,rows,listing_rehash,jobWithOrders_rehash,userOf_rehash]
      constructor
      · rintro same i ⟨_,deliverer',signed,found',job,member,o,within,rfl,known⟩
        cases signed
        cases found.symm.trans found'
        exact same job member o within known
      · intro same job member o within known
        exact same _ ⟨payload,deliverer,rfl,found,job,member,o,within,rfl,known⟩

theorem myProfile_rehash : ReadRequest.getMyProfile.answer env contains cache (r.rehash h) ⟨bearer,none⟩ =
      ReadRequest.getMyProfile.answer env contains cache r ⟨bearer,none⟩ ↔
    ∀ i, (WebOperation.read .getMyProfile).Exposes bearer r i → h i = (r.site.account i).password := by
  cases bearer with
  | none =>
    refine iff_of_true rfl ?_
    rintro i ⟨_,_,signed,_⟩
    cases signed
  | some payload =>
    by_cases role : payload.role = .deliverer
    · have answers : ∀ r : Records, ReadRequest.getMyProfile.answer env contains cache r ⟨some payload,none⟩ =
          DelivererService.getProfileByUserId r payload.sub := by
        intro r
        simp [ReadRequest.answer,DelivererController.getMyProfile,guardedId,RolesGuard.canActivate,authGuard,
          Request.userNumber,AuthenticatedUser.number,uniqueId,JwtStrategy.validate,bind,Except.bind,role]
      rw [answers,answers]
      unfold DelivererService.getProfileByUserId
      have db : (r.rehash h).db = r.db := rfl
      rw [db]
      cases found : DelivererService.delivererByUser r.db payload.sub with
      | none =>
        refine iff_of_true rfl ?_
        rintro i ⟨_,_,signed,_,found',_⟩
        cases signed
        rw [found] at found'; cases found'
      | some deliverer =>
        have fields : (r.rehash h).delivererFields deliverer.1 deliverer.2 = r.delivererFields deliverer.1 deliverer.2 := rfl
        simp only [ResponseService.success,fields,Except.ok.injEq,Json.obj.injEq,List.cons.injEq,Prod.mk.injEq,true_and,and_true,
          List.append_cancel_left_eq,userOf_rehash]
        constructor
        · rintro same i ⟨_,_,signed,_,found',rfl,known⟩
          cases signed
          cases found.symm.trans found'
          exact same known
        · intro same known
          exact same _ ⟨payload,deliverer,rfl,role,found,rfl,known⟩
    · have refused : ∀ r : Records, ReadRequest.getMyProfile.answer env contains cache r ⟨some payload,none⟩ =
          .error .forbiddenResource := by
        intro r
        simp [ReadRequest.answer,DelivererController.getMyProfile,guardedId,RolesGuard.canActivate,authGuard,
          JwtStrategy.validate,bind,Except.bind,role]
      rw [refused,refused]
      refine iff_of_true rfl ?_
      rintro i ⟨_,_,signed,deliverer,_⟩
      cases signed
      exact absurd deliverer role

theorem read_rehash (request : ReadRequest) : request.answer env contains cache (r.rehash h) ⟨bearer,none⟩ =
      request.answer env contains cache r ⟨bearer,none⟩ ↔
    ∀ i, (WebOperation.read request).Exposes bearer r i → h i = (r.site.account i).password := by
  cases request with
  | getVendorOrders status => exact vendorOrders_rehash
  | getDelivererJobs status => exact delivererJobs_rehash
  | getMyProfile => exact myProfile_rehash
  | _ => exact iff_of_true rfl nofun

end Answers

section Writes
variable {h : Nat → String} {r : Records}

theorem write_rehash {f : Site → Except Failure Site} (same : ∀ s, f (s.rehash h) = (f s).map (Site.rehash h)) :
    (r.rehash h).write f = (r.write f).map (Records.rehash h) := by
  have site : f (r.rehash h).site = (f r.site).map (Site.rehash h) := same r.site
  unfold Records.write
  rw [site]
  cases f r.site <;> rfl

theorem writeRole_rehash : AdminService.writeRole userId role (r.rehash h) =
    (AdminService.writeRole userId role r).map (Records.rehash h) :=
  write_rehash fun _ => commit_then fun _ => congrArg Except.ok (setAccount_rehash fun _ _ => rfl)

theorem demoteVendor_rehash : AdminService.demoteVendor userId reason (r.rehash h) =
    (AdminService.demoteVendor userId reason r).map (Records.rehash h) :=
  write_rehash fun _ => then_rehash fun _ => commit_then fun _ => rfl

theorem writeVendor_rehash : AdminService.writeVendor vendorId f g (r.rehash h) =
    (AdminService.writeVendor vendorId f g r).map (Records.rehash h) :=
  write_rehash fun _ => commit_then fun _ => rfl

theorem suspend_rehash : AdminService.suspend vendorId reason (r.rehash h) =
    (AdminService.suspend vendorId reason r).map (Records.rehash h) := by
  unfold AdminService.suspend
  cases nullableText reason with
  | error e => rfl
  | ok text => exact writeVendor_rehash

theorem createDeliverer_rehash : AdminService.createDeliverer userId (r.rehash h) =
    (AdminService.createDeliverer userId r).map (Records.rehash h) := by
  have written : (r.rehash h).write (fun s => s.commit (AdminService.createProfileTx userId)) =
      (r.write fun s => s.commit (AdminService.createProfileTx userId)).map (Records.rehash h) :=
    write_rehash fun _ => commit_rehash
  unfold AdminService.createDeliverer
  rw [written]
  cases r.write (fun s => s.commit (AdminService.createProfileTx userId)) <;> rfl

-- A call whose writes leave the same but for the hashes goes on to the same answer.
theorem run_rehash {body : Records → Except Failure Records} {next next' : Call α}
    (same : body (r.rehash h) = (body r).map (Records.rehash h))
    (rest : ∀ s, (next.run (s.rehash h)).2 = (next'.run s).2) :
    ((Script.write body next).run (r.rehash h)).2 = ((Script.write body next').run r).2 := by
  unfold Script.run
  rw [same]
  cases body r with
  | error e => rfl
  | ok s => exact rest s

theorem updatedProfile_rehash : ((AdminService.updatedProfile vendorId message).run (r.rehash h)).2 =
    ((AdminService.updatedProfile vendorId message).run r).2 := by
  have rows : (r.rehash h).db.rows .vendorProfile vendorId = r.db.rows .vendorProfile vendorId := rfl
  unfold AdminService.updatedProfile Script.run
  beta_reduce
  rw [rows]
  cases r.db.rows .vendorProfile vendorId <;> rfl

theorem approveVendorPromotion_rehash : ((AdminService.approveVendorPromotion vendorId approve reason).run (r.rehash h)).2 =
    ((AdminService.approveVendorPromotion vendorId approve reason).run r).2 := by
  have rows : (r.rehash h).db = r.db := rfl
  unfold AdminService.approveVendorPromotion Script.run
  beta_reduce
  rw [rows]
  cases r.db.rows .vendorProfile vendorId with
  | none => rfl
  | some profile =>
    dsimp only
    split
    · refine run_rehash writeVendor_rehash fun s => ?_
      have between : (s.rehash h).db = s.db := rfl
      refine run_rehash writeRole_rehash fun s' => ?_
      rw [between]
      cases s.db.rows .vendorProfile vendorId <;> rfl
    · exact run_rehash suspend_rehash fun _ => updatedProfile_rehash

theorem suspendVendor_rehash : ((AdminService.suspendVendor vendorId reason).run (r.rehash h)).2 =
    ((AdminService.suspendVendor vendorId reason).run r).2 := by
  have rows : (r.rehash h).db = r.db := rfl
  unfold AdminService.suspendVendor Script.run
  beta_reduce
  rw [rows]
  cases r.db.rows .vendorProfile vendorId with
  | none => rfl
  | some profile => exact run_rehash suspend_rehash fun _ => updatedProfile_rehash

theorem promoteUserToDeliverer_rehash : ((AdminService.promoteUserToDeliverer userId).run (r.rehash h)).2 =
    ((AdminService.promoteUserToDeliverer userId).run r).2 := by
  have rows : (r.rehash h).db = r.db := rfl
  unfold AdminService.promoteUserToDeliverer Script.run
  beta_reduce
  rw [rows]
  cases r.db.rows .user userId with
  | none => rfl
  | some user =>
    refine run_rehash writeRole_rehash fun s => run_rehash createDeliverer_rehash fun s' => ?_
    have after : (s'.rehash h).db = s'.db := rfl
    unfold Script.run
    beta_reduce
    rw [after]
    cases DelivererService.delivererByUser s'.db userId <;> rfl

theorem removeDeliverer_rehash : ((AdminService.removeDeliverer userId).run (r.rehash h)).2 =
    ((AdminService.removeDeliverer userId).run r).2 := by
  have rows : (r.rehash h).db = r.db := rfl
  unfold AdminService.removeDeliverer Script.run
  beta_reduce
  rw [rows]
  cases DelivererService.delivererByUser r.db userId with
  | none => rfl
  | some profile =>
    exact run_rehash (write_rehash fun _ => commit_rehash) fun s => run_rehash writeRole_rehash fun _ => rfl

-- The last write of updateUserRole and the row it answers with.
theorem roleWritten_rehash {user : User} {h : Nat → String} (known : r.db.rows .user userId = some user) :
    ((Script.write (fun r => do AdminService.writeRole userId (← roleOf role) r)
      (AdminService.updatedUser userId message) : Call Json).run (r.rehash h)).2 =
    ((Script.write (fun r => do AdminService.writeRole userId (← roleOf role) r)
      (AdminService.updatedUser userId message) : Call Json).run r).2 ↔
    ((∃ new, roleOf role = .ok new) → h userId = (r.site.account userId).password) := by
  unfold Script.run
  cases valid : roleOf role with
  | error e => exact iff_of_true rfl fun ⟨_,same⟩ => nomatch same
  | ok new =>
    have bound : ∀ r : Records, (Except.ok new >>= fun role => AdminService.writeRole userId role r) =
        AdminService.writeRole userId new r := fun _ => rfl
    obtain ⟨r',written⟩ := writeRole_runs new known
    have again : AdminService.writeRole userId new (r.rehash h) = .ok (r'.rehash h) := by
      rw [writeRole_rehash,written]; rfl
    obtain ⟨u,at_user,after⟩ := writeRole_parts written
    have row : r'.db.rows .user userId = some {u with role := new.getD u.role} := by
      have users : r'.db.rows .user = Function.update (r.db.rows .user) userId _ := congrArg Dispatch.user after
      rw [users,Function.update_self]
    have row' : (r'.rehash h).db.rows .user userId = some {u with role := new.getD u.role} := row
    have password : (r'.site.account userId).password = (r.site.account userId).password := by
      obtain ⟨site,done,rfl⟩ := write_ok written
      obtain ⟨middle,updated,ended⟩ := handled_bind.mp done
      cases pure_handled.mp ended
      obtain ⟨db,_,rfl⟩ := commit_ok updated
      simp [Site.setAccount,Site.withDb]
    simp only [bound,written,again,AdminService.updatedUser,Script.run,row,row',ResponseService.success,Except.ok.injEq,
      Json.obj.injEq,List.cons.injEq,Prod.mk.injEq,true_and,and_true,user_rehash,password]
    exact ⟨fun same _ => same,fun same => same ⟨new,rfl⟩⟩

-- The demotion of a vendor leaves the row of the user alone.
theorem demoteVendor_user (ran : AdminService.demoteVendor userId reason r = .ok r') :
    r'.db.rows .user = r.db.rows .user ∧ r'.site.account = r.site.account := by
  refine ⟨congrArg Dispatch.user (demoteVendor_aside ran),?_⟩
  obtain ⟨site,done,rfl⟩ := write_ok ran
  obtain ⟨text,_,done⟩ := handled_bind.mp done
  obtain ⟨written,updated,ended⟩ := handled_bind.mp done
  cases pure_handled.mp ended
  obtain ⟨db,body,rfl⟩ := commit_ok updated
  rfl

theorem demoteVendor_runs (profiled : (vendorByUser r.db userId).isSome = true) (valid : nullableText reason = .ok text) :
    ∃ r', AdminService.demoteVendor userId reason r = .ok r' := by
  obtain ⟨profile,found⟩ := Option.isSome_iff_exists.mp profiled
  obtain ⟨at_profile,own⟩ := r.db.mem_matching.mp (List.mem_of_head? found)
  have ran : (updateVendor userId fun p => {p with isActive := false,isVerified := false}).run r.site.db = _ :=
    Tx.run_update at_profile own
  unfold AdminService.demoteVendor Records.write Site.commit
  beta_reduce
  rw [valid,ran]
  exact ⟨_,rfl⟩

theorem updateUserRole_rehash : ((AdminService.updateUserRole userId role reason).run (r.rehash h)).2 =
    ((AdminService.updateUserRole userId role reason).run r).2 ↔
    ((∃ user new, r.db.rows .user userId = some user ∧ roleOf role = .ok new ∧
      (user.role = .vendor → isRole .customer role = true → (vendorByUser r.db userId).isSome = true →
        ∃ text, nullableText (reasonOr "demoted" reason) = .ok text)) → h userId = (r.site.account userId).password) := by
  have rows : (r.rehash h).db = r.db := rfl
  unfold AdminService.updateUserRole Script.run
  beta_reduce
  rw [rows]
  cases known : r.db.rows .user userId with
  | none => exact iff_of_true rfl fun ⟨_,_,found,_⟩ => nomatch found
  | some user =>
    dsimp only
    by_cases demotes : user.role = .vendor ∧ isRole .customer role ∧ (vendorByUser r.db userId).isSome
    · rw [if_pos demotes]
      obtain ⟨vendor,customer,profiled⟩ := demotes
      unfold Script.run
      rw [demoteVendor_rehash]
      cases ran : AdminService.demoteVendor userId (reasonOr "demoted" reason) r with
      | error e =>
        refine iff_of_true rfl ?_
        rintro ⟨_,new,same,valid,allowed⟩
        cases same
        obtain ⟨text,valid⟩ := allowed vendor customer profiled
        obtain ⟨r',runs⟩ := demoteVendor_runs profiled valid
        cases ran.symm.trans runs
      | ok r' =>
        obtain ⟨users,account⟩ := demoteVendor_user ran
        refine Iff.trans (roleWritten_rehash (by rw [users]; exact known)) ?_
        rw [account]
        have valid : ∃ text, nullableText (reasonOr "demoted" reason) = .ok text := by
          obtain ⟨site,done,_⟩ := write_ok ran
          obtain ⟨text,valid,_⟩ := handled_bind.mp done
          exact ⟨text,valid⟩
        constructor
        · exact fun same _ => same ⟨_,isRole_roleOf customer⟩
        · exact fun same _ => same ⟨user,_,rfl,isRole_roleOf customer,fun _ _ _ => valid⟩
    · rw [if_neg demotes]
      refine Iff.trans (roleWritten_rehash known) ?_
      constructor
      · rintro same ⟨_,new,_,valid,_⟩
        exact same ⟨new,valid⟩
      · rintro same ⟨new,valid⟩
        refine same ⟨user,new,rfl,valid,fun vendor customer profiled => ?_⟩
        exact absurd ⟨vendor,customer,profiled⟩ demotes

theorem admin_rehash {env : Env} (request : AdminRequest) :
    ((AdminController.answer env ⟨bearer,none⟩ request).run (r.rehash h)).2 =
      ((AdminController.answer env ⟨bearer,none⟩ request).run r).2 ↔
    ∀ i, (WebOperation.admin request).Exposes bearer r i → h i = (r.site.account i).password := by
  rcases answer_cases env bearer request with ⟨e,refused⟩ | ⟨admin,passed⟩
  · rw [refused]
    refine iff_of_true rfl fun i exposed => ?_
    cases request with
    | updateUserRole userId role reason =>
      obtain ⟨payload,rfl,admin⟩ := exposed.1
      have passed : (authGuard ⟨some payload,none⟩ >>= RolesGuard.canActivate [.admin]) =
          .ok ⟨some payload,some (JwtStrategy.validate payload)⟩ := if_pos (List.mem_singleton.mpr admin)
      simp only [AdminController.answer,passed] at refused
      cases refused
    | _ => exact exposed.elim
  · rw [passed]
    cases request with
    | getAllUsers | getPendingVendors => exact iff_of_true rfl (fun _ no => by cases no)
    | approveVendorPromotion vendorId approve reason => exact iff_of_true approveVendorPromotion_rehash (fun _ no => by cases no)
    | suspendVendor vendorId reason => exact iff_of_true suspendVendor_rehash (fun _ no => by cases no)
    | promoteUserToDeliverer userId => exact iff_of_true promoteUserToDeliverer_rehash (fun _ no => by cases no)
    | removeDeliverer userId => exact iff_of_true removeDeliverer_rehash (fun _ no => by cases no)
    | updateUserRole userId role reason =>
      refine updateUserRole_rehash.trans ⟨?_,?_⟩
      · rintro same i ⟨_,rfl,exposed⟩
        exact same exposed
      · exact fun same exposed => same userId ⟨admin,rfl,exposed⟩

end Writes

section Requests
variable {env : Env} {contains : Contains} {compare : String → String → Bool} {cache : ProductCache}
  {bearer : Option JwtPayload} {h : Nat → String} {r : Records}

theorem shows_rehash {request : HttpRequest} (other : ∀ id password, request ≠ .remove id password) :
    request.shows scan (r.rehash h) ((r.rehash h).follow (s.rehash h)) (JwtStrategy.validate payload) =
      request.shows scan r (r.follow s) (JwtStrategy.validate payload) := by
  cases request with
  | remove id password => exact absurd rfl (other id password)
  | _ => rfl

theorem responds_rehash {request : HttpRequest} (responds : Responds env contains compare cache bearer r (.http request) answer)
    (shown : ∀ id password, request = .remove id password → ∀ i, id = some i → ∀ s,
      request.handle compare r.site ⟨bearer,none⟩ = .ok (.left s) → (r.rehash h).userOf i = r.userOf i) :
    Responds env contains compare cache bearer (r.rehash h) (.http request) answer := by
  have moved : request.handle compare (r.rehash h).site ⟨bearer,none⟩ =
      (request.handle compare r.site ⟨bearer,none⟩).map (Outcome.rehash h) := handle_rehash compare r.site _ request
  cases responds with
  | failed handled =>
    rw [handled] at moved
    exact .failed moved
  | @left payload _ s signed handled =>
    rw [handled] at moved
    have same : request.shows (env.scanning s.db) (r.rehash h) ((r.rehash h).follow (s.rehash h)) (JwtStrategy.validate payload) =
        request.shows (env.scanning s.db) r (r.follow s) (JwtStrategy.validate payload) := by
      by_cases removes : ∃ id password, request = .remove id password
      · obtain ⟨id,password,rfl⟩ := removes
        cases id with
        | none => rfl
        | some i =>
          have row := shown (some i) password rfl i rfl s handled
          exact congrArg (ResponseService.success "User deleted successfully") row
      · exact shows_rehash fun id password same => removes ⟨id,password,same⟩
    rw [← same]
    exact .left signed moved
  | calls signed handled path ended =>
    rw [handled] at moved
    exact .calls signed moved path ended

-- A user is deleted by an admin, where no row refers to it.
theorem remove_left {id : Option Nat} : (∃ s, (HttpRequest.remove id password).handle compare r.site ⟨bearer,none⟩ = .ok (.left s)) ↔
    ∃ i, (WebOperation.http (.remove id password)).Exposes bearer r i := by
  cases bearer with
  | none =>
    apply iff_of_false
    · rintro ⟨_,handled⟩
      cases handled
    · rintro ⟨_,⟨_,signed,_⟩,_⟩
      cases signed
  | some payload =>
    have handles : (HttpRequest.remove id password).handle compare r.site ⟨some payload,none⟩ =
        (UsersService.remove compare r.site id (JwtStrategy.validate payload) password).map .left := rfl
    rw [handles]
    have role : (JwtStrategy.validate payload).role = payload.role := rfl
    by_cases admin : payload.role = .admin
    · have allowed : ¬((JwtStrategy.validate payload).role ≠ .admin ∧
          ¬(id.isSome ∧ (JwtStrategy.validate payload).number "userId" = id)) := fun refused => refused.1 (role.trans admin)
      have removes : UsersService.remove compare r.site id (JwtStrategy.validate payload) password =
          (do r.site.commit (UsersService.deleteTx (← uniqueId id))) := by
        unfold UsersService.remove
        rw [if_neg allowed]
        cases id with
        | none => rfl
        | some i => exact if_neg (not_not.mpr (role.trans admin))
      rw [removes]
      cases id with
      | none =>
        apply iff_of_false
        · rintro ⟨_,handled⟩
          cases handled
        · rintro ⟨_,_,same,_⟩
          cases same
      | some i =>
        have bound : (uniqueId (some i) >>= fun i => r.site.commit (UsersService.deleteTx i)) =
            r.site.commit (UsersService.deleteTx i) := rfl
        rw [bound]
        have exposes : (∃ k, (WebOperation.http (.remove (some i) password)).Exposes (some payload) r k) ↔
            (r.db.rows .user i).isSome = true ∧ UsersService.referenced r.db i = false := by
          constructor
          · rintro ⟨k,_,same,known,free⟩
            cases same
            exact ⟨known,free⟩
          · rintro ⟨known,free⟩
            exact ⟨i,⟨payload,rfl,admin⟩,rfl,known,free⟩
        rw [exposes]
        have site : r.site.db = r.db := rfl
        unfold Site.commit
        rw [site]
        cases known : r.db.rows .user i with
        | none => simp [UsersService.deleteTx,Except.bind,Except.map,known]
        | some user =>
          cases held : UsersService.referenced r.db i <;> simp [UsersService.deleteTx,Except.bind,Except.map,known,held]
    · have refused : (JwtStrategy.validate payload).role ≠ .admin ∧
          ¬(id.isSome ∧ (JwtStrategy.validate payload).number "userId" = id) := by
        refine ⟨fun same => admin (role.symm.trans same),fun own => ?_⟩
        have missing : (none : Option Nat) = id := own.2
        rw [← missing] at own
        cases own.1
      have removes : UsersService.remove compare r.site id (JwtStrategy.validate payload) password =
          .error (.service (.forbidden "You can only delete your own account")) := by
        unfold UsersService.remove
        rw [if_pos refused]
        rfl
      rw [removes]
      apply iff_of_false
      · rintro ⟨_,handled⟩
        cases handled
      · rintro ⟨_,⟨_,signed,role⟩,_⟩
        cases signed
        exact admin role

-- Back from the other hashes.
theorem responds_back {request : HttpRequest} (responds : Responds env contains compare cache bearer (r.rehash h) (.http request) answer)
    (shown : ∀ id password, request = .remove id password → ∀ i, id = some i → ∀ s,
      request.handle compare (r.rehash h).site ⟨bearer,none⟩ = .ok (.left s) → r.userOf i = (r.rehash h).userOf i) :
    Responds env contains compare cache bearer r (.http request) answer := by
  have back : (r.rehash h).rehash (fun i => (r.site.account i).password) = r := rfl
  rw [← back]
  refine responds_rehash responds ?_
  rw [back]
  exact shown

theorem removed_rehash {id : Option Nat} :
    (∀ answer, Responds env contains compare cache bearer r (.http (.remove id password)) answer ↔
      Responds env contains compare cache bearer (r.rehash h) (.http (.remove id password)) answer) ↔
    ∀ i, (WebOperation.http (.remove id password)).Exposes bearer r i → h i = (r.site.account i).password := by
  have exposure : ∀ (r : Records) s, (HttpRequest.remove id password).handle compare r.site ⟨bearer,none⟩ = .ok (.left s) →
      ∀ i, id = some i → (WebOperation.http (.remove id password)).Exposes bearer r i := by
    intro r s handled i same
    obtain ⟨k,exposed⟩ := remove_left.mp ⟨s,handled⟩
    cases same.symm.trans exposed.2.1
    exact exposed
  constructor
  · rintro same i exposed
    obtain ⟨s,handled⟩ : ∃ s, (HttpRequest.remove id password).handle compare r.site ⟨bearer,none⟩ = .ok (.left s) :=
      remove_left.mpr ⟨i,exposed⟩
    obtain ⟨⟨payload,signed,_⟩,rfl,known,_⟩ := exposed
    have answered := (same _).mp (.left signed handled)
    generalize given : Except.ok _ = answer at answered
    cases answered with
    | failed _ => cases given
    | left _ _ =>
      simp only [HttpRequest.shows,ResponseService.success,Json.optional,Except.ok.injEq,Json.obj.injEq,List.cons.injEq,
        Prod.mk.injEq,true_and,and_true] at given
      exact userOf_rehash.mp given.symm known
    | calls _ handled _ _ =>
      obtain ⟨_,_,same⟩ := map_handled handled
      cases same
  · intro same answer
    have shown : ∀ i, (WebOperation.http (.remove id password)).Exposes bearer r i → (r.rehash h).userOf i = r.userOf i :=
      fun i exposed => userOf_rehash.mpr fun _ => same i exposed
    constructor
    · intro responds
      refine responds_rehash responds fun _ _ given i own s handled => ?_
      cases given
      exact shown i (exposure r s handled i own)
    · intro responds
      refine responds_back responds fun _ _ given i own s handled => ?_
      cases given
      exact (shown i (exposure (r.rehash h) s handled i own)).symm

theorem http_rehash (request : HttpRequest) :
    (∀ answer, Responds env contains compare cache bearer r (.http request) answer ↔
      Responds env contains compare cache bearer (r.rehash h) (.http request) answer) ↔
    ∀ i, (WebOperation.http request).Exposes bearer r i → h i = (r.site.account i).password := by
  by_cases removes : ∃ id password, request = .remove id password
  · obtain ⟨id,password,rfl⟩ := removes
    exact removed_rehash
  · have other : ∀ id password, request ≠ .remove id password := fun id password same => removes ⟨id,password,same⟩
    refine iff_of_true (fun answer => ⟨fun responds => ?_,fun responds => ?_⟩) fun i exposed => ?_
    · exact responds_rehash responds fun id password same => absurd same (other id password)
    · exact responds_back responds fun id password same => absurd same (other id password)
    · cases request with
      | remove id password => exact absurd rfl (other id password)
      | _ => exact exposed.elim

theorem read_responds {request : ReadRequest} : Responds env contains compare cache bearer r (.read request) answer ↔
    answer = request.answer env contains cache r ⟨bearer,none⟩ := by
  constructor
  · intro responds
    cases responds
    rfl
  · rintro rfl
    exact .read

theorem admin_responds {request : AdminRequest} : Responds env contains compare cache bearer r (.admin request) answer ↔
    answer = ((AdminController.answer env ⟨bearer,none⟩ request).run r).2 := by
  constructor
  · intro responds
    cases responds
    rfl
  · rintro rfl
    exact .admin

theorem answers_same {x y : Except Failure Json} : (∀ answer, answer = x ↔ answer = y) ↔ y = x :=
  ⟨fun same => (same y).mpr rfl,fun same answer => by rw [same]⟩

-- The same token and the same arguments are answered the same in two stores that differ
-- in hashes if and only if no row that the answer contains as a whole differs.
theorem password_secrecy (env : Env) (contains : Contains) (compare : String → String → Bool) (cache : ProductCache)
    (bearer : Option JwtPayload) (h : Nat → String) (r : Records) (operation : WebOperation) :
    (∀ answer, Responds env contains compare cache bearer r operation answer ↔
      Responds env contains compare cache bearer (r.rehash h) operation answer) ↔
    ∀ i, operation.Exposes bearer r i → h i = (r.site.account i).password := by
  cases operation with
  | http request => exact http_rehash request
  | read request =>
    simp only [read_responds,answers_same]
    exact read_rehash request
  | admin request =>
    simp only [admin_responds,answers_same]
    exact admin_rehash request

-- A vendor reads the hash of a customer.
theorem password_shown : ¬∀ (env : Env) (contains : Contains) (compare : String → String → Bool) (cache : ProductCache)
    (bearer : Option JwtPayload) (h : Nat → String) (r : Records) (operation : WebOperation),
    (∀ payload password, bearer = some payload → operation ≠ .http (.remove (some payload.sub) password)) →
    ∀ answer, Responds env contains compare cache bearer r operation answer ↔
      Responds env contains compare cache bearer (r.rehash h) operation answer := by
  intro secret
  have same := secret village (· == ·) (· == ·) (.empty 0) (some shopkeeper) (fun _ => "other") (recordsOf orderPlaced)
    (.read (.getVendorOrders .pendingVendorConfirmation)) nofun
  simp only [read_responds,answers_same] at same
  have shop : vendorByUser (recordsOf orderPlaced).db shopkeeper.sub = some (0,⟨1,some 0,some 0,true,true⟩) := by decide +kernel
  have order : ∃ o ∈ VendorService.ordersOf (recordsOf orderPlaced) 0 .pendingVendorConfirmation,
      o.2.customerId = 0 ∧ ((recordsOf orderPlaced).db.rows .user 0).isSome = true := by decide +kernel
  have hash := vendorOrders_rehash.mp same 0 ⟨shopkeeper,_,rfl,shop,order⟩
  exact absurd hash (by decide)

end Requests
end MesyafMarket
