import MesyafMarket.Administration
import MesyafMarket.AssignmentRuns
import MesyafMarket.TokenKeys

namespace MesyafMarket
open Relational AdminService DelivererService DelivererAssignmentService

-- The calls that write a role or a deliverer's profile.
inductive AccountCall where
  | register (dto : AuthService.RegisterDto)
  | updateUserRole (id : Nat) (role reason : Option Json)
  | approveVendorPromotion (vendorId : Nat) (approve reason : Option Json)
  | promoteUserToDeliverer (userId : Nat)
  | removeDeliverer (userId : Nat)

-- What a call leaves, whose write number `fault` fails if there is one.
def AccountCall.left (hash : String → String) (fault : Option Nat) (r : Records) : AccountCall → Records
  | register dto => (AuthService.register hash dto).left fault r
  | updateUserRole id role reason => (AdminService.updateUserRole id role reason).left fault r
  | approveVendorPromotion vendorId approve reason =>
    (AdminService.approveVendorPromotion vendorId approve reason).left fault r
  | promoteUserToDeliverer userId => (AdminService.promoteUserToDeliverer userId).left fault r
  | removeDeliverer userId => (AdminService.removeDeliverer userId).left fault r

def HasProfile (c : Dispatch) (userId : Nat) : Prop := ∃ d p, c.deliverer d = some p ∧ p.userId = userId

def Together (c : Dispatch) : Prop := ∀ i u, c.user i = some u → (u.role = .deliverer ↔ HasProfile c i)

-- The foreign key and the unique column of a profile.
structure Profiled (c : Dispatch) : Prop where
  owned : ∀ d p, c.deliverer d = some p → ∃ u, c.user p.userId = some u
  once : ∀ d d' p p', c.deliverer d = some p → c.deliverer d' = some p' → p.userId = p'.userId → d = d'

-- The call writes the role and the profile to go with it, or neither: no role is
-- written against the profile, and no write fails between the two.
def AccountCall.Whole (c : Dispatch) (v : Database) (fault : Option Nat) : AccountCall → Prop
  | register _ => True
  | updateUserRole id role _ => fault ≠ some 0 → ∀ new, roleOf role = .ok (some new) →
      ∀ u, c.user id = some u → (new = .deliverer ↔ HasProfile c id)
  | approveVendorPromotion vendorId approve _ => Json.truthy approve = true → fault ≠ some 0 → fault ≠ some 1 →
      ∀ p, v.rows .vendorProfile vendorId = some p → ¬HasProfile c p.userId
  | promoteUserToDeliverer userId => fault = some 1 → ∀ u, c.user userId = some u → HasProfile c userId
  | removeDeliverer userId => fault = some 1 → ¬HasProfile c userId

section Writes
variable {r r' : Records}

theorem write_ok {f : Site → Except Failure Site} (ran : r.write f = .ok r') :
    ∃ site, f r.site = .ok site ∧ r' = {r with site := site} := by
  unfold Records.write at ran
  cases done : f r.site with
  | error e => rw [done] at ran; cases ran
  | ok site => rw [done] at ran; cases ran; exact ⟨site,rfl,rfl⟩

theorem write_commit {body : Transaction Unit} (ran : body.run r.db = .ok ((),db)) :
    (r.write fun s => s.commit body) = .ok {r with site := r.site.withDb db} := by
  have commits : r.site.commit body = .ok (r.site.withDb db) := by
    unfold Site.commit
    rw [show r.site.db = r.db from rfl,ran]
  unfold Records.write
  dsimp only
  rw [commits]
  rfl

theorem writeRole_parts (ran : writeRole userId role r = .ok r') :
    ∃ u, (dispatch r.db).user userId = some u ∧ dispatch r'.db = {dispatch r.db with
      user := Function.update (dispatch r.db).user userId (some {u with role := role.getD u.role})} := by
  obtain ⟨site,done,rfl⟩ := write_ok ran
  obtain ⟨written,updated,ended⟩ := handled_bind.mp done
  cases pure_handled.mp ended
  obtain ⟨db,body,rfl⟩ := commit_ok updated
  exact updateUser_parts body

theorem writeRole_runs (role : Option Role) (at_user : (dispatch r.db).user userId = some u) :
    ∃ r', writeRole userId role r = .ok r' := by
  have user : r.db.rows .user userId = some u := at_user
  have ran : (SessionService.updateUser userId fun _ u => {u with role := role.getD u.role}).run r.site.db = .ok ((),_) :=
    Tx.run_update user (decide_eq_true rfl)
  unfold writeRole Records.write Site.commit
  dsimp only
  rw [ran]
  exact ⟨_,rfl⟩

theorem updates_vendor_aside {v : Database} {p : Nat → VendorProfile → Bool} {f : VendorProfile → VendorProfile} :
    dispatch (v.apply (v.updates .vendorProfile p f)) = dispatch v := by
  simp [dispatch]

theorem demoteVendor_aside (ran : demoteVendor userId reason r = .ok r') : dispatch r'.db = dispatch r.db := by
  obtain ⟨site,done,rfl⟩ := write_ok ran
  obtain ⟨text,_,done⟩ := handled_bind.mp done
  obtain ⟨written,updated,ended⟩ := handled_bind.mp done
  cases pure_handled.mp ended
  obtain ⟨db,body,rfl⟩ := commit_ok updated
  obtain ⟨rfl,_⟩ := update_parts body
  exact updates_vendor_aside

theorem writeVendor_aside (ran : writeVendor vendorId f g r = .ok r') : dispatch r'.db = dispatch r.db := by
  obtain ⟨site,done,rfl⟩ := write_ok ran
  obtain ⟨written,updated,ended⟩ := handled_bind.mp done
  cases pure_handled.mp ended
  obtain ⟨db,body,rfl⟩ := commit_ok updated
  obtain ⟨rfl,_⟩ := update_parts body
  exact updates_vendor_aside

theorem suspend_aside (ran : suspend vendorId reason r = .ok r') : dispatch r'.db = dispatch r.db := by
  obtain ⟨text,_,ran⟩ := handled_bind.mp ran
  exact writeVendor_aside ran

theorem dispatch_inserts_user {v : Database} (new : User) : dispatch (v.apply (v.inserts .user [new])) =
    {dispatch v with user := Function.update (dispatch v).user (v.seq .user) (some new)} := by
  have user : (v.apply (v.inserts .user [new])).rows .user = Function.update (v.rows .user) (v.seq .user) (some new) := by
    rw [v.apply_insert]
  simp [dispatch,user]

theorem create_parts (ran : UsersService.create data r = .ok r') :
    ∃ i, (dispatch r.db).user i = none ∧ dispatch r'.db = {dispatch r.db with
      user := Function.update (dispatch r.db).user i (some ⟨data.role.getD .customer,none,false⟩)} := by
  unfold UsersService.create at ran
  dsimp only at ran
  split at ran
  · cases ran
  obtain ⟨created,made,ended⟩ := handled_bind.mp ran
  cases pure_handled.mp ended
  obtain ⟨site,done,rfl⟩ := write_ok made
  obtain ⟨db,body,rfl⟩ := commit_ok done
  obtain ⟨_,_,inserted,ended⟩ := Tx.run_bind_ok.mp body
  rw [Tx.run_create] at inserted
  cases inserted
  cases ended
  exact ⟨r.db.seq .user,r.db.bounded .user _ (Nat.le_refl _),dispatch_inserts_user _⟩

theorem createDeliverer_parts (ran : createDeliverer userId r = .ok r') :
    ∃ d u, (dispatch r.db).user userId = some u ∧ (dispatch r.db).deliverer d = none ∧
      (∀ i p, (dispatch r.db).deliverer i = some p → p.userId ≠ userId) ∧
      dispatch r'.db = {dispatch r.db with
        deliverer := Function.update (dispatch r.db).deliverer d (some ⟨userId,none,none,true,none⟩)} := by
  obtain ⟨created,made,ended⟩ := handled_bind.mp ran
  cases pure_handled.mp ended
  obtain ⟨site,done,rfl⟩ := write_ok made
  obtain ⟨db,body,rfl⟩ := commit_ok done
  exact createProfileTx_parts body

end Writes

section Rows
variable {c : Dispatch}

theorem together_role (together : Together c) (at_user : c.user i = some u) (fits : role = .deliverer ↔ HasProfile c i) :
    Together {c with user := Function.update c.user i (some {u with role := role})} := by
  intro k u' found
  rcases update_some found with ⟨rfl,rfl⟩ | ⟨_,before⟩
  · exact fits
  · exact together k u' before

theorem profiled_role (profiled : Profiled c) :
    Profiled {c with user := Function.update c.user i (some new)} := by
  refine ⟨fun d p found => ?_,profiled.once⟩
  obtain ⟨u,before⟩ := profiled.owned d p found
  by_cases same : p.userId = i
  · exact ⟨new,by rw [same]; exact Function.update_self ..⟩
  · exact ⟨u,by dsimp only; rw [Function.update_of_ne same]; exact before⟩

theorem profile_made (fresh : c.deliverer d = none) (own : p.userId = userId) :
    HasProfile {c with deliverer := Function.update c.deliverer d (some p)} i ↔ i = userId ∨ HasProfile c i := by
  constructor
  · rintro ⟨k,q,found,same⟩
    rcases update_some found with ⟨_,rfl⟩ | ⟨_,before⟩
    · exact .inl (same.symm.trans own)
    · exact .inr ⟨k,q,before,same⟩
  · rintro (rfl | ⟨k,q,found,same⟩)
    · exact ⟨d,p,Function.update_self ..,own⟩
    · have apart : k ≠ d := by
        rintro rfl
        rw [fresh] at found; cases found
      exact ⟨k,q,by dsimp only; rw [Function.update_of_ne apart]; exact found,same⟩

theorem profile_forgotten (profiled : Profiled c) (at_deliverer : c.deliverer d = some p) (own : p.userId = userId) :
    HasProfile (c.forget d) i ↔ i ≠ userId ∧ HasProfile c i := by
  constructor
  · rintro ⟨k,q,found,same⟩
    rw [Dispatch.forget_deliverer] at found
    obtain ⟨before,other⟩ := removed_some.mp found
    refine ⟨?_,k,q,before,same⟩
    rintro rfl
    have one := profiled.once k d q p before at_deliverer (same.trans own.symm)
    exact absurd one (of_decide_eq_false other)
  · rintro ⟨apart,k,q,found,same⟩
    refine ⟨k,q,?_,same⟩
    rw [Dispatch.forget_deliverer]
    refine removed_some.mpr ⟨found,decide_eq_false ?_⟩
    rintro rfl
    rw [at_deliverer] at found
    cases found
    exact apart (same.symm.trans own)

end Rows

structure Employed (c : Dispatch) : Prop extends Profiled c where
  together : Together c

abbrev Records.Employed (r : Records) : Prop := MesyafMarket.Employed (dispatch r.db)

section Calls
variable {r : Records} {hash : String → String} {fault : Option Nat}

theorem employed_role {new : Option Role} (employed : Employed (dispatch r.db)) (ran : writeRole userId new r = .ok r')
    (fits : ∀ role u, new = some role → (dispatch r.db).user userId = some u →
      (role = .deliverer ↔ HasProfile (dispatch r.db) userId)) : Employed (dispatch r'.db) := by
  obtain ⟨u,at_user,after⟩ := writeRole_parts ran
  rw [after]
  refine ⟨profiled_role employed.toProfiled,together_role employed.together at_user ?_⟩
  cases new with
  | none => exact employed.together _ u at_user
  | some role => exact fits role u rfl at_user

theorem register_employed (employed : Employed (dispatch r.db)) :
    Employed (dispatch ((AuthService.register hash dto).left fault r).db) := by
  unfold AuthService.register Script.left
  refine Script.left_write (Q := Records.Employed) (fun _ => employed) fun r' _ ran => ?_
  have rest : Employed (dispatch r'.db) := by
    obtain ⟨i,fresh,after⟩ := create_parts ran
    have unprofiled : ¬HasProfile (dispatch r.db) i := by
      rintro ⟨d,p,found,rfl⟩
      obtain ⟨u,at_user⟩ := employed.owned d p found
      rw [fresh] at at_user; cases at_user
    rw [after]
    refine ⟨profiled_role employed.toProfiled,?_⟩
    intro k u found
    rcases update_some found with ⟨rfl,rfl⟩ | ⟨_,before⟩
    · exact iff_of_false (fun no => by cases no) unprofiled
    · exact employed.together k u before
  unfold Script.left
  dsimp only
  split <;> exact rest

theorem updateUserRole_employed (employed : Employed (dispatch r.db))
    (whole : (AccountCall.updateUserRole userId role reason).Whole (dispatch r.db) r.db fault) :
    Employed (dispatch ((updateUserRole userId role reason).left fault r).db) := by
  have last : ∀ (before : Records) (fault : Option Nat), Employed (dispatch before.db) →
      (fault ≠ some 0 → ∀ new, roleOf role = .ok (some new) → ∀ u, (dispatch before.db).user userId = some u →
        (new = .deliverer ↔ HasProfile (dispatch before.db) userId)) →
      Employed (dispatch (Script.left (.write (fun r => do writeRole userId (← roleOf role) r) <|
        updatedUser userId "User role updated successfully") fault before).db) := by
    intro before fault employed fits
    refine Script.left_write (Q := Records.Employed) (fun _ => employed) fun after unbroken ran => ?_
    obtain ⟨new,read,ran⟩ := handled_bind.mp ran
    have rest := employed_role employed ran fun role u is at_user => fits unbroken role (by rw [read,is]) u at_user
    unfold updatedUser Script.left
    dsimp only
    split <;> exact rest
  unfold updateUserRole Script.left
  dsimp only
  split
  · exact employed
  · rename_i user found
    split
    · rename_i demotion
      obtain ⟨vendor,customer,_⟩ := demotion
      refine Script.left_write (Q := Records.Employed) (fun _ => employed) fun r' _ ran => ?_
      have aside := demoteVendor_aside ran
      refine last r' _ (by rw [aside]; exact employed) ?_
      intro _ new read u at_user
      rw [isRole_roleOf customer] at read
      cases read
      rw [aside] at at_user ⊢
      have own := employed.together userId user found
      rw [vendor] at own
      exact iff_of_false (by decide) fun profile => absurd (own.mpr profile) (by decide)
    · exact last r fault employed whole

theorem approveVendorPromotion_employed (employed : Employed (dispatch r.db))
    (whole : (AccountCall.approveVendorPromotion vendorId approve reason).Whole (dispatch r.db) r.db fault) :
    Employed (dispatch ((approveVendorPromotion vendorId approve reason).left fault r).db) := by
  unfold approveVendorPromotion Script.left
  dsimp only
  split
  · exact employed
  rename_i profile found
  split
  · rename_i approved
    refine Script.left_write (Q := Records.Employed) (fun _ => employed) fun r' unbroken ran => ?_
    have aside := writeVendor_aside ran
    have employed' : Employed (dispatch r'.db) := by rw [aside]; exact employed
    unfold Script.left
    dsimp only
    refine Script.left_write (Q := Records.Employed) (fun _ => employed') fun last whole' ran => ?_
    have unbroken' : fault ≠ some 1 := fun same => whole' (by rw [same]; rfl)
    have rest := employed_role employed' ran fun role u is _ => by
      cases is
      rw [aside]
      exact iff_of_false (by decide) (whole approved unbroken unbroken' profile found)
    split <;> exact rest
  · refine Script.left_write (Q := Records.Employed) (fun _ => employed) fun r' _ ran => ?_
    have rest : Employed (dispatch r'.db) := by rw [suspend_aside ran]; exact employed
    unfold updatedProfile Script.left
    dsimp only
    split <;> exact rest

theorem createDeliverer_runs (at_user : (dispatch r.db).user userId = some u)
    (first : ¬HasProfile (dispatch r.db) userId) : ∃ r', createDeliverer userId r = .ok r' := by
  have none_ : delivererByUser r.db userId = none := by
    cases found : delivererByUser r.db userId with
    | none => rfl
    | some d =>
      obtain ⟨at_deliverer,own⟩ := delivererByUser_some found
      exact absurd ⟨d.1,d.2,at_deliverer,own⟩ first
  have user : r.db.rows .user userId = some u := at_user
  have runs : ∃ db, (createProfileTx userId).run r.db = .ok ((),db) := by
    simp [createProfileTx,Except.bind,none_,user]
  obtain ⟨db,ran⟩ := runs
  unfold createDeliverer
  rw [write_commit ran]
  exact ⟨_,rfl⟩

theorem promoteUserToDeliverer_employed (employed : Employed (dispatch r.db))
    (whole : (AccountCall.promoteUserToDeliverer userId).Whole (dispatch r.db) r.db fault) :
    Employed (dispatch ((promoteUserToDeliverer userId).left fault r).db) := by
  unfold promoteUserToDeliverer Script.left
  dsimp only
  split
  · exact employed
  refine Script.left_write (Q := Records.Employed) (fun _ => employed) fun r' unbroken ran => ?_
  obtain ⟨u,at_user,after⟩ := writeRole_parts ran
  refine Script.left_write (Q := Records.Employed) (fun broken => ?_) fun last _ made => ?_
  · -- The role without the profile stays only where the profile was there before.
    have profile : HasProfile (dispatch r.db) userId := by
      rcases broken with cut | ⟨e,refused⟩
      · exact whole (Script.second_write unbroken cut) u at_user
      · by_contra first
        obtain ⟨last,made⟩ := createDeliverer_runs (r := r') (by rw [after]; exact Function.update_self ..)
          (by rw [after]; exact first)
        rw [made] at refused; cases refused
    exact employed_role employed ran fun role u is _ => by cases is; exact iff_of_true rfl profile
  · obtain ⟨d,u',_,fresh,only,made⟩ := createDeliverer_parts made
    have rest : Employed (dispatch last.db) := by
      rw [made,after]
      rw [after] at fresh only
      have owned : Profiled {dispatch r.db with
          user := Function.update (dispatch r.db).user userId (some {u with role := .deliverer})} :=
        profiled_role employed.toProfiled
      refine ⟨⟨?_,?_⟩,?_⟩
      · intro k p found
        rcases update_some found with ⟨_,rfl⟩ | ⟨_,before⟩
        · exact ⟨_,Function.update_self ..⟩
        · exact owned.owned k p before
      · intro k k' p p' found found' same
        rcases update_some found with ⟨rfl,rfl⟩ | ⟨_,before⟩
        · rcases update_some found' with ⟨rfl,_⟩ | ⟨_,before'⟩
          · rfl
          · exact absurd same.symm (only k' p' before')
        · rcases update_some found' with ⟨rfl,rfl⟩ | ⟨_,before'⟩
          · exact absurd same (only k p before)
          · exact employed.once k k' p p' before before' same
      · intro k u'' found
        refine Iff.trans ?_ (profile_made fresh rfl).symm
        rcases update_some found with ⟨rfl,rfl⟩ | ⟨apart,before⟩
        · exact iff_of_true rfl (.inl rfl)
        · refine (employed.together k u'' before).trans ?_
          exact ⟨.inr,fun either => either.resolve_left apart⟩
    unfold Script.left
    dsimp only
    split <;> exact rest

theorem removeDeliverer_employed (employed : Employed (dispatch r.db))
    (whole : (AccountCall.removeDeliverer userId).Whole (dispatch r.db) r.db fault) :
    Employed (dispatch ((removeDeliverer userId).left fault r).db) := by
  unfold removeDeliverer Script.left
  dsimp only
  split
  · exact employed
  refine Script.left_write (Q := Records.Employed) (fun _ => employed) fun r' unbroken ran => ?_
  obtain ⟨site,done,rfl⟩ := write_ok ran
  obtain ⟨db,body,rfl⟩ := commit_ok done
  obtain ⟨d,p,at_profile,mine,after⟩ := deleteProfileTx_parts body
  have forgot : dispatch ({r with site := r.site.withDb db} : Records).db = (dispatch r.db).forget d := after
  have profiled : Profiled ((dispatch r.db).forget d) := by
    refine ⟨fun k q found => ?_,fun k k' q q' found found' => ?_⟩
    · rw [Dispatch.forget_deliverer] at found
      exact employed.owned k q (removed_some.mp found).1
    · rw [Dispatch.forget_deliverer] at found found'
      exact employed.once k k' q q' (removed_some.mp found).1 (removed_some.mp found').1
  obtain ⟨u,at_user⟩ := employed.owned d p at_profile
  rw [mine] at at_user
  refine Script.left_write (Q := Records.Employed) (fun broken => ?_) fun last _ ran => ?_
  · rcases broken with cut | ⟨e,refused⟩
    · exact absurd ⟨d,p,at_profile,mine⟩ (whole (Script.second_write unbroken cut))
    · obtain ⟨last,written⟩ := writeRole_runs (r := {r with site := r.site.withDb db}) (some .customer)
        (by rw [forgot]; exact at_user)
      rw [written] at refused; cases refused
  · obtain ⟨u,_,written⟩ := writeRole_parts ran
    rw [forgot] at written
    show Employed (dispatch last.db)
    rw [written]
    refine ⟨profiled_role profiled,?_⟩
    intro k u' found
    have forgotten := profile_forgotten (i := k) employed.toProfiled at_profile mine
    rcases update_some found with ⟨rfl,rfl⟩ | ⟨apart,before⟩
    · exact iff_of_false (fun no => by cases no) fun profile => (forgotten.mp profile).1 rfl
    · refine (employed.together k u' before).trans (Iff.trans ?_ forgotten.symm)
      exact ⟨fun profile => ⟨apart,profile⟩,And.right⟩

end Calls

-- One call after another, each with the number of the write that fails in it.
def AccountRun (hash : String → String) (may : Records → AccountCall × Option Nat → Prop) : Records → Records → Prop :=
  Reaches (fun r made => made.1.left hash made.2 r) may

-- The deliverer that an assignment picks can log in to its namespace, as the deliverer
-- of the job.
def PicksServing (env : Env) (v : Database) : Prop := ∀ fresh lat lng d,
  chosenDeliverer env (withLocation fresh (availableDeliverers env v)) lat lng = some d →
    ∃ p u, v.rows .delivererProfile d.1 = some p ∧ v.rows .user p.userId = some u ∧ u.role = .deliverer ∧
      ∀ (jwt : Jwt) secret hub client email,
        Space.deliverer.welcomes env v hub client (Space.deliverer.verify jwt secret
          (AuthService.generateToken jwt secret ⟨p.userId,email,u.role,some d.1⟩)) = some p.userId ∧
        delivererByUser v p.userId = some (d.1,p)

theorem picks_serving {env : Env} {v : Database} (employed : Employed (dispatch v)) : PicksServing env v := by
  intro fresh lat lng d chosen
  obtain ⟨p,available⟩ := chosen_available chosen
  obtain ⟨at_deliverer,_⟩ := mem_availableDeliverers.mp available
  obtain ⟨u,at_user⟩ := employed.owned d.1 p at_deliverer
  have role : u.role = .deliverer := (employed.together _ u at_user).mpr ⟨d.1,p,at_deliverer,rfl⟩
  have own : delivererByUser v p.userId = some (d.1,p) := by
    cases found : delivererByUser v p.userId with
    | none => exact absurd rfl (delivererByUser_none found at_deliverer)
    | some entry =>
      obtain ⟨k,q⟩ := entry
      obtain ⟨at_entry,same⟩ := delivererByUser_some found
      have one : k = d.1 := employed.once k d.1 q p at_entry at_deliverer same
      subst one
      obtain rfl : q = p := Option.some.inj (at_entry.symm.trans at_deliverer)
      rfl
  refine ⟨p,u,at_deliverer,at_user,role,?_⟩
  intro jwt secret hub client email
  rw [verify_registered rfl,role]
  exact ⟨welcomes_deliverer.mpr (by rw [own]; rfl),own⟩

theorem account_employed {hash : String → String} {r : Records} (employed : r.Employed) (whole : AccountCall.Whole (dispatch r.db) r.db fault call) :
    (call.left hash fault r).Employed := by
  cases call with
  | register => exact register_employed employed
  | updateUserRole => exact updateUserRole_employed employed whole
  | approveVendorPromotion => exact approveVendorPromotion_employed employed whole
  | promoteUserToDeliverer => exact promoteUserToDeliverer_employed employed whole
  | removeDeliverer => exact removeDeliverer_employed employed whole

theorem deliverer_role_profile {env : Env} {hash : String → String} (employed : Records.Employed start)
    (path : AccountRun hash (fun r made => made.1.Whole (dispatch r.db) r.db made.2) start r) :
    Together (dispatch r.db) ∧ PicksServing env r.db := by
  have kept := reaches_keeps (P := Records.Employed) employed (fun _ _ => account_employed) path
  exact ⟨kept.together,picks_serving kept⟩

theorem employed_morning : (recordsOf morning).Employed := by
  have deliverers : ∀ d p, (dispatch morning.db).deliverer d = some p → p.userId = d+2 ∧ d < 2 := by
    intro d p found
    have member : (villageRows .delivererProfile)[d]? = some p := found
    match d with
    | 0 => cases member; exact ⟨rfl,by omega⟩
    | 1 => cases member; exact ⟨rfl,by omega⟩
    | _+2 => cases member
  refine ⟨⟨?_,?_⟩,?_⟩
  · intro d p found
    obtain ⟨own,below⟩ := deliverers d p found
    rw [own]
    match d with
    | 0 => exact ⟨_,rfl⟩
    | 1 => exact ⟨_,rfl⟩
  · intro d d' p p' found found' same
    have own := (deliverers d p found).1
    have own' := (deliverers d' p' found').1
    omega
  · intro i u found
    have member : (villageRows .user)[i]? = some u := found
    match i with
    | 0 =>
      cases member
      refine iff_of_false nofun ?_
      rintro ⟨d,p,at_deliverer,own⟩
      have own' := (deliverers d p at_deliverer).1
      omega
    | 1 =>
      cases member
      refine iff_of_false nofun ?_
      rintro ⟨d,p,at_deliverer,own⟩
      have own' := (deliverers d p at_deliverer).1
      omega
    | 2 => cases member; exact iff_of_true rfl ⟨0,_,rfl,rfl⟩
    | 3 => cases member; exact iff_of_true rfl ⟨1,_,rfl,rfl⟩
    | _+4 => cases member

-- The customer is promoted, and one of the deliverers removed.
theorem deliverer_role_profile_morning : ∃ r,
    AccountRun (fun text => text) (fun r made => made.1.Whole (dispatch r.db) r.db made.2) (recordsOf morning) r ∧
      Together (dispatch r.db) ∧ PicksServing village r.db := by
  have promoted : AccountRun (fun text => text) (fun r made => made.1.Whole (dispatch r.db) r.db made.2)
      (recordsOf morning) (AccountCall.left _ none (recordsOf morning) (.promoteUserToDeliverer 0)) :=
    .next (a := ((.promoteUserToDeliverer 0 : AccountCall),none)) .start (by intro cut; cases cut)
  have path : AccountRun (fun text => text) (fun r made => made.1.Whole (dispatch r.db) r.db made.2)
      (recordsOf morning) (AccountCall.left _ none _ (.removeDeliverer 2)) :=
    .next (a := ((.removeDeliverer 2 : AccountCall),none)) promoted (by intro cut; cases cut)
  exact ⟨_,path,deliverer_role_profile employed_morning path⟩

-- An administrator makes the customer a deliverer by role alone.
theorem deliverer_role_alone : ¬∀ (hash : String → String) (start r : Records), start.Employed →
    AccountRun hash (fun _ _ => True) start r → Together (dispatch r.db) := by
  intro claim
  have together := claim (fun text => text) (recordsOf morning) _ employed_morning
    (.next (a := (.updateUserRole 0 (some (.str "DELIVERER")) none,none)) .start trivial)
  obtain ⟨d,p,at_deliverer,own⟩ := (together 0 ⟨.deliverer,none,false⟩ rfl).mp rfl
  have member : (villageRows .delivererProfile)[d]? = some p := at_deliverer
  match d with
  | 0 => cases member; cases own
  | 1 => cases member; cases own
  | _+2 => cases member

end MesyafMarket
