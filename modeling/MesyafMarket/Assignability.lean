import MesyafMarket.AssignmentRuns
import MesyafMarket.Dispatch.Joins
import MesyafMarket.Exclusivity

namespace MesyafMarket
open Relational OrderService DelivererAssignmentService DelivererJobService DelivererRecoveryService

namespace VendorService

-- Both coordinates are optional. An update leaves a field alone that is absent and
-- may set it to null.
structure CreateVendorProfileDto where
  latitude : Option Rat
  longitude : Option Rat

structure UpdateVendorProfileDto where
  latitude : Option (Option Rat)
  longitude : Option (Option Rat)

def createProfileTx (userId : Nat) (dto : CreateVendorProfileDto) : Transaction Unit := do
  let existing ← Tx.select fun v => vendorByUser v userId
  let user ← Tx.findUnique Tab.user userId
  if existing.isSome then .throw (.conflict "Vendor profile already exists")
  else if user.isNone then .throw .foreignKeyViolation
  else do
    let _ ← Tx.create Tab.vendorProfile fun _ =>
      (⟨userId,dto.latitude,dto.longitude,false,true⟩ : VendorProfile)

def updateProfileTx (userId : Nat) (dto : UpdateVendorProfileDto) : Transaction Unit :=
  Tx.update .vendorProfile (fun _ (p : VendorProfile) => p.userId = userId)
    (fun _ p => {p with latitude := dto.latitude.getD p.latitude,longitude := dto.longitude.getD p.longitude})
    (.notFound "Vendor profile not found")

end VendorService

namespace AdminService

-- The update of the profile; the user's role is written by another statement.
def approveVendorPromotionTx (vendorId : Nat) : Transaction Unit :=
  Tx.update .vendorProfile (fun i _ => i = vendorId) (fun _ (p : VendorProfile) => {p with isVerified := true,isActive := true})
    (.notFound "Vendor profile not found")

end AdminService

inductive VendorWrite where
  | createProfile (userId : Nat) (dto : VendorService.CreateVendorProfileDto)
  | updateProfile (userId : Nat) (dto : VendorService.UpdateVendorProfileDto)
  | approveVendorPromotion (vendorId : Nat)

def VendorWrite.body : VendorWrite → Transaction Unit
  | createProfile userId dto => VendorService.createProfileTx userId dto
  | updateProfile userId dto => VendorService.updateProfileTx userId dto
  | approveVendorPromotion vendorId => AdminService.approveVendorPromotionTx vendorId

def VendorWrites (db db' : Database) : Prop := ∃ write : VendorWrite, write.body.run db = .ok ((),db')

theorem vendorWrites_aside (commit : VendorWrites db db') : dispatch db' = dispatch db := by
  obtain ⟨write,ran⟩ := commit
  cases write with
  | createProfile userId dto =>
    simp only [VendorWrite.body,VendorService.createProfileTx] at ran
    obtain ⟨existing,_,selected,ran⟩ := Tx.run_bind_ok.mp ran
    rw [Tx.run_select] at selected
    cases selected
    obtain ⟨user,_,found,ran⟩ := Tx.run_bind_ok.mp ran
    rw [Tx.run_findUnique] at found
    cases found
    split at ran
    · cases ran
    · split at ran
      · cases ran
      · obtain ⟨_,_,created,ended⟩ := Tx.run_bind_ok.mp ran
        rw [Tx.run_create] at created
        cases created
        cases ended
        simp [dispatch]
  | updateProfile userId dto =>
    simp only [VendorWrite.body,VendorService.updateProfileTx] at ran
    obtain ⟨rfl,_⟩ := update_parts ran
    simp [dispatch]
  | approveVendorPromotion vendorId =>
    simp only [VendorWrite.body,AdminService.approveVendorPromotionTx] at ran
    obtain ⟨rfl,_⟩ := update_parts ran
    simp [dispatch]

theorem vendorWrites_clock (commit : VendorWrites db db') : db'.clock = db.clock := by
  obtain ⟨write,ran⟩ := commit
  exact run_clock ran

theorem trading_holds {env : Env} (opening : Opening start)
    (path : ReachedBeside (market env) Excluding VendorWrites start w) :
    Market.Holds (fun c => Jobs c ∧ Held c) stillHolds w ∧ OneSweep w := by
  induction path with
  | refl =>
    refine ⟨⟨⟨opening_jobs opening,opening_held opening⟩,?_,fun _ _ => trivial⟩,?_,?_⟩
    · intro p x found; rw [opening.threads p] at found; cases found
    · rintro p q ⟨x,found,_⟩; rw [opening.threads p] at found; cases found
    · intro p x found; rw [opening.threads p] at found; cases found
  | step _ allowed ih =>
    obtain ⟨valid,one,none⟩ := ih
    exact ⟨holds_move (sound_of_kept (kept_exclusive env)) valid ⟨allowed,one,none⟩,
      fun p q => one_sweep_move allowed.1 allowed.2.1 one,fun p z => no_removal_move allowed.1 allowed.2.2 none⟩
  | outside _ commit ih =>
    obtain ⟨valid,others⟩ := ih
    have same := vendorWrites_aside commit
    refine ⟨⟨?_,?_,fun _ _ => trivial⟩,others⟩
    · have inv := valid.inv
      dsimp only at inv ⊢
      rw [same]; exact inv
    · intro p x found
      have known := valid.fact p x found
      dsimp only at known ⊢
      rw [same,vendorWrites_clock commit]; exact known

-- The batch, its job and the deliverer all say that `d` delivers it.
def AssignedTo (db : Database) (b d : Nat) : Prop :=
  ∃ k j job p, db.rows .deliveryBatch b = some k ∧ k.delivererId = some d ∧
    db.rows .deliveryJob j = some job ∧ job.batchId = b ∧ job.status = .assigned ∧ job.delivererId = some d ∧
    db.rows .delivererProfile d = some p ∧ p.activeJobId = some j

-- assignDelivererToBatch, alone and without failures, comes to an end and has
-- given the batch to one of the candidates.
def AlwaysAssigned (env : Env) (w : Market) (b : Nat) : Prop :=
  (∃ last, Ends (market env) w.spawned (w.start (.assignDelivererToBatch b .worker)) last) ∧
  ∀ last, Ends (market env) w.spawned (w.start (.assignDelivererToBatch b .worker)) last →
    ∃ d p, (d,p) ∈ availableDeliverers env w.db ∧ AssignedTo last.db b d

theorem start_threads (w : Market) : (w.start x).threads w.spawned = some x := by
  simp [World.start]

-- Every route through assignDelivererToBatch ends in the transaction, and the
-- transaction commits.
theorem assigns_located {env : Env} {db : Database} (referring : Referring (dispatch db)) (unheld : (dispatch db).Unheld b)
    (at_batch : db.rows .deliveryBatch b = some k)
    (closed : k.status = .inProgress) (unclaimed : k.delivererId = none) (orders : batchOrders env db b = first::rest)
    (at_lat : first.2.vendorLat = some lat) (at_lng : first.2.vendorLng = some lng)
    (candidates : availableDeliverers env db ≠ []) :
    (∃ reply after, AssignsAlone env db b reply after) ∧
    ∀ reply after, AssignsAlone env db b reply after → ∃ d p j base, (d,p) ∈ availableDeliverers env db ∧
      ((∃ old, (dispatch db).job j = some old ∧ old.batchId = b) ∨
        ((dispatch db).job j = none ∧ ∀ i old, (dispatch db).job i = some old → old.batchId ≠ b)) ∧
      (∀ s, base ≤ s → (dispatch db).stop s = none) ∧
      dispatch after = (dispatch db).assign db.clock b d j base (first::rest) k p ∧ after.clock = db.clock := by
  have read := batchToAssign_of at_batch unclaimed orders at_lat at_lng .worker
  have runs : ∀ d : Nat × DelivererProfile, (∃ p, (d.1,p) ∈ availableDeliverers env db) →
      ∃ j after, (assignTx b (first::rest) d.1).run db = .ok (j,after) := by
    intro d available
    obtain ⟨p,member⟩ := available
    obtain ⟨found,candidate⟩ := mem_availableDeliverers.mp member
    obtain ⟨free,idle⟩ := candidate_free candidate
    exact assignTx_runs referring unheld at_batch unclaimed closed found free idle
  constructor
  · obtain ⟨d,chosen⟩ := chosen_some env (getMany (fun _ => none) db) lat lng candidates
    obtain ⟨j,after,ran⟩ := runs d (chosen_available chosen)
    exact ⟨.done,after,.assigned read _ chosen ran⟩
  · intro reply after alone
    cases alone with
    | skipped skips => cases skips.symm.trans read
    | nobody _ none => exact absurd none candidates
    | failed read' redis chosen ran =>
      cases read.symm.trans read'
      obtain ⟨j,after,ok⟩ := runs _ (chosen_available chosen)
      cases ran.symm.trans ok
    | @assigned _ _ _ c _ _ read' redis chosen ran =>
      cases read.symm.trans read'
      obtain ⟨p,member⟩ := chosen_available chosen
      obtain ⟨found,_⟩ := mem_availableDeliverers.mp member
      obtain ⟨k',p',base,same,_,_,at_d,_,_,_,job,fresh,result⟩ := assignTx_parts ran
      have at_k : (dispatch db).batch b = some k := at_batch
      have at_p : (dispatch db).deliverer c.1 = some p := found
      cases at_k.symm.trans same
      cases at_p.symm.trans at_d
      exact ⟨c.1,p,_,base,member,job,fresh,result,run_clock ran⟩

theorem always_assigned {env : Env} {w : Market} (referring : Referring (dispatch w.db)) (unheld : (dispatch w.db).Unheld b)
    (at_batch : w.db.rows .deliveryBatch b = some k)
    (closed : k.status = .inProgress) (unclaimed : k.delivererId = none) (nonempty : members w.db b ≠ [])
    (candidates : availableDeliverers env w.db ≠ [])
    (located : ∀ first rest, batchOrders env w.db b = first::rest →
      first.2.vendorLat.isSome = true ∧ first.2.vendorLng.isSome = true) : AlwaysAssigned env w b := by
  cases orders : batchOrders env w.db b with
  | nil =>
    have same : (batchOrders env w.db b).Perm (members w.db b) :=
      (List.perm_insertionSort _ _).trans (env.scan_perm w.db _)
    rw [orders] at same
    exact absurd (List.nil_perm.mp same) nonempty
  | cons first rest =>
    obtain ⟨someLat,someLng⟩ := located first rest orders
    obtain ⟨lat,at_lat⟩ := Option.isSome_iff_exists.mp someLat
    obtain ⟨lng,at_lng⟩ := Option.isSome_iff_exists.mp someLng
    have ends : ∀ last, Ends (market env) w.spawned (w.start (.assignDelivererToBatch b .worker)) last ↔ _ :=
      fun last => ends_assign (start_threads w)
    obtain ⟨⟨reply,after,alone⟩,always⟩ :=
      assigns_located referring unheld at_batch closed unclaimed orders at_lat at_lng candidates
    refine ⟨⟨_,(ends _).mpr ⟨reply,after,alone,rfl⟩⟩,?_⟩
    intro last ended
    obtain ⟨reply,after,alone,rfl⟩ := (ends last).mp ended
    obtain ⟨d,p,j,base,member,_,_,result,_⟩ := always reply after alone
    have batch : after.rows .deliveryBatch b = some {k with delivererId := some d} :=
      (congrFun (congrArg Dispatch.batch result) b).trans (Function.update_self ..)
    have job : after.rows .deliveryJob j = some (assignedJob b d (first::rest).length w.db.clock) :=
      (congrFun (congrArg Dispatch.job result) j).trans (Function.update_self ..)
    have profile : after.rows .delivererProfile d = some {p with availability := false,activeJobId := some j} :=
      (congrFun (congrArg Dispatch.deliverer result) d).trans (Function.update_self ..)
    exact ⟨d,p,member,_,j,_,_,batch,rfl,job,rfl,rfl,rfl,profile,rfl⟩

theorem closed_batch_assigned {env : Env} (opening : Opening start)
    (path : ReachedBeside (market env) Excluding VendorWrites start w) (at_batch : w.db.rows .deliveryBatch b = some k)
    (closed : k.status = .inProgress) (unclaimed : k.delivererId = none) (nonempty : members w.db b ≠ [])
    (candidates : availableDeliverers env w.db ≠ [])
    (located : ∀ first rest, batchOrders env w.db b = first::rest →
      first.2.vendorLat.isSome = true ∧ first.2.vendorLng.isSome = true) : AlwaysAssigned env w b := by
  have held := (trading_holds opening path).1.inv.2
  exact always_assigned (held_referring held) (held_unheld held at_batch unclaimed closed) at_batch closed unclaimed nonempty
    candidates located

-- An order is placed, made ready and closed; its assignment waits in the queue.
def closedByTimer : List MarketMove :=
  ask (.createOrder ⟨[],none,some 0,some 0,none,none⟩ 0 0) 0 3 ++ ask (.vendorMarkReady 0 1) 1 5 ++ .work 0::steps 2 2

theorem closedByTimer_moves : ∀ m ∈ closedByTimer, ∀ w, Excluding w m := by
  intro m member w
  rcases List.mem_append.mp member with member | closing
  · rcases List.mem_append.mp member with placed | marked
    · exact ask_moves (P := Excluding w) (fun _ _ => ⟨trivial,trivial,trivial⟩) ⟨.createOrder,trivial,trivial⟩ m placed
    · exact ask_moves (P := Excluding w) (fun _ _ => ⟨trivial,trivial,trivial⟩) ⟨.vendorMarkReady,trivial,trivial⟩ m marked
  · have taken : Excluding w (.work 0) := ⟨trivial,trivial,trivial⟩
    exact List.forall_mem_cons.mpr ⟨taken,steps_moves (P := Excluding w) fun _ _ => ⟨trivial,trivial,trivial⟩⟩ m closing

theorem closed_batch_assigned_village : AlwaysAssigned village (morning.run (market village) closedByTimer) 0 := by
  have batch : ((morning.run (market village) closedByTimer).db.rows .deliveryBatch 0).map
      (fun (k : DeliveryBatch) => (k.status,k.delivererId)) = some (.inProgress,none) := by decide +kernel
  obtain ⟨k,at_batch,same⟩ := Option.map_eq_some_iff.mp batch
  refine closed_batch_assigned opening_morning (beside_moves .refl closedByTimer closedByTimer_moves) at_batch
    (congrArg Prod.fst same) (congrArg Prod.snd same) (by decide +kernel) (by decide +kernel) ?_
  have read : ((batchOrders village (morning.run (market village) closedByTimer).db 0).head?.all fun first =>
      first.2.vendorLat.isSome && first.2.vendorLng.isSome) = true := by decide +kernel
  intro first rest orders
  rw [orders,List.head?_cons,Option.all_some,Bool.and_eq_true] at read
  exact read

def VendorWrite.after (write : VendorWrite) (db : Database) : Database :=
  match write.body.run db with
  | .ok r => r.2
  | .error _ => db

theorem vendorWrites_after (write : VendorWrite) (db : Database) (ran : (write.body.run db).isOk = true) :
    VendorWrites db (write.after db) := by
  refine ⟨write,?_⟩
  unfold VendorWrite.after
  cases result : write.body.run db with
  | ok r => rfl
  | error e => rw [result] at ran; cases ran

-- The same village before its vendor has a shop.
def newcomers : (t : Tab) → List (Row t)
  | .vendorProfile => []
  | t => villageRows t

theorem opening_newcomers : Opening (premises newcomers) := by
  refine opening_premises rfl rfl rfl rfl ?_
  intro p member
  simp only [newcomers,villageRows,List.mem_cons,List.not_mem_nil,or_false] at member
  rcases member with rfl | rfl <;> rfl

def unverifiedShop : Database := (VendorWrite.createProfile 1 ⟨none,none⟩).after (premises newcomers).db

def unlocatedShop : Database := (VendorWrite.approveVendorPromotion 0).after unverifiedShop

-- A shop without coordinates: its batch is closed and is never given to anybody.
theorem closed_batch_unassigned : ¬∀ (env : Env) (start w : Market) (b : Nat) (k : DeliveryBatch), Opening start →
    ReachedBeside (market env) Excluding VendorWrites start w → w.db.rows .deliveryBatch b = some k →
    k.status = .inProgress → k.delivererId = none → members w.db b ≠ [] → availableDeliverers env w.db ≠ [] →
    AlwaysAssigned env w b := by
  intro claim
  have created : VendorWrites (premises newcomers).db unverifiedShop :=
    vendorWrites_after _ (premises newcomers).db (by decide +kernel)
  have approved : VendorWrites unverifiedShop unlocatedShop := vendorWrites_after _ unverifiedShop (by decide +kernel)
  have unverified : ReachedBeside (market village) Excluding VendorWrites (premises newcomers)
      {premises newcomers with db := unverifiedShop} := .outside .refl created
  have shop : ReachedBeside (market village) Excluding VendorWrites (premises newcomers)
      {premises newcomers with db := unlocatedShop} := (ReachedBeside.outside unverified approved :)
  have path := beside_moves shop closedByTimer closedByTimer_moves
  have batch : ((({premises newcomers with db := unlocatedShop} : Market).run (market village) closedByTimer).db.rows
      .deliveryBatch 0).map (fun (k : DeliveryBatch) => (k.status,k.delivererId)) = some (.inProgress,none) := by
    decide +kernel
  obtain ⟨k,at_batch,same⟩ := Option.map_eq_some_iff.mp batch
  obtain ⟨_,always⟩ := claim village _ _ 0 k opening_newcomers path at_batch (congrArg Prod.fst same)
    (congrArg Prod.snd same) (by decide +kernel) (by decide +kernel)
  have unlocated : ((batchOrders village (({premises newcomers with db := unlocatedShop} : Market).run (market village)
      closedByTimer).db 0).head?.all fun first => first.2.vendorLat.isNone) = true := by decide +kernel
  have skips : Proc.batchToAssign village (({premises newcomers with db := unlocatedShop} : Market).run (market village)
      closedByTimer).db 0 .worker = .returned .done := by
    rcases batchToAssign_cases village (({premises newcomers with db := unlocatedShop} : Market).run (market village)
        closedByTimer).db 0 .worker with skips | ⟨_,first,rest,lat,_,_,_,orders,at_lat,_⟩
    · exact skips
    · rw [orders,List.head?_cons,Option.all_some,at_lat] at unlocated
      cases unlocated
  obtain ⟨d,p,_,k',_,_,_,after,claimed,_⟩ := always _ ((ends_assign (start_threads _)).mpr ⟨.done,_,.skipped skips,rfl⟩)
  have unclaimed : k.delivererId = none := congrArg Prod.snd same
  cases at_batch.symm.trans after
  rw [unclaimed] at claimed
  cases claimed

end MesyafMarket
