import MesyafMarket.Http
import MesyafMarket.VendorDecision
import MesyafMarket.Relational.Listing

namespace MesyafMarket
open Relational VendorService DelivererService

structure ListedItem where
  id : Nat
  item : OrderItem
  product : Option Product

structure ListedOrder where
  id : Nat
  order : Order
  orderItems : Multiset ListedItem

structure ListedVendorOrder extends ListedOrder where
  customer : Option User

structure ListedJobOrder extends ListedVendorOrder where
  vendor : Option VendorProfile

structure ListedJob where
  id : Nat
  job : DeliveryJob
  orders : Multiset ListedJobOrder
  stops : Multiset (Nat × DeliveryDropOff)

-- The relations that the queries include.
def withItems (v : Database) (o : Nat × Order) : ListedOrder where
  id := o.1
  order := o.2
  orderItems := (v.listing .orderItem fun _ (item : OrderItem) => item.orderId = o.1).map fun item =>
    ⟨item.1,item.2,v.rows .product item.2.productId⟩

def withCustomer (v : Database) (o : Nat × Order) : ListedVendorOrder :=
  {withItems v o with customer := v.rows .user o.2.customerId}

def withVendor (v : Database) (o : Nat × Order) : ListedJobOrder :=
  {withCustomer v o with vendor := v.rows .vendorProfile o.2.vendorId}

def withOrders (v : Database) (job : Nat × DeliveryJob) : ListedJob where
  id := job.1
  job := job.2
  orders := (v.listing .order fun _ (o : Order) => o.deliveryJobId = some job.1).map (withVendor v)
  stops := v.listing .deliveryDropOff fun _ (stop : DeliveryDropOff) => stop.jobId = job.1

namespace UsersService

def getUserOrders (v : Database) (userId : Option Nat) (status : Option OrderStatus) : Multiset ListedOrder :=
  (v.listing .order fun _ (o : Order) => filtered userId o.customerId && filtered status o.status).map (withItems v)

end UsersService

namespace UsersController

def getUserOrders (v : Database) (received : Request) (status : Option OrderStatus) :
    Except Failure (Multiset ListedOrder) := do
  let req ← authGuard received
  let userId ← req.userNumber "userId"
  return UsersService.getUserOrders v userId status

end UsersController

namespace VendorService

def getVendorOrders (v : Database) (userId : Nat) (orderStatus : Option OrderStatus) :
    Except Failure (Multiset ListedVendorOrder) :=
  match vendorByUser v userId with
  | none => .error (.service (.notFound "Vendor profile not found"))
  | some vendorProfile => .ok <| (v.listing .order fun _ (o : Order) =>
      o.vendorId = vendorProfile.1 && filtered orderStatus o.status).map (withCustomer v)

end VendorService

namespace VendorController

def getVendorOrders (v : Database) (received : Request) (status : OrderStatus) :
    Except Failure (Multiset ListedVendorOrder) := do
  let req ← authGuard received
  let userId ← uniqueId (← req.userNumber "id")
  VendorService.getVendorOrders v userId (some status)

-- Neither handler has a guard.
def decide (decision : Decision) (received : Request) (orderId : Nat) : Except Failure Proc := do
  let userId ← uniqueId (← received.userNumber "id")
  return .vendorDecide decision orderId userId

def vendorAcceptOrder (received : Request) (orderId : Nat) : Except Failure Proc :=
  decide .vendorAcceptOrder received orderId

def vendorRejectOrder (received : Request) (orderId : Nat) : Except Failure Proc :=
  decide .vendorRejectOrder received orderId

end VendorController

namespace DelivererJobService

def getDelivererJobs (v : Database) (userId : Nat) (jobStatus : Option JobStatus) :
    Except Failure (Multiset ListedJob) :=
  match delivererByUser v userId with
  | none => .error (.service (.notFound "Deliverer profile not found"))
  | some deliverer => .ok <| (v.listing .deliveryJob fun _ (job : DeliveryJob) =>
      job.delivererId = some deliverer.1 && filtered jobStatus job.status).map (withOrders v)

end DelivererJobService

namespace DelivererController

def getDelivererJobs (v : Database) (received : Request) (status : Option JobStatus) :
    Except Failure (Multiset ListedJob) := do
  let req ← authGuard received
  let userId ← uniqueId (← req.userNumber "id")
  DelivererJobService.getDelivererJobs v userId status

end DelivererController

inductive ListRequest where
  | getUserOrders (status : Option OrderStatus)
  | getVendorOrders (status : OrderStatus)
  | getDelivererJobs (status : Option JobStatus)

inductive Listed where
  | orders (rows : Multiset ListedOrder)
  | vendorOrders (rows : Multiset ListedVendorOrder)
  | jobs (rows : Multiset ListedJob)

def ListRequest.answer (request : ListRequest) (payload : JwtPayload) (v : Database) : Except Failure Listed :=
  match request with
  | getUserOrders status => (UsersController.getUserOrders v (.carrying payload) status).map .orders
  | getVendorOrders status => (VendorController.getVendorOrders v (.carrying payload) status).map .vendorOrders
  | getDelivererJobs status => (DelivererController.getDelivererJobs v (.carrying payload) status).map .jobs

def decided (decision : Decision) (payload : JwtPayload) (orderId : Nat) : Except Failure Proc :=
  match decision with
  | .vendorAcceptOrder => VendorController.vendorAcceptOrder (.carrying payload) orderId
  | .vendorRejectOrder => VendorController.vendorRejectOrder (.carrying payload) orderId

section Caller
variable (v : Database) (userId : Nat)

def OwnOrder (o : Order) : Bool := o.customerId = userId
def ShopOrder (o : Order) : Bool := ((vendorByUser v userId).map Prod.fst) = some o.vendorId
def OwnJob (job : DeliveryJob) : Bool :=
  job.delivererId.isSome && ((delivererByUser v userId).map Prod.fst) = job.delivererId

-- What the three lists should hold: the caller's rows and no others. A caller
-- without the profile that the request is about has no list.
def ListRequest.own : ListRequest → Except Failure Listed
  | getUserOrders status => .ok <| .orders <| (v.listing .order fun _ (o : Order) =>
      OwnOrder userId o && filtered status o.status).map (withItems v)
  | getVendorOrders status =>
    if (vendorByUser v userId).isNone then .error (.service (.notFound "Vendor profile not found"))
    else .ok <| .vendorOrders <| (v.listing .order fun _ (o : Order) =>
      ShopOrder v userId o && o.status = status).map (withCustomer v)
  | getDelivererJobs status =>
    if (delivererByUser v userId).isNone then .error (.service (.notFound "Deliverer profile not found"))
    else .ok <| .jobs <| (v.listing .deliveryJob fun _ (job : DeliveryJob) =>
      OwnJob v userId job && filtered status job.status).map (withOrders v)

end Caller

-- The decision of the shop's vendor takes effect, anybody else's changes nothing.
structure Decides (env : Env) (w : Market) (payload : JwtPayload) (decision : Decision) (orderId : Nat) : Prop where
  owner : ∀ o, w.db.rows .order orderId = some o → ShopOrder w.db payload.sub o = true →
    o.status = .pendingVendorConfirmation → (∃ last, Answered env w (decided decision payload orderId) last) ∧
      ∀ last, Answered env w (decided decision payload orderId) last →
        ∃ o', last.db.rows .order orderId = some o' ∧ o'.status = decision.status
  stranger : (∀ o, w.db.rows .order orderId = some o → ShopOrder w.db payload.sub o = false) →
    ∀ last, Answered env w (decided decision payload orderId) last → last.db = w.db

inductive ScopedRequest where
  | list (request : ListRequest)
  | decide (decision : Decision) (orderId : Nat)

def Scoped (env : Env) (w : Market) (payload : JwtPayload) : ScopedRequest → Prop
  | .list request => request.answer payload w.db = request.own w.db payload.sub
  | .decide decision orderId => Decides env w payload decision orderId

def OwnOnly (v : Database) (payload : JwtPayload) : ScopedRequest → Prop
  | .list (.getUserOrders status) => ∀ i (o : Order), v.rows .order i = some o → filtered status o.status = true →
      OwnOrder payload.sub o = true
  | .list _ => True
  | .decide _ orderId => ∀ (o : Order), v.rows .order orderId = some o → ShopOrder v payload.sub o = true →
      o.status ≠ .pendingVendorConfirmation

-- The caller's profiles, orders and jobs with what belongs to each.
structure Agree (userId : Nat) (a b : Database) : Prop where
  vendor : vendorByUser a userId = vendorByUser b userId
  deliverer : delivererByUser a userId = delivererByUser b userId
  order : ∀ i (o : Order), OwnOrder userId o || ShopOrder a userId o →
    (a.rows .order i = some o ↔ b.rows .order i = some o) ∧ withCustomer a (i,o) = withCustomer b (i,o)
  job : ∀ i job, OwnJob a userId job = true →
    (a.rows .deliveryJob i = some job ↔ b.rows .deliveryJob i = some job) ∧ withOrders a (i,job) = withOrders b (i,job)

-- `userId` is no property of what the strategy returns: the filter is dropped.
theorem userOrders_answer (payload : JwtPayload) (v : Database) : (ListRequest.getUserOrders status).answer payload v =
    .ok (.orders ((v.listing .order fun _ (o : Order) => filtered status o.status).map (withItems v))) := rfl

theorem vendorOrders_answer (payload : JwtPayload) (v : Database) :
    (ListRequest.getVendorOrders status).answer payload v = (ListRequest.getVendorOrders status).own v payload.sub := by
  change ((getVendorOrders v payload.sub (some status)).map Listed.vendorOrders) = _
  simp only [getVendorOrders,ListRequest.own,ShopOrder]
  cases vendorByUser v payload.sub with
  | none => rfl
  | some p =>
    simp only [Option.isNone_some,Bool.false_eq_true,if_false,Except.map,Option.map_some,Option.some.injEq,
      filtered_some,eq_comm (a := p.1)]

theorem delivererJobs_answer (payload : JwtPayload) (v : Database) :
    (ListRequest.getDelivererJobs status).answer payload v = (ListRequest.getDelivererJobs status).own v payload.sub := by
  change ((DelivererJobService.getDelivererJobs v payload.sub status).map Listed.jobs) = _
  simp only [DelivererJobService.getDelivererJobs,ListRequest.own]
  cases found : delivererByUser v payload.sub with
  | none => rfl
  | some d =>
    have mine : ∀ job : DeliveryJob, decide (job.delivererId = some d.1) = OwnJob v payload.sub job := by
      intro job
      simp only [OwnJob,found,Option.map_some]
      cases job.delivererId with
      | none => simp
      | some k => simp [eq_comm]
    simp only [Option.isNone_some,Bool.false_eq_true,if_false,Except.map,mine]

-- A listing holds the rows themselves.
theorem withItems_injective (v : Database) : Function.Injective (withItems v) := by
  intro a b same
  exact Prod.ext (congrArg ListedOrder.id same) (congrArg ListedOrder.order same)

theorem userOrders_scoped {env : Env} {w : Market} : Scoped env w payload (.list (.getUserOrders status)) ↔
    OwnOnly w.db payload (.list (.getUserOrders status)) := by
  simp only [Scoped,OwnOnly,userOrders_answer,ListRequest.own,Except.ok.injEq,Listed.orders.injEq]
  rw [(Multiset.map_injective (withItems_injective w.db)).eq_iff,Db.listing_eq]
  simp only [Bool.and_eq_true]
  constructor
  · intro same i o found wanted
    exact ((same i o).mp ⟨found,wanted⟩).2.1
  · intro own i o
    exact ⟨fun listed => ⟨listed.1,own i o listed.1 listed.2,listed.2⟩,fun listed => ⟨listed.1,listed.2.2⟩⟩

-- Without a guard `req.user` is undefined, for the owner and for everybody else.
theorem decided_fails (decision : Decision) (payload : JwtPayload) (orderId : Nat) :
    decided decision payload orderId = .error (.typeError "Cannot read properties of undefined (reading 'id')") := by
  cases decision <;> rfl

theorem decide_scoped {env : Env} {w : Market} :
    Scoped env w payload (.decide decision orderId) ↔ OwnOnly w.db payload (.decide decision orderId) := by
  have still : ∀ last, Answered env w (decided decision payload orderId) last ↔ last = w := by
    intro last; rw [decided_fails]; exact .rfl
  constructor
  · intro decides o found owned pending
    obtain ⟨o',found',written⟩ := (decides.owner o found owned pending).2 w ((still w).mpr rfl)
    rw [found] at found'
    cases found'
    rw [pending] at written
    exact decision_decided decision written.symm
  · intro settled
    refine ⟨fun o found owned pending => absurd pending (settled o found owned),?_⟩
    intro _ last answered
    rw [(still last).mp answered]

theorem vendorOrders_agree {a b : Database} (agree : Agree payload.sub a b) :
    (ListRequest.getVendorOrders status).answer payload a = (ListRequest.getVendorOrders status).answer payload b := by
  rw [vendorOrders_answer,vendorOrders_answer]
  simp only [ListRequest.own,agree.vendor]
  split
  · rfl
  · congr 2
    have shop : ∀ o, ShopOrder b payload.sub o = ShopOrder a payload.sub o := by
      intro o; simp only [ShopOrder,agree.vendor]
    apply Db.listing_map
    · intro i o
      rw [shop]
      simp only [Bool.and_eq_true]
      constructor
      · intro ⟨found,owned,rest⟩
        exact ⟨(agree.order i o (by simp [owned])).1.mp found,owned,rest⟩
      · intro ⟨found,owned,rest⟩
        exact ⟨(agree.order i o (by simp [owned])).1.mpr found,owned,rest⟩
    · intro i o _ hit
      exact (agree.order i o (by simp [(Bool.and_eq_true _ _ ▸ hit).1])).2

theorem delivererJobs_agree {a b : Database} (agree : Agree payload.sub a b) :
    (ListRequest.getDelivererJobs status).answer payload a =
      (ListRequest.getDelivererJobs status).answer payload b := by
  rw [delivererJobs_answer,delivererJobs_answer]
  simp only [ListRequest.own,agree.deliverer]
  split
  · rfl
  · congr 2
    have mine : ∀ job, OwnJob b payload.sub job = OwnJob a payload.sub job := by
      intro job; simp only [OwnJob,agree.deliverer]
    apply Db.listing_map
    · intro i job
      rw [mine]
      simp only [Bool.and_eq_true]
      constructor
      · intro ⟨found,owned,rest⟩
        exact ⟨(agree.job i job owned).1.mp found,owned,rest⟩
      · intro ⟨found,owned,rest⟩
        exact ⟨(agree.job i job owned).1.mpr found,owned,rest⟩
    · intro i job _ hit
      exact (agree.job i job (Bool.and_eq_true _ _ ▸ hit).1).2

def strangersOrder (customerId : Nat) (status : OrderStatus) : Order where
  vendorId := 0
  customerId := customerId
  status := status
  orderType := .empty
  estimatedPrepTime := none
  readyAt := none
  deliveredAt := none
  createdAt := 0
  deliveryFee := none
  delivererId := none
  deliveryJobId := none
  deliveryBatchId := none
  vendorLat := none
  vendorLng := none
  customerAddress := none
  customerLat := none
  customerLng := none

-- Two stores, without any row of the caller, that differ in an order of another customer.
def oneOrder (o : Order) : (t : Tab) → List (Row t)
  | .order => [o]
  | _ => []

theorem strangers_agree (foreign : o.customerId ≠ userId) :
    Agree userId (premises fun _ => []).db (premises (oneOrder o)).db := by
  refine ⟨rfl,rfl,?_,?_⟩
  · intro i r mine
    have own : r.customerId = userId := by
      rcases Bool.or_eq_true _ _ ▸ mine with own | shop
      · exact of_decide_eq_true own
      · cases of_decide_eq_true shop
    refine ⟨⟨nofun,?_⟩,rfl⟩
    intro found
    have same : r = o := List.mem_singleton.mp (List.mem_of_getElem? found)
    rw [same] at own
    exact absurd own foreign
  · intro i job mine
    have none : (job.delivererId.isSome && (decide (Option.none = job.delivererId))) = true := mine
    cases held : job.delivererId with
    | none => rw [held] at none; cases none
    | some d => rw [held] at none; simp at none

theorem strangers_wanted (userId : Nat) (status : Option OrderStatus) :
    ∃ o : Order, o.customerId ≠ userId ∧ filtered status o.status = true := by
  refine ⟨strangersOrder (userId+1) (status.getD .vendorAccepted),Nat.succ_ne_self _,?_⟩
  cases status <;> simp [strangersOrder]

theorem userOrders_disagree (payload : JwtPayload) (status : Option OrderStatus) : ¬∀ a b, Agree payload.sub a b →
    (ListRequest.getUserOrders status).answer payload a = (ListRequest.getUserOrders status).answer payload b := by
  intro same
  obtain ⟨o,foreign,wanted⟩ := strangers_wanted payload.sub status
  have lists := same _ _ (strangers_agree foreign)
  simp only [userOrders_answer,Except.ok.injEq,Listed.orders.injEq] at lists
  have member : (0,o) ∈ (premises (oneOrder o)).db.listing .order fun _ (o : Order) => filtered status o.status :=
    (Db.mem_listing _).mpr ⟨rfl,wanted⟩
  have listed := Multiset.mem_map_of_mem (withItems (premises (oneOrder o)).db) member
  rw [← lists] at listed
  obtain ⟨entry,before,_⟩ := Multiset.mem_map.mp listed
  cases ((Db.mem_listing _).mp before).1

theorem caller_scoped (env : Env) (w : Market) (payload : JwtPayload) :
    (∀ request, Scoped env w payload request ↔ OwnOnly w.db payload request) ∧
    ∀ request : ListRequest, (∀ a b, Agree payload.sub a b → request.answer payload a = request.answer payload b) ↔
      ∀ status, request ≠ .getUserOrders status := by
  constructor
  · intro request
    cases request with
    | decide decision orderId => exact decide_scoped
    | list request =>
      cases request with
      | getUserOrders status => exact userOrders_scoped
      | getVendorOrders status => exact iff_of_true (vendorOrders_answer payload w.db) trivial
      | getDelivererJobs status => exact iff_of_true (delivererJobs_answer payload w.db) trivial
  · intro request
    cases request with
    | getUserOrders status =>
      exact iff_of_false (userOrders_disagree payload status) fun other => other status rfl
    | getVendorOrders status => exact iff_of_true (fun _ _ => vendorOrders_agree) fun _ => nofun
    | getDelivererJobs status => exact iff_of_true (fun _ _ => delivererJobs_agree) fun _ => nofun

-- The customer's order is listed to a deliverer, and the vendor of its shop cannot accept it.
def orderPlaced : Market := morning.run (market village) (ask (.createOrder ⟨[],none,some 0,some 0,none,none⟩ 0 0) 0 3)

theorem caller_unscoped :
    ¬Scoped village orderPlaced ⟨2,"deliverer",.deliverer,some 0⟩ (.list (.getUserOrders none)) ∧
    ¬Scoped village orderPlaced ⟨1,"vendor",.vendor,none⟩ (.decide .vendorAcceptOrder 0) := by
  have placed : (orderPlaced.db.rows .order 0).map (fun (o : Order) => (o.customerId,o.vendorId,o.status)) =
      some (0,0,.pendingVendorConfirmation) := by decide +kernel
  have shop : (vendorByUser orderPlaced.db 1).map Prod.fst = some 0 := by decide +kernel
  obtain ⟨o,found,same⟩ := Option.map_eq_some_iff.mp placed
  simp only [Prod.mk.injEq] at same
  constructor
  · intro kept
    have own := userOrders_scoped.mp kept 0 o found rfl
    simp [OwnOrder,same.1] at own
  · intro kept
    refine decide_scoped.mp kept o found ?_ same.2.2
    simp [ShopOrder,shop,same.2.1]

end MesyafMarket
