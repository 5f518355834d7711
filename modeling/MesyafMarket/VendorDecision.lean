import MesyafMarket.Dispatch.Members

namespace MesyafMarket
open Relational OrderService DelivererAssignmentService DelivererJobService DelivererRecoveryService
open VendorService

-- The vendor's decision, then the moves of an order that has been marked ready.
inductive OrderStatus.Follows : OrderStatus → OrderStatus → Prop where
  | same : Follows status status
  | accept : Follows .pendingVendorConfirmation .vendorAccepted
  | reject : Follows .pendingVendorConfirmation .vendorRejected
  | readyPending : Follows .pendingVendorConfirmation .readyForDelivery
  | readyAccepted : Follows .vendorAccepted .readyForDelivery
  | deliver (ready : status.batched = true) (still : next.batched = true) (further : next ≠ .readyForDelivery) :
      Follows status next

theorem follows_pending (follows : OrderStatus.Follows a b) (decided : a ≠ .pendingVendorConfirmation) :
    b ≠ .pendingVendorConfirmation := by
  cases follows with
  | same => exact decided
  | deliver _ still => intro same; rw [same] at still; cases still
  | _ => exact nofun

theorem follows_batched (follows : OrderStatus.Follows a b) (ready : a.batched = true) : b.batched = true := by
  cases follows with
  | same => exact ready
  | deliver _ still => exact still
  | readyPending => cases ready
  | readyAccepted => cases ready
  | accept => cases ready
  | reject => cases ready

def Follows (c c' : Dispatch) : Prop :=
  ∀ i o, c.order i = some o → ∃ o', c'.order i = some o' ∧ o.status.Follows o'.status

theorem follows_refl (c : Dispatch) : Follows c c := fun _ o found => ⟨o,found,.same⟩

theorem follows_commit (members : Members c) (settled : Settled c) (commit : Committed now x c y c')
    (decides : DecidesPending x c) : Follows c c' := by
  intro i o found
  obtain ⟨o',after⟩ := order_stays commit found
  refine ⟨o',after,?_⟩
  have inBatch : ∀ b, o.deliveryBatchId = some b → o.status.batched = true := by
    intro b part
    rw [← settled i o found,part]; rfl
  have inJob : ∀ j, o.deliveryJobId = some j → o.status.batched = true := by
    intro j part
    obtain ⟨job,_,same⟩ := members.job i o j found part
    exact inBatch _ same
  have change := order_change commit after
  rw [found] at change
  cases change with
  | kept => exact .same
  | readied readyable =>
    simp only [READYABLE_STATUSES,List.mem_cons,List.not_mem_nil,or_false] at readyable
    rcases readyable with pending | accepted
    · rw [pending]; exact .readyPending
    · rw [accepted]; exact .readyAccepted
  | @decided decision =>
    rw [decides _ _ _ _ rfl found]
    cases decision with
    | vendorAcceptOrder => exact .accept
    | vendorRejectOrder => exact .reject
  | handed _ _ _ _ _ _ part => exact .deliver (inBatch _ part) rfl (fun no => by cases no)
  | underway _ _ part => exact .deliver (inJob _ part) rfl (fun no => by cases no)
  | dropped at_job started at_stop part own =>
    obtain ⟨job,its,_,at_order,same⟩ := members.stop _ _ at_stop
    rw [own,found] at at_order
    cases at_order
    exact .deliver (inBatch _ same) rfl (fun no => by cases no)
  | finished _ _ part => exact .deliver (inJob _ part) rfl (fun no => by cases no)
  | released _ _ part => exact .deliver (inJob _ part) rfl (fun no => by cases no)
  | forgotten => exact .same

-- Every decision that lands finds the order still waiting for one.
def Deciding (w : Market) (m : MarketMove) : Prop := Admitted w m ∧ Guarded DecidesPending w m

def batchReads : LocalFacts := ⟨fun _ _ _ => True,ReadOrders,fun _ _ => True⟩

theorem kept_settled (env : Env) : Kept env (fun c => Members c ∧ Settled c) batchReads Deciding where
  admitted _ _ allowed := allowed.1
  later _ _ _ _ known := known
  snapshot _ _ _ _ := trivial
  read v b _ := readOrders_read env v b
  available _ _ _ := trivial
  commit w p i x y c valid found allowed hit commit := by
    obtain ⟨members,settled⟩ := valid.inv
    have known := valid.fact p x found
    exact ⟨members_commit members commit known.orders (joinsOnce_of_settled settled),
      settled_commit members settled commit (allowed.2 p i x rfl found)⟩
  stale _ _ _ _ _ _ _ _ _ _ _ _ _ _ _ _ _ known := known
  orders _ _ _ _ _ _ _ _ valid _ _ _ commit known :=
    readOrders_commit known commit (joinsOnce_of_settled valid.inv.2)
  candidate _ _ _ _ _ _ _ _ _ _ _ _ _ := trivial

theorem settled_holds {env : Env} (opening : Opening start) (path : Reached (market env) Deciding start w) :
    Members (dispatch w.db) ∧ Settled (dispatch w.db) :=
  (kept_reached (kept_settled env) opening ⟨opening_members opening,opening_settled opening⟩ path).inv

theorem follows_move {env : Env} (opening : Opening start) (path : Reached (market env) Deciding start w)
    (allowed : Deciding w m) : Follows (dispatch w.db) (dispatch (w.move (market env) m).db) := by
  obtain ⟨members,settled⟩ := settled_holds opening path
  generalize after : dispatch (w.move (market env) m).db = c
  have moved := moved env w m
  rw [after] at moved
  cases moved with
  | still => exact follows_refl _
  | commit found commit => exact follows_commit members settled commit (allowed.2 _ _ _ rfl found)

-- From `w` on, an order keeps whatever its status cannot lose.
theorem follows_reached {env : Env} (opening : Opening start) (path : Reached (market env) Deciding start w)
    {P : OrderStatus → Prop} (closed : ∀ a b, OrderStatus.Follows a b → P a → P b)
    (found : (dispatch w.db).order i = some o) (holds : P o.status) (onward : Reached (market env) Deciding w v) :
    Reached (market env) Deciding start v ∧ ∃ o', (dispatch v.db).order i = some o' ∧ P o'.status := by
  induction onward with
  | refl => exact ⟨path,o,found,holds⟩
  | step _ allowed ih =>
    obtain ⟨before,o₁,at_order,still⟩ := ih
    obtain ⟨o₂,after,follows⟩ := follows_move opening before allowed i o₁ at_order
    exact ⟨.step before allowed,o₂,after,closed _ _ follows still⟩

def Proc.decides (o : Nat) : Proc → Prop
  | updateDecided _ orderId _ => orderId = o
  | _ => False

def Proc.readies (o : Nat) : Proc → Prop
  | claimReady orderId _ _ => orderId = o
  | _ => False

-- One vendor decision per order, over the runs from `start` whose moves `may` allows.
structure OneDecision (env : Env) (may : Market → MarketMove → Prop) (start : Market) : Prop where
  follows : ∀ w m, Reached (market env) may start w → may w m →
    Follows (dispatch w.db) (dispatch (w.move (market env) m).db)
  decided : ∀ w m x v n z o, Reached (market env) may start w → may w m → commits env w m = some x → x.decides o →
    Reached (market env) may (w.move (market env) m) v → may v n → commits env v n = some z → ¬z.decides o
  rejected : ∀ w i o, Reached (market env) may start w → (dispatch w.db).order i = some o →
    o.status = .vendorRejected → o.deliveryBatchId = none
  readied : ∀ w m x v n z o, Reached (market env) may start w → may w m → commits env w m = some x → x.readies o →
    Reached (market env) may (w.move (market env) m) v → may v n → commits env v n = some z → ¬z.readies o
  joined : ∀ w v i o b, Reached (market env) may start w → (dispatch w.db).order i = some o →
    o.deliveryBatchId = some b → Reached (market env) may w v →
    ∃ o', (dispatch v.db).order i = some o' ∧ o'.deliveryBatchId = some b

theorem decision_decided (decision : Decision) : decision.status ≠ .pendingVendorConfirmation := by
  cases decision <;> exact nofun

theorem decides_commit (commit : Committed now x c y c') (decides : x.decides o) (pending : DecidesPending x c) :
    ∃ r, c.order o = some r ∧ r.status = .pendingVendorConfirmation ∧
      ∃ r', c'.order o = some r' ∧ r'.status ≠ .pendingVendorConfirmation := by
  cases commit with
  | updateDecided found =>
    cases decides
    exact ⟨_,found,pending _ _ _ _ rfl found,_,Function.update_self ..,decision_decided _⟩
  | _ => cases decides

theorem readies_commit (commit : Committed now x c y c') (readies : x.readies o) :
    ∃ r, c.order o = some r ∧ r.status ∈ READYABLE_STATUSES ∧
      ∃ r', c'.order o = some r' ∧ r'.status.batched = true := by
  cases commit with
  | joinBatch found readyable =>
    cases readies
    exact ⟨_,found,readyable,_,Function.update_self ..,rfl⟩
  | openBatch found readyable =>
    cases readies
    exact ⟨_,found,readyable,_,Function.update_self ..,rfl⟩
  | _ => cases readies

theorem one_decision {env : Env} (opening : Opening start) : OneDecision env Deciding start := by
  refine ⟨fun w m path allowed => follows_move opening path allowed,?_,?_,?_,?_⟩
  · intro w m x v n z o path allowed first decides onward later second again
    obtain ⟨p,i,y,rfl,found,commit⟩ := commits_parts first
    obtain ⟨_,_,_,r,after,decided⟩ := decides_commit commit decides (allowed.2 _ _ _ rfl found)
    obtain ⟨_,r',at_order,still⟩ := follows_reached opening (.step path allowed)
      (P := fun status => status ≠ .pendingVendorConfirmation) (fun _ _ => follows_pending) after decided onward
    obtain ⟨q,k,y',rfl,found',commit'⟩ := commits_parts second
    obtain ⟨r'',same,pending,_⟩ := decides_commit commit' again (later.2 _ _ _ rfl found')
    rw [at_order] at same
    cases same
    exact still pending
  · intro w i o path found rejected
    have settled := (settled_holds opening path).2 i o found
    rw [rejected] at settled
    exact Option.not_isSome_iff_eq_none.mp (by rw [settled]; exact nofun)
  · intro w m x v n z o path allowed first readies onward later second again
    obtain ⟨p,i,y,rfl,found,commit⟩ := commits_parts first
    obtain ⟨_,_,_,r,after,batched⟩ := readies_commit commit readies
    obtain ⟨_,r',at_order,still⟩ := follows_reached opening (.step path allowed)
      (P := fun status => status.batched = true) (fun _ _ => follows_batched) after batched onward
    obtain ⟨q,k,y',rfl,found',commit'⟩ := commits_parts second
    obtain ⟨r'',same,readyable,_⟩ := readies_commit commit' again
    rw [at_order] at same
    cases same
    simp only [READYABLE_STATUSES,List.mem_cons,List.not_mem_nil,or_false] at readyable
    rcases readyable with early | early <;> rw [early] at still <;> cases still
  · intro w v i o b path found part onward
    have both : Reached (market env) Deciding start v ∧
        ∃ o', (dispatch v.db).order i = some o' ∧ o'.deliveryBatchId = some b := by
      induction onward with
      | refl => exact ⟨path,o,found,part⟩
      | @step u m _ allowed ih =>
        obtain ⟨before,o₁,at_order,still⟩ := ih
        refine ⟨.step before allowed,?_⟩
        have settled := (settled_holds opening before).2
        generalize after : dispatch (u.move (market env) m).db = c
        have moved := moved env u m
        rw [after] at moved
        cases moved with
        | still => exact ⟨o₁,at_order,still⟩
        | commit _ commit => exact order_kept commit (joinsOnce_of_settled settled) at_order still
    exact both.2

-- The vendor has read the only order as pending and is about to write that it is
-- accepted.
def accepting : List MarketMove :=
  ask (.createOrder ⟨[],none,some 0,some 0,none,none⟩ 0 0) 0 3 ++ ask (.vendorDecide .vendorAcceptOrder 0 1) 1 2

def Proc.accepts : Proc → Option Nat
  | updateDecided .vendorAcceptOrder orderId _ => some orderId
  | _ => none

theorem accepts_decides (accepts : Proc.accepts x = some o) : x.decides o := by
  cases x with
  | updateDecided decision =>
    cases decision with
    | vendorAcceptOrder => cases accepts; rfl
    | vendorRejectOrder => cases accepts
  | _ => cases accepts

-- Accepted once, the order is decided by no commit of any later run.
theorem one_decision_morning : ∃ w m x, Reached (market village) Deciding morning w ∧ Deciding w m ∧
    commits village w m = some x ∧ x.accepts = some 0 ∧
    ∀ v n z, Reached (market village) Deciding (w.move (market village) m) v → Deciding v n →
      commits village v n = some z → ¬z.decides 0 := by
  let last : MarketMove := .step 1 fun _ => none
  have checked : ((morning.trace (market village) (accepting ++ [last])).all fun made => undisturbed made.1 made.2) = true := by
    decide +kernel
  obtain ⟨earlier,now⟩ := checked_snoc checked
  have path : Reached (market village) Deciding morning (morning.run (market village) accepting) :=
    undisturbed_reached accepting (fun _ _ still => ⟨still.admitted,still.decides⟩) earlier
  have still := undisturbed_parts now
  have allowed : Deciding (morning.run (market village) accepting) last := ⟨still.admitted,still.decides⟩
  have written : ((commits village (morning.run (market village) accepting) last).bind Proc.accepts) = some 0 := by
    decide +kernel
  obtain ⟨x,commit,accepts⟩ := Option.bind_eq_some_iff.mp written
  refine ⟨_,last,x,path,allowed,commit,accepts,?_⟩
  intro v n z onward later second
  exact (one_decision opening_morning).decided _ last x v n z 0 path allowed commit (accepts_decides accepts) onward later second

-- The vendor's accept has read the order as pending; the order is then marked
-- ready and joins a batch; then the accept is written.
def acceptedLate : List MarketMove := accepting ++ ask (.vendorMarkReady 0 1) 2 3

theorem decided_after_ready : ¬∀ (env : Env) (start : Market), Opening start → OneDecision env Admitted start := by
  intro claim
  have run : ∃ w, Reached (market village) Admitted morning w ∧
      ((dispatch w.db).order 0).map Order.status = some .readyForDelivery ∧
      ((dispatch (w.move (market village) (.step 1 fun _ => none)).db).order 0).map Order.status =
        some .vendorAccepted := by
    refine ⟨morning.run (market village) acceptedLate,?_,by decide +kernel,by decide +kernel⟩
    exact admitted_reached acceptedLate (fun _ _ _ admitted => admitted) (by decide +kernel)
  obtain ⟨w,path,before,after⟩ := run
  obtain ⟨o,found,ready⟩ := Option.map_eq_some_iff.mp before
  obtain ⟨o',at_order,follows⟩ := (claim village morning opening_morning).follows w (.step 1 fun _ => none) path trivial
    0 o found
  rw [at_order] at after
  rw [ready,Option.some.inj after] at follows
  cases follows with
  | deliver _ still => cases still

end MesyafMarket
