import MesyafMarket.Assignability

namespace MesyafMarket
open Relational OrderService DelivererAssignmentService DelivererJobService DelivererRecoveryService

def located (o : Order) : Bool := o.vendorLat.isSome && o.vendorLng.isSome

def holdsJobOf (v : Database) (b : Nat) (p : DelivererProfile) : Bool :=
  (p.activeJobId.bind (v.rows .deliveryJob)).any fun (job : DeliveryJob) => job.batchId = b

-- No deliverer still has the job of the batch.
def unheld (v : Database) (b : Nat) : Bool := (v.matching .delivererProfile fun _ p => holdsJobOf v b p).isEmpty

theorem readyBefore_total (a b : Nat × Order) : readyBefore a b = true ∨ readyBefore b a = true := by
  unfold readyBefore
  cases a.2.readyAt <;> cases b.2.readyAt <;> simp
  omega

theorem readyBefore_trans (first : readyBefore a b = true) (second : readyBefore b c = true) : readyBefore a c = true := by
  unfold readyBefore at *
  cases atA : a.2.readyAt <;> cases atB : b.2.readyAt <;> cases atC : c.2.readyAt <;> simp_all
  omega

theorem readyBefore_antisymm (first : readyBefore a b = true) (second : readyBefore b a = true) :
    a.2.readyAt = b.2.readyAt := by
  unfold readyBefore at *
  cases atA : a.2.readyAt <;> cases atB : b.2.readyAt <;> simp_all
  omega

theorem batchOrders_sorted (env : Env) (v : Database) (b : Nat) :
    (batchOrders env v b).Pairwise fun x y => readyBefore x y = true := by
  unfold batchOrders
  have total : Std.Total fun x y : Nat × Order => readyBefore x y = true := ⟨readyBefore_total⟩
  have trans : IsTrans (Nat × Order) fun x y => readyBefore x y = true := ⟨fun _ _ _ => readyBefore_trans⟩
  exact List.pairwise_insertionSort _ _

theorem mem_batchOrders (env : Env) {v : Database} : x ∈ batchOrders env v b ↔ x ∈ members v b := by
  unfold batchOrders ordersOf members
  rw [List.mem_insertionSort,(env.scan_perm v _).mem_iff]

def taken (v : Database) (b : Nat) : Bool := (v.rows .deliveryBatch b).any fun (k : DeliveryBatch) => k.delivererId.isSome

section Assigned
variable {db after : Database} {b d j base : Nat} {orders : List (Nat × Order)} {k : DeliveryBatch} {p : DelivererProfile}
  (result : dispatch after = (dispatch db).assign db.clock b d j base orders k p)
include result

end Assigned

section Machine
variable {env : Env} {w last : Market}

end Machine
section Progress
variable {env : Env} {w : Market}

end Progress

end MesyafMarket
