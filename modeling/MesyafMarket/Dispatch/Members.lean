import MesyafMarket.Dispatch.Changes

namespace MesyafMarket
open Relational OrderService DelivererAssignmentService DelivererJobService DelivererRecoveryService
open VendorService

-- Orders, jobs and stops refer to rows that exist, and an order's job and its
-- stops belong to the order's own batch.
structure Members (c : Dispatch) : Prop where
  batch : ∀ i o b, c.order i = some o → o.deliveryBatchId = some b → ∃ k, c.batch b = some k
  job : ∀ i o j, c.order i = some o → o.deliveryJobId = some j →
    ∃ job, c.job j = some job ∧ o.deliveryBatchId = some job.batchId
  stop : ∀ s a, c.stop s = some a → ∃ job o, c.job a.jobId = some job ∧ c.order a.orderId = some o ∧
    o.deliveryBatchId = some job.batchId

-- The orders that an assignment read for batch `b` are still in it.
def ReadOrders (b : Nat) (orders : List (Nat × Order)) (c : Dispatch) : Prop :=
  ∀ entry ∈ orders, ∃ o, c.order entry.1 = some o ∧ o.deliveryBatchId = some b

-- An order is marked ready only if it is in no batch yet.
def JoinsOnce (x : Proc) (c : Dispatch) : Prop :=
  ∀ o customerId orderType r, x = .claimReady o customerId orderType → c.order o = some r →
    r.status ∈ READYABLE_STATUSES → r.deliveryBatchId = none

theorem order_stays (commit : Committed now x c y c') (found : c.order i = some o) : ∃ o', c'.order i = some o' := by
  have still : ∃ o', c.order i = some o' := ⟨o,found⟩
  have updated : ∀ k (new : Order), ∃ o', Function.update c.order k (some new) i = some o' := by
    intro k new
    by_cases hit : i = k
    · subst i; exact ⟨new,Function.update_self ..⟩
    · exact ⟨o,by rw [Function.update_of_ne hit]; exact found⟩
  cases commit with
  | insertOrder => exact updated _ _
  | joinBatch => exact updated _ _
  | openBatch => exact updated _ _
  | updateDecided => exact updated _ _
  | assign => dsimp only [Dispatch.assign]; exact ⟨_,rewritten_of found⟩
  | startJob => dsimp only; exact ⟨_,rewritten_of found⟩
  | completeDropOff => dsimp only [Dispatch.dropOff]; exact ⟨_,rewritten_of found⟩
  | completeLast => dsimp only [Dispatch.finish,Dispatch.dropOff]; exact ⟨_,rewritten_of (rewritten_of found)⟩
  | completeJob => dsimp only [Dispatch.finish]; exact ⟨_,rewritten_of found⟩
  | recoverUnstartedJob => dsimp only [Dispatch.recover]; exact ⟨_,rewritten_of found⟩
  | deleteProfile => dsimp only [Dispatch.forget]; exact ⟨_,rewritten_of found⟩
  | _ => exact still

theorem order_kept (commit : Committed now x c y c') (once : JoinsOnce x c) (found : c.order i = some o)
    (part : o.deliveryBatchId = some b) : ∃ o', c'.order i = some o' ∧ o'.deliveryBatchId = some b := by
  obtain ⟨o',after⟩ := order_stays commit found
  refine ⟨o',after,?_⟩
  have change := order_change commit after
  rw [found] at change
  cases change with
  | readied readyable =>
    rw [once _ _ _ _ rfl found readyable] at part; cases part
  | _ => exact part

theorem order_batch (commit : Committed now x c y c') (found : c'.order i = some o') (part : o'.deliveryBatchId = some b) :
    (∃ o, c.order i = some o ∧ o.deliveryBatchId = some b) ∨ ∃ k, c'.batch b = some k := by
  have change := order_change commit found
  generalize before : c.order i = prior at change
  cases change with
  | placed => cases part
  | readied _ at_batch => cases part; exact .inr ⟨_,at_batch⟩
  | _ => exact .inl ⟨_,rfl,part⟩

theorem members_commit (members : Members c) (commit : Committed now x c y c')
    (reads : ∀ b orders, x.reading = some (b,orders) → ReadOrders b orders c) (once : JoinsOnce x c) :
    Members c' := by
  refine ⟨?_,?_,?_⟩
  · intro i o' b found part
    rcases order_batch commit found part with ⟨o,before,same⟩ | joined
    · obtain ⟨k,at_batch⟩ := members.batch i o b before same
      obtain ⟨k',after,_⟩ := batch_kept commit at_batch
      exact ⟨k',after⟩
    · exact joined
  · intro i o' j found part
    have later : ∀ o, c.order i = some o → o.deliveryJobId = some j →
        ∃ job, c'.job j = some job ∧ o.deliveryBatchId = some job.batchId := by
      intro o before same
      obtain ⟨job,at_job,inBatch⟩ := members.job i o j before same
      obtain ⟨new,after,kept⟩ := job_kept commit at_job
      exact ⟨new,after,by rw [kept]; exact inBatch⟩
    have change := order_change commit found
    generalize before : c.order i = prior at change
    cases change with
    | placed => cases part
    | readied readyable =>
      obtain ⟨_,_,inBatch⟩ := members.job i _ j before part
      rw [once _ _ _ _ rfl before readyable] at inBatch; cases inBatch
    | handed at_batch unclaimed closed at_job same ready inBatch =>
      cases part
      exact ⟨_,at_job,by rw [same]; exact inBatch⟩
    | released => cases part
    | _ =>
      have kept := later _ before part
      exact kept
  · intro s a found
    have change := stop_change commit found
    generalize before : c.stop s = prior at change
    have later : ∀ a, c.stop s = some a → ∃ job o, c'.job a.jobId = some job ∧ c'.order a.orderId = some o ∧
        o.deliveryBatchId = some job.batchId := by
      intro a before
      obtain ⟨job,o,at_job,at_order,inBatch⟩ := members.stop s a before
      obtain ⟨new,later,kept⟩ := job_kept commit at_job
      obtain ⟨o',after,same⟩ := order_kept commit once at_order inBatch
      exact ⟨new,o',later,after,by rw [kept]; exact same⟩
    cases change with
    | made at_job same fresh member part own =>
      obtain ⟨o,at_order,inBatch⟩ := reads _ _ rfl _ member
      obtain ⟨o',after,kept⟩ := order_kept commit once at_order inBatch
      rw [part,own]
      exact ⟨_,o',at_job,after,by rw [same]; exact kept⟩
    | _ =>
      have kept := later _ before
      exact kept

theorem readOrders_commit (known : ReadOrders b orders c) (commit : Committed now x c y c') (once : JoinsOnce x c) :
    ReadOrders b orders c' := by
  intro entry member
  obtain ⟨o,found,part⟩ := known entry member
  exact order_kept commit once found part

theorem readOrders_read (env : Env) (v : Database) (b : Nat) : ReadOrders b (batchOrders env v b) (dispatch v) := by
  intro entry member
  unfold batchOrders ordersOf at member
  have scanned := (env.scan_perm v _).mem_iff.mp ((List.mem_insertionSort _).mp member)
  obtain ⟨found,part⟩ := v.mem_matching.mp scanned
  exact ⟨entry.2,found,by simpa using part⟩

theorem opening_members (opening : Opening w) : Members (dispatch w.db) := by
  refine ⟨?_,?_,?_⟩
  · intro i o b found; rw [opening.order i] at found; cases found
  · intro i o j found; rw [opening.order i] at found; cases found
  · intro s a found; rw [opening.stop s] at found; cases found

-- The statuses of an order that has been marked ready.
def OrderStatus.batched : OrderStatus → Bool
  | .readyForDelivery | .waitingForDeliverer | .inProgress | .completed => true
  | _ => false

-- An order is in a batch exactly from the moment it is marked ready.
def Settled (c : Dispatch) : Prop :=
  ∀ i o, c.order i = some o → o.deliveryBatchId.isSome = o.status.batched

-- A decision is written only over PENDING_VENDOR_CONFIRMATION.
def DecidesPending (x : Proc) (c : Dispatch) : Prop :=
  ∀ decision o customerId r, x = .updateDecided decision o customerId → c.order o = some r →
    r.status = .pendingVendorConfirmation

theorem joinsOnce_of_settled (settled : Settled c) : JoinsOnce x c := by
  rintro o customerId orderType r rfl found readyable
  have same := settled o r found
  simp only [READYABLE_STATUSES,List.mem_cons,List.not_mem_nil,or_false] at readyable
  rcases readyable with early | early <;> rw [early] at same <;> exact Option.not_isSome_iff_eq_none.mp (by simp [same,OrderStatus.batched])

theorem settled_commit (members : Members c) (settled : Settled c) (commit : Committed now x c y c')
    (decides : DecidesPending x c) : Settled c' := by
  intro i o' found
  have inBatch : ∀ o j, c.order i = some o → o.deliveryJobId = some j → o.deliveryBatchId.isSome = true := by
    intro o j before part
    obtain ⟨job,_,same⟩ := members.job i o j before part
    rw [same]; rfl
  have change := order_change commit found
  generalize before : c.order i = prior at change
  cases change with
  | kept => exact settled i _ before
  | placed => rfl
  | readied => rfl
  | @decided decision _ o =>
    have same := settled i o before
    rw [decides _ _ _ _ rfl before] at same
    cases decision <;> exact same
  | handed _ _ _ _ _ _ part =>
    dsimp only [handed]
    rw [part]; rfl
  | underway _ _ part => have kept := inBatch _ _ before part; exact kept
  | dropped at_job started at_stop part own =>
    obtain ⟨job,o,_,at_order,same⟩ := members.stop _ _ at_stop
    rw [own,before] at at_order
    cases at_order
    dsimp only [delivered]
    rw [same]; rfl
  | finished _ _ part => have kept := inBatch _ _ before part; exact kept
  | released _ _ part => have kept := inBatch _ _ before part; exact kept
  | forgotten => have kept := settled i _ before; exact kept

theorem opening_settled (opening : Opening w) : Settled (dispatch w.db) := by
  intro i o found
  rw [opening.order i] at found; cases found

-- A check, move by move, that a computed run has no sweep and no removal, keeps
-- orders in their batches and decides only over pending orders.
def undisturbed (w : Market) : MarketMove → Bool
  | .spawn x => isEntry x && x.kind = .request
  | .step p _ => match w.threads p with
    | some (.claimReady o _ _) => (w.db.rows .order o).all fun (r : Order) => r.deliveryBatchId.isNone
    | some (.updateDecided _ o _) =>
      (w.db.rows .order o).all fun (r : Order) => r.status = .pendingVendorConfirmation
    | some (.deleteProfile _) => false
    | _ => true
  | _ => true

structure Undisturbed (w : Market) (m : MarketMove) : Prop where
  admitted : Admitted w m
  apart : Apart w m
  unremoved : Unremoved w m
  once : Guarded JoinsOnce w m
  decides : Guarded DecidesPending w m
  kept : Guarded (fun x _ => ∀ userId, x ≠ .deleteProfile userId) w m

theorem undisturbed_parts (checked : undisturbed w m = true) : Undisturbed w m := by
  have spawned : Admitted w m ∧ Apart w m ∧ Unremoved w m := by
    cases m with
    | spawn x =>
      simp only [undisturbed,Bool.and_eq_true,decide_eq_true_eq] at checked
      obtain ⟨entry,request⟩ := checked
      refine ⟨isEntry_entry entry,?_,?_⟩
      · cases x with
        | checkDeliverers => cases request
        | _ => exact trivial
      · cases x with
        | removeDeliverer => cases request
        | _ => exact trivial
    | _ => exact ⟨trivial,trivial,trivial⟩
  refine ⟨spawned.1,spawned.2.1,spawned.2.2,?_,?_,?_⟩
  · intro p i x made found o customerId orderType r same at_order _
    subst made
    subst same
    have row : w.db.rows .order o = some r := at_order
    simp only [undisturbed,found] at checked
    rw [row] at checked
    exact Option.isNone_iff_eq_none.mp checked
  · intro p i x made found decision o customerId r same at_order
    subst made
    subst same
    have row : w.db.rows .order o = some r := at_order
    simp only [undisturbed,found] at checked
    rw [row] at checked
    exact of_decide_eq_true checked
  · intro p i x made found userId same
    subst made
    subst same
    simp only [undisturbed,found] at checked
    cases checked

theorem undisturbed_reached {may : Market → MarketMove → Prop} (moves : List MarketMove)
    (enough : ∀ w m, Undisturbed w m → may w m)
    (checked : ((morning.trace (market village) moves).all fun made => undisturbed made.1 made.2) = true) :
    Reached (market village) may morning (morning.run (market village) moves) := by
  refine reached_run .refl moves ?_
  intro made member
  exact enough _ _ (undisturbed_parts (List.all_eq_true.mp checked made member))

end MesyafMarket
