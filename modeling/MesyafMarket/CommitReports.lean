import MesyafMarket.Dispatch.Commit
import MesyafMarket.AssignmentRuns
import MesyafMarket.Relational.Faults

namespace MesyafMarket
open Relational OrderService DelivererAssignmentService DelivererJobService DelivererRecoveryService
open EventLogService VendorService

-- The statements that the operations come to after the commit of their state change.
-- The notices to customers are counted from the last one.
inductive Statement where
  | sendNewOrder
  | scheduleBatchTimeout | closeBatch | queueAssignment | sendOrderReady
  | createEvent | projectEvent | sendDecision
  | flushToDb | writeLocation | findStuckBatch | requeueStuckBatch
  | readBatch | readCandidates | readPositions | readMissing | assign
  | sendJobAssigned | sendDelivererAssigned (left : Nat)
  deriving DecidableEq

def Proc.statement : Proc → Option Statement
  | notifyNewOrder .. => some .sendNewOrder
  | scheduleBatchTimeout .. => some .scheduleBatchTimeout
  | closeBatch .. => some .closeBatch
  | queueAssignment .. => some .queueAssignment
  | notifyReady .. => some .sendOrderReady
  | recordEvent .. => some .createEvent
  | projectEvent .. => some .projectEvent
  | notifyDecision .. => some .sendDecision
  | flushToDb .. => some .flushToDb
  | writeLocation .. => some .writeLocation
  | findStuckBatch .. => some .findStuckBatch
  | requeueStuckBatch .. => some .requeueStuckBatch
  | assignDelivererToBatch .. => some .readBatch
  | readCandidates .. => some .readCandidates
  | readPositions .. => some .readPositions
  | readMissing .. => some .readMissing
  | assign .. => some .assign
  | notifyAssigned .. => some .sendJobAssigned
  | notifyCustomers _ _ orders _ => some (.sendDelivererAssigned (orders.length-1))
  | _ => none

def Proc.fails (failing : Set Statement) (x : Proc) : Prop := ∃ s ∈ failing, x.statement = some s

-- The caller goes on: a request or a queue's worker has its answer, or the sweep comes
-- to its next deliverer or to the stuck batches.
def Proc.resumed : Proc → Bool
  | returned _ | recoverUnstartedJob .. | escalateStartedJob .. | requeueStuckBatches => true
  | _ => false

-- The state change of each operation, where its transaction is about to commit.
inductive StateChange where
  | createOrder (dto : CreateOrderDto) (vendorId costumerId : Nat) (vendor : VendorProfile)
  | vendorMarkReady (orderId customerId : Nat) (orderType : OrderType)
  | vendorDecide (decision : Decision) (orderId customerId : Nat)
  | startJob (jobId delivererId : Nat)
  | completeDropOff (jobId dropOffId delivererId : Nat)
  | assignDelivererToBatch (batchId : Nat) (orders : List (Nat × Order)) (delivererId : Nat) (caller : AssignCaller)
  | recoverUnstartedJob (deliverer : StaleDeliverer) (job : DeliveryJob) (rest : List StaleDeliverer)

def StateChange.point : StateChange → Proc
  | createOrder dto vendorId costumerId vendor => .insertOrder dto vendorId costumerId vendor
  | vendorMarkReady orderId customerId orderType => .claimReady orderId customerId orderType
  | vendorDecide decision orderId customerId => .updateDecided decision orderId customerId
  | startJob jobId delivererId => .startJob jobId delivererId
  | completeDropOff jobId dropOffId delivererId => .completeDropOff jobId dropOffId delivererId
  | assignDelivererToBatch batchId orders delivererId caller => .assign batchId orders delivererId caller
  | recoverUnstartedJob deliverer job rest => .recoverUnstartedJob deliverer job rest

-- Where the caller goes on when the operation returns normally, from the point after the commit.
def Proc.success : Proc → Proc
  | notifyNewOrder _ orderId => returned (.order orderId)
  | scheduleBatchTimeout _ _ orderId => returned (.order orderId)
  | closeBatch _ (.markReady _ orderId) => returned (.order orderId)
  | notifyReady _ orderId => returned (.order orderId)
  | recordEvent _ (.decision _ orderId _) => returned (.order orderId)
  | flushToDb _ (.afterJob reply) => returned reply
  | notifyAssigned _ _ _ _ caller => assigned caller
  | recordEvent _ (.recovered _ rest) => sweepNext rest
  | x => x

def Proc.customerNotices (jobId delivererId : Nat) (caller : AssignCaller) : List (Nat × Order) → List Proc
  | [] => []
  | order::rest => notifyCustomers jobId delivererId (order::rest) caller :: customerNotices jobId delivererId caller rest

-- The steps that follow the commit and do not use each other's results. The last
-- statement of recoverUnstartedJob is the reassignment in a try of its own: the call
-- returns exactly if it comes to it, and the sweep catches what it throws before.
def Proc.later : Proc → List Proc
  | scheduleBatchTimeout outcome customerId orderId =>
    scheduleBatchTimeout outcome customerId orderId ::
      if outcome.close then
        [closeBatch outcome.batchId (.markReady customerId orderId),notifyReady customerId orderId]
      else [notifyReady customerId orderId]
  | closeBatch batchId (.markReady customerId orderId) =>
    [closeBatch batchId (.markReady customerId orderId),notifyReady customerId orderId]
  | notifyNewOrder vendorId orderId => [notifyNewOrder vendorId orderId]
  | notifyReady customerId orderId => [notifyReady customerId orderId]
  | recordEvent params (.decision customerId orderId status) =>
    [recordEvent params (.decision customerId orderId status),notifyDecision customerId orderId status]
  | flushToDb delivererId (.afterJob reply) => [flushToDb delivererId (.afterJob reply),findStuckBatch reply]
  | notifyAssigned jobId batchId delivererId orders caller =>
    notifyAssigned jobId batchId delivererId orders caller :: customerNotices jobId delivererId caller orders
  | recordEvent params (.recovered batchId rest) =>
    [recordEvent params (.recovered batchId rest),assignDelivererToBatch batchId (.sweep rest)]
  | _ => []

-- What the caller sees of an operation that has committed and stands at `x`.
def Reported (p : Nat) (x : Proc) (tried : List Proc) (last : Market) : Prop :=
  last.threads p = some x.success ∧ ∀ step ∈ x.later, step ∈ tried

-- The steps that must not throw.
def StateChange.Spared (failing : Set Statement) : StateChange → Prop
  | createOrder .. => .sendNewOrder ∉ failing
  | vendorMarkReady .. => .sendOrderReady ∉ failing
  | vendorDecide .. => .createEvent ∉ failing ∧ .projectEvent ∉ failing ∧ .sendDecision ∉ failing
  | startJob .. | completeDropOff .. => True
  | assignDelivererToBatch _ orders _ _ => (orders ≠ [] → .sendJobAssigned ∉ failing) ∧
      ∀ left, 0 < left → left < orders.length → .sendDelivererAssigned left ∉ failing
  | recoverUnstartedJob .. => .createEvent ∉ failing ∧ .projectEvent ∉ failing

-- The call at process `p`, with the statements of `failing` made to throw, until its caller resumes.
abbrev Settles (env : Env) (failing : Set Statement) (p : Nat) (w : Market)
    (after : List Proc → Market → Prop) : Prop :=
  Surely (market env) (Proc.fails failing) (fun x => x.resumed = true) p w after

theorem resumed_sweepNext (rest : List StaleDeliverer) : (Proc.sweepNext rest).resumed = true := by
  induction rest with
  | nil => rfl
  | cons d rest ih =>
    unfold Proc.sweepNext
    split
    · exact ih
    · split <;> first | rfl | exact ih

theorem resumed_assigned (caller : AssignCaller) : (Proc.assigned caller).resumed = true := by
  cases caller with
  | worker => rfl
  | sweep rest => exact resumed_sweepNext rest

section Operations
variable {env : Env} {failing : Set Statement} {w : Market} {p : Nat} {after : List Proc → Market → Prop}

-- A step that names its statement throws exactly if the statement is to.
theorem settles_tries {x : Proc} {s : Statement} (found : w.threads p = some x) (going : x.resumed = false)
    (named : x.statement = some s) :
    Settles env failing p w after ↔
      (s ∈ failing → Settles env failing p (w.goto p (Proc.caught x .infrastructure)) fun tried => after (x::tried)) ∧
      (s ∉ failing → ∀ redis, Settles env failing p (w.instr (market env) p x redis) fun tried => after (x::tried)) := by
  have fails : x.fails failing ↔ s ∈ failing := by simp [Proc.fails,named]
  rw [Settles,surely_tries found (by simp [going]),fails]
  rfl

-- Where it makes no difference whether the step throws.
theorem settles_either {x : Proc} {s : Statement} {Q : Prop} (found : w.threads p = some x) (going : x.resumed = false)
    (named : x.statement = some s)
    (thrown : s ∈ failing →
      (Settles env failing p (w.goto p (Proc.caught x .infrastructure)) (fun tried => after (x::tried)) ↔ Q))
    (ran : s ∉ failing → ∀ redis,
      (Settles env failing p (w.instr (market env) p x redis) (fun tried => after (x::tried)) ↔ Q)) :
    Settles env failing p w after ↔ Q := by
  rw [settles_tries found going named]
  by_cases broken : s ∈ failing
  · simp only [broken,thrown broken,true_imp_iff,not_true_eq_false,false_imp_iff,and_true]
  · simp only [broken,ran broken,false_imp_iff,true_and,not_false_eq_true,forall_const]

theorem settles_over {x : Proc} (found : w.threads p = some x) (ended : x.resumed = true) :
    Settles env failing p w after ↔ after [] w :=
  surely_over found ended

@[simp] theorem settles_returned :
    Settles env failing p (w.goto p (.returned reply)) after ↔ after [] (w.goto p (.returned reply)) :=
  settles_over (goto_threads ..) rfl

theorem reported_newOrder (found : w.threads p = some (.notifyNewOrder vendorId orderId)) :
    Settles env failing p w (Reported p (.notifyNewOrder vendorId orderId)) ↔ .sendNewOrder ∉ failing := by
  rw [settles_tries found rfl rfl]
  simp only [instr_emit (x := Proc.notifyNewOrder vendorId orderId) (G := market env) rfl,Proc.caught,settles_returned]
  simp [Reported,Proc.success,Proc.later]

-- The last statement of vendorMarkReady.
theorem settles_notifyReady (found : w.threads p = some (.notifyReady customerId orderId)) :
    Settles env failing p w after ↔
      (.sendOrderReady ∈ failing →
        after [.notifyReady customerId orderId] (w.goto p (.returned (.thrown .infrastructure)))) ∧
      (.sendOrderReady ∉ failing → after [.notifyReady customerId orderId] (w.goto p (.returned (.order orderId)))) := by
  rw [settles_tries found rfl rfl]
  simp only [instr_emit (x := Proc.notifyReady customerId orderId) (G := market env) rfl,Proc.caught,settles_returned,
    forall_const]

-- However closeBatch ends, vendorMarkReady goes on to the customer's notice.
theorem settles_closeBatch {Q : Prop} (found : w.threads p = some (.closeBatch batchId (.markReady customerId orderId)))
    (onward : ∀ (w' : Market) tried, w'.threads p = some (.notifyReady customerId orderId) →
      (Settles env failing p w'
        (fun rest => after (.closeBatch batchId (.markReady customerId orderId)::(tried ++ rest))) ↔ Q)) :
    Settles env failing p w after ↔ Q := by
  refine settles_either found rfl rfl (fun _ => onward _ [] (goto_threads ..)) ?_
  intro _ redis
  rw [instr_commit (G := market env) (x := Proc.closeBatch batchId (.markReady customerId orderId)) rfl rfl]
  split
  · exact onward _ [] (goto_threads w p _)
  · refine settles_either (goto_threads w p _) rfl rfl
      (fun _ => onward _ [.queueAssignment batchId (.markReady customerId orderId)] (goto_threads ..)) fun _ redis => ?_
    rw [instr_add (G := market env) (x := Proc.queueAssignment batchId (.markReady customerId orderId)) rfl]
    exact onward _ [.queueAssignment batchId (.markReady customerId orderId)] (goto_threads ..)

theorem reported_notifyReady (found : w.threads p = some (.notifyReady customerId orderId)) :
    Settles env failing p w (Reported p (.notifyReady customerId orderId)) ↔ .sendOrderReady ∉ failing := by
  rw [settles_notifyReady found]
  simp [Reported,Proc.success,Proc.later]

theorem reported_closeBatch (found : w.threads p = some (.closeBatch batchId (.markReady customerId orderId))) :
    Settles env failing p w (Reported p (.closeBatch batchId (.markReady customerId orderId))) ↔
      .sendOrderReady ∉ failing := by
  refine settles_closeBatch found ?_
  intro w' tried arrived
  rw [settles_notifyReady arrived]
  simp [Reported,Proc.success,Proc.later]

-- A batch that has just been opened has its timeout to schedule and is not full.
theorem reported_scheduleBatchTimeout (found : w.threads p = some (.scheduleBatchTimeout outcome customerId orderId))
    (open_ : outcome.close = false) :
    Settles env failing p w (Reported p (.scheduleBatchTimeout outcome customerId orderId)) ↔
      .sendOrderReady ∉ failing := by
  have onward : Proc.afterBatching outcome customerId orderId = .notifyReady customerId orderId := by
    simp [Proc.afterBatching,open_]
  refine settles_either found rfl rfl ?_ ?_
  · intro _
    refine (settles_notifyReady (goto_threads w p _)).trans ?_
    simp [Reported,Proc.success,Proc.later,open_]
  · intro _ redis
    rw [instr_add (G := market env) (x := Proc.scheduleBatchTimeout outcome customerId orderId) rfl,onward]
    refine Iff.trans (settles_notifyReady (show _ = some (Proc.notifyReady customerId orderId) from ?_)) ?_
    · exact goto_threads w p _
    · simp [Reported,Proc.success,Proc.later,open_]

-- An event recorded outside a transaction is inserted and projected in two commits.
theorem settles_recordEvent {Q : Prop} (found : w.threads p = some (.recordEvent params caller))
    (thrown : .createEvent ∈ failing ∨ .projectEvent ∈ failing →
      ∀ (w' : Market) tried, w'.threads p = some (.recordFailed .infrastructure caller) →
      (∀ x ∈ tried, x.statement = some .projectEvent) →
      (Settles env failing p w' (fun rest => after (.recordEvent params caller::(tried ++ rest))) ↔ Q))
    (recorded : .createEvent ∉ failing ∧ .projectEvent ∉ failing →
      ∀ (w' : Market) tried, w'.threads p = some (.recorded caller) →
      (Settles env failing p w' (fun rest => after (.recordEvent params caller::(tried ++ rest))) ↔ Q)) :
    Settles env failing p w after ↔ Q := by
  refine settles_either found rfl rfl (fun broken => thrown (.inl broken) _ [] (goto_threads ..) (by simp)) ?_
  intro sound redis
  have logged : (EventLogService.createEvent params).run w.db =
      .ok ((w.db.seq .eventLog,params.event w.db.clock),w.db.apply (w.db.inserts .eventLog [params.event w.db.clock])) :=
    Tx.run_create w.db _
  rw [instr_commit (G := market env) (x := Proc.recordEvent params caller) rfl (Tx.run_bind_ok.mpr ⟨_,_,logged,rfl⟩)]
  refine settles_either (goto_threads w p _) rfl rfl ?_ ?_
  · intro broken
    exact thrown (.inr broken) _ [_] (goto_threads ..) (by simp [Proc.statement])
  · intro still redis
    obtain ⟨d,ran⟩ : ∃ d, (EventLogService.projectEvent (w.db.seq .eventLog) (params.event w.db.clock)).run
        (w.db.apply (w.db.inserts .eventLog [params.event w.db.clock])) = .ok ((),d) := projectEvent_runs
    have projected : (do EventLogService.projectEvent (w.db.seq .eventLog) (params.event w.db.clock)
                         return Proc.recorded caller : Transaction Proc).run
        (w.db.apply (w.db.inserts .eventLog [params.event w.db.clock])) = .ok (.recorded caller,d) :=
      Tx.run_bind_ok.mpr ⟨_,_,ran,rfl⟩
    rw [instr_commit (G := market env) (x := Proc.projectEvent _ _ caller) rfl projected]
    exact recorded ⟨sound,still⟩ _ [_] (goto_threads _ p _)

theorem reported_decision (found : w.threads p = some (.recordEvent params (.decision customerId orderId status))) :
    Settles env failing p w (Reported p (.recordEvent params (.decision customerId orderId status))) ↔
      .createEvent ∉ failing ∧ .projectEvent ∉ failing ∧ .sendDecision ∉ failing := by
  refine settles_recordEvent found ?_ ?_
  · intro broken w' tried arrived _
    rw [settles_over arrived rfl]
    have lost : ¬(.createEvent ∉ failing ∧ .projectEvent ∉ failing ∧ .sendDecision ∉ failing) := by tauto
    simp [Reported,Proc.success,arrived,Proc.recordFailed,lost]
  · rintro ⟨sound,still⟩ w' tried arrived
    have at_notice : w'.threads p = some (.notifyDecision customerId orderId status) := arrived
    rw [settles_tries at_notice rfl rfl]
    simp only [instr_emit (x := Proc.notifyDecision customerId orderId status) (G := market env) rfl,Proc.caught,
      settles_returned]
    simp [Reported,Proc.success,Proc.later,sound,still]

-- The first step of a call is tried in any case.
theorem settles_head {x : Proc} (found : w.threads p = some x) (going : x.resumed = false)
    (settles : Settles env failing p w after) : Settles env failing p w fun tried last => x ∈ tried ∧ after tried last := by
  cases settles with
  | halts again ended =>
    cases found.symm.trans again
    simp [going] at ended
  | step again awake sound rest =>
    cases found.symm.trans again
    exact .step found awake sound fun i => surely_mono (rest i) fun _ _ holds => ⟨List.mem_cons_self,holds⟩
  | thrown again awake broken rest =>
    cases found.symm.trans again
    exact .thrown found awake broken (surely_mono rest fun _ _ holds => ⟨List.mem_cons_self,holds⟩)

theorem mem_customerNotices (member : step ∈ Proc.customerNotices jobId delivererId caller orders) :
    ∃ order rest, step = .notifyCustomers jobId delivererId (order::rest) caller ∧ rest.length < orders.length := by
  induction orders with
  | nil => cases member
  | cons order orders ih =>
    rcases List.mem_cons.mp member with first | later
    · exact ⟨order,orders,first,by simp⟩
    · obtain ⟨o,rest,same,shorter⟩ := ih later
      exact ⟨o,rest,same,by simp only [List.length_cons]; omega⟩

-- A notice that throws skips those behind it.
theorem reported_customers (orders : List (Nat × Order))
    (found : w.threads p = some (.notifyNext jobId delivererId caller orders)) :
    Settles env failing p w (fun tried last => last.threads p = some (.assigned caller) ∧
      ∀ step ∈ Proc.customerNotices jobId delivererId caller orders, step ∈ tried) ↔
      ∀ left, 0 < left → left < orders.length → .sendDelivererAssigned left ∉ failing := by
  induction orders generalizing w with
  | nil =>
    have at_end : w.threads p = some (.assigned caller) := found
    rw [settles_over at_end (resumed_assigned caller)]
    simpa [Proc.customerNotices] using at_end
  | cons order rest ih =>
    have at_notice : w.threads p = some (.notifyCustomers jobId delivererId (order::rest) caller) := found
    refine settles_either at_notice rfl rfl ?_ ?_
    · intro broken
      simp only [List.length_cons,Nat.add_sub_cancel] at broken
      change Settles env failing p (w.goto p (.assigned caller)) _ ↔ _
      rw [settles_over (goto_threads ..) (resumed_assigned caller)]
      cases rest with
      | nil =>
        simp only [Proc.customerNotices,List.mem_singleton,imp_self,implies_true,and_true,List.length_cons,List.length_nil]
        refine ⟨fun _ left above below => by omega,fun _ => goto_threads ..⟩
      | cons next rest =>
        constructor
        · rintro ⟨_,all⟩
          have missed := all (.notifyCustomers jobId delivererId (next::rest) caller) (by simp [Proc.customerNotices])
          simp only [List.mem_singleton,Proc.notifyCustomers.injEq,List.cons.injEq] at missed
          exact absurd (congrArg List.length missed.2.2.1.2) (by simp)
        · intro spared
          exact absurd broken (spared _ (by simp) (by simp))
    · intro sound redis
      simp only [List.length_cons,Nat.add_sub_cancel] at sound
      rw [instr_emit (G := market env) (x := Proc.notifyCustomers jobId delivererId (order::rest) caller) rfl]
      have own : ∀ tried : List Proc, (∀ step ∈ Proc.customerNotices jobId delivererId caller (order::rest),
          step ∈ Proc.notifyCustomers jobId delivererId (order::rest) caller :: tried) ↔
          ∀ step ∈ Proc.customerNotices jobId delivererId caller rest, step ∈ tried := by
        intro tried
        simp only [Proc.customerNotices,List.forall_mem_cons,List.mem_cons_self,true_and]
        refine forall₂_congr fun step member => ?_
        obtain ⟨o,others,rfl,shorter⟩ := mem_customerNotices member
        refine ⟨fun here => (List.mem_cons.mp here).resolve_left ?_,List.mem_cons_of_mem _⟩
        intro same
        cases same
        omega
      simp only [own]
      rw [ih (goto_threads ..)]
      constructor
      · intro spared left above below
        rcases Nat.lt_succ_iff_lt_or_eq.mp below with less | rfl
        · exact spared left above less
        · exact sound
      · exact fun spared left above below => spared left above (by simp only [List.length_cons]; omega)

theorem reported_assigned (orders : List (Nat × Order))
    (found : w.threads p = some (.notifyAssigned jobId batchId delivererId orders caller)) :
    Settles env failing p w (Reported p (.notifyAssigned jobId batchId delivererId orders caller)) ↔
      (orders ≠ [] → .sendJobAssigned ∉ failing) ∧
        ∀ left, 0 < left → left < orders.length → .sendDelivererAssigned left ∉ failing := by
  refine settles_either found rfl rfl ?_ ?_
  · intro broken
    change Settles env failing p (w.goto p (.assigned caller)) _ ↔ _
    rw [settles_over (goto_threads ..) (resumed_assigned caller)]
    cases orders with
    | nil =>
      simp [Reported,Proc.success,Proc.later,Proc.customerNotices]
    | cons order rest => simp [Reported,Proc.later,Proc.customerNotices,broken]
  · intro sound redis
    rw [instr_emit (G := market env) (x := Proc.notifyAssigned jobId batchId delivererId orders caller) rfl]
    have own : ∀ tried : List Proc, (∀ step ∈ Proc.later (.notifyAssigned jobId batchId delivererId orders caller),
        step ∈ Proc.notifyAssigned jobId batchId delivererId orders caller :: tried) ↔
        ∀ step ∈ Proc.customerNotices jobId delivererId caller orders, step ∈ tried := by
      intro tried
      simp only [Proc.later,List.forall_mem_cons,List.mem_cons_self,true_and]
      refine forall₂_congr fun step member => ?_
      obtain ⟨o,others,rfl,_⟩ := mem_customerNotices member
      simp
    change Settles env failing p _ (fun tried last => last.threads p = some (.assigned caller) ∧
      ∀ step ∈ Proc.later (.notifyAssigned jobId batchId delivererId orders caller),
        step ∈ Proc.notifyAssigned jobId batchId delivererId orders caller :: tried) ↔ _
    simp only [own]
    rw [reported_customers orders (goto_threads ..)]
    simp [sound]

theorem settles_of {x : Proc} {s : Statement} (found : w.threads p = some x) (going : x.resumed = false)
    (named : x.statement = some s)
    (thrown : Settles env failing p (w.goto p (Proc.caught x .infrastructure)) fun tried => after (x::tried))
    (ran : ∀ redis, Settles env failing p (w.instr (market env) p x redis) fun tried => after (x::tried)) :
    Settles env failing p w after :=
  (settles_tries found going named).mpr ⟨fun _ => thrown,fun _ => ran⟩

-- afterJobCompleted catches what its two steps throw, each by itself.
theorem settles_findStuckBatch (found : w.threads p = some (.findStuckBatch reply))
    (holds : ∀ tried (last : Market), last.threads p = some (.returned reply) →
      after (.findStuckBatch reply::tried) last) : Settles env failing p w after := by
  refine settles_of found rfl rfl (settles_returned.mpr (holds _ _ (goto_threads ..))) ?_
  intro redis
  rw [instr_query (G := market env) (x := Proc.findStuckBatch reply) rfl]
  split
  · exact settles_returned.mpr (holds _ _ (goto_threads ..))
  · rename_i batchId _
    refine settles_of (goto_threads ..) rfl rfl (settles_returned.mpr (holds _ _ (goto_threads ..))) ?_
    intro redis
    rw [instr_add (G := market env) (x := Proc.requeueStuckBatch batchId reply) rfl]
    exact .halts (x := Proc.returned reply) (goto_threads _ p _) rfl (holds [_] _ (goto_threads _ p _))

theorem reported_flushToDb (found : w.threads p = some (.flushToDb delivererId (.afterJob reply))) :
    Settles env failing p w (Reported p (.flushToDb delivererId (.afterJob reply))) := by
  have onward : ∀ tried rest (last : Market), last.threads p = some (.returned reply) →
      Reported p (.flushToDb delivererId (.afterJob reply))
        (.flushToDb delivererId (.afterJob reply)::(tried ++ .findStuckBatch reply::rest)) last := by
    intro tried rest last ended
    exact ⟨ended,by simp [Proc.later]⟩
  refine settles_of found rfl rfl (settles_findStuckBatch (goto_threads ..) (onward [])) ?_
  intro redis
  rw [instr_input (G := market env) (x := Proc.flushToDb delivererId (.afterJob reply)) rfl]
  split
  · exact settles_findStuckBatch (goto_threads ..) (onward [])
  · rename_i loc _
    refine settles_of (goto_threads ..) rfl rfl (settles_findStuckBatch (goto_threads ..) (onward [_])) ?_
    intro redis
    cases ran : (DelivererLocationService.writeLocationTx delivererId loc).run w.db with
    | ok written =>
      rw [instr_commit (G := market env) (w := w.goto p _) (x := .writeLocation delivererId loc (.afterJob reply)) rfl
        (Tx.run_bind_ok.mpr ⟨_,_,ran,rfl⟩)]
      exact settles_findStuckBatch (goto_threads _ p _) (onward [_])
    | error e =>
      rw [instr_rollback (G := market env) (w := w.goto p _) (x := .writeLocation delivererId loc (.afterJob reply)) rfl
        (Tx.run_bind_error.mpr (.inl ran))]
      exact settles_findStuckBatch (goto_threads ..) (onward [_])

-- The sweep goes on to its next deliverer.
abbrev SweepsOn (env : Env) (failing : Set Statement) (p : Nat) (rest : List StaleDeliverer) (w : Market) : Prop :=
  Settles env failing p w fun _ last => last.threads p = some (.sweepNext rest)

theorem sweepsOn_sweepNext (found : w.threads p = some (.sweepNext rest)) : SweepsOn env failing p rest w :=
  (settles_over found (resumed_sweepNext rest)).mpr found

theorem sweepsOn_of {x : Proc} {s : Statement} (found : w.threads p = some x) (going : x.resumed = false)
    (named : x.statement = some s) (caught : Proc.caught x .infrastructure = .sweepNext rest)
    (ran : ∀ redis, SweepsOn env failing p rest (w.instr (market env) p x redis)) : SweepsOn env failing p rest w :=
  settles_of found going named (sweepsOn_sweepNext (by rw [caught]; exact goto_threads ..)) ran

theorem sweepsOn_customers (orders : List (Nat × Order))
    (found : w.threads p = some (.notifyNext jobId delivererId (.sweep rest) orders)) : SweepsOn env failing p rest w := by
  induction orders generalizing w with
  | nil => exact sweepsOn_sweepNext found
  | cons order others ih =>
    refine sweepsOn_of (x := .notifyCustomers jobId delivererId (order::others) (.sweep rest)) found rfl rfl rfl ?_
    exact fun _ => ih (goto_threads ..)

theorem sweepsOn_assign (found : w.threads p = some (.assign batchId orders delivererId (.sweep rest))) :
    SweepsOn env failing p rest w := by
  refine sweepsOn_of found rfl rfl rfl ?_
  intro redis
  cases ran : (assignTx batchId orders delivererId).run w.db with
  | ok assigned =>
    rw [instr_commit (G := market env) (x := .assign batchId orders delivererId (.sweep rest)) rfl
      (Tx.run_bind_ok.mpr ⟨_,_,ran,rfl⟩)]
    refine sweepsOn_of (x := .notifyAssigned assigned.1 batchId delivererId orders (.sweep rest))
      (goto_threads w p _) rfl rfl rfl ?_
    exact fun _ => sweepsOn_customers orders (goto_threads _ p _)
  | error e =>
    rw [instr_rollback (G := market env) (x := .assign batchId orders delivererId (.sweep rest)) rfl
      (Tx.run_bind_error.mpr (.inl ran))]
    exact sweepsOn_sweepNext (goto_threads ..)

theorem sweepsOn_readPositions
    (found : w.threads p = some (.readPositions batchId orders lat lng deliverers (.sweep rest))) :
    SweepsOn env failing p rest w := by
  refine sweepsOn_of found rfl rfl rfl fun redis => ?_
  rw [instr_input (G := market env) (x := .readPositions batchId orders lat lng deliverers (.sweep rest)) rfl]
  refine sweepsOn_of (goto_threads ..) rfl rfl rfl fun _ => ?_
  rw [instr_query (G := market env) (x := .readMissing batchId orders lat lng deliverers redis (.sweep rest)) rfl]
  unfold Proc.choose
  split
  · exact sweepsOn_assign (goto_threads ..)
  · exact sweepsOn_sweepNext (goto_threads ..)

theorem sweepsOn_assignDelivererToBatch (found : w.threads p = some (.assignDelivererToBatch batchId (.sweep rest))) :
    SweepsOn env failing p rest w := by
  refine sweepsOn_of found rfl rfl rfl fun _ => ?_
  rw [instr_query (G := market env) (x := .assignDelivererToBatch batchId (.sweep rest)) rfl]
  rcases batchToAssign_cases env w.db batchId (.sweep rest) with
    skips | ⟨_,first,others,lat,lng,_,_,_,_,_,reads⟩
  · rw [skips]
    exact sweepsOn_sweepNext (goto_threads ..)
  · rw [reads]
    refine sweepsOn_of (goto_threads ..) rfl rfl rfl fun _ => ?_
    rw [instr_query (G := market env) (x := .readCandidates batchId (first::others) lat lng (.sweep rest)) rfl]
    unfold Proc.candidates
    split
    · exact sweepsOn_sweepNext (goto_threads ..)
    · exact sweepsOn_readPositions (goto_threads ..)

theorem reported_recovered (found : w.threads p = some (.recordEvent params (.recovered batchId rest))) :
    Settles env failing p w (Reported p (.recordEvent params (.recovered batchId rest))) ↔
      .createEvent ∉ failing ∧ .projectEvent ∉ failing := by
  refine settles_recordEvent found ?_ ?_
  · intro broken w' tried arrived projections
    rw [settles_over arrived (resumed_sweepNext rest)]
    have lost : ¬(.createEvent ∉ failing ∧ .projectEvent ∉ failing) := by tauto
    refine iff_of_false ?_ lost
    rintro ⟨_,all⟩
    have reassigned := all (.assignDelivererToBatch batchId (.sweep rest)) (by simp [Proc.later])
    rw [List.append_nil] at reassigned
    rcases List.mem_cons.mp reassigned with same | member
    · cases same
    · cases projections _ member
  · rintro spared w' tried arrived
    refine iff_of_true ?_ spared
    have at_call : w'.threads p = some (.assignDelivererToBatch batchId (.sweep rest)) := arrived
    have onward : SweepsOn env failing p rest w' := sweepsOn_assignDelivererToBatch at_call
    refine surely_mono (settles_head at_call rfl onward) ?_
    rintro others last ⟨reassigned,ended⟩
    refine ⟨ended,?_⟩
    simp [Proc.later,reassigned]

end Operations

-- Once an operation has committed, its caller is told so, and its later steps are
-- tried, exactly if none of the statements that it leaves unguarded throws.
theorem committed_reported {env : Env} (failing : Set Statement) (change : StateChange) {w : Market}
    (at_tx : (market env).next change.point = .tx body) (ran : body.run w.db = .ok (x,db)) :
    Settles env failing p {w.goto p x with db := db} (Reported p x) ↔ change.Spared failing := by
  have arrived : ({w.goto p x with db := db} : Market).threads p = some x := goto_threads ..
  cases change with
  | createOrder =>
    cases at_tx
    obtain ⟨orderId,_,_,ended⟩ := Tx.run_bind_ok.mp ran
    cases ended
    exact reported_newOrder arrived
  | vendorMarkReady =>
    cases at_tx
    obtain ⟨outcome,_,marked,ended⟩ := Tx.run_bind_ok.mp ran
    obtain ⟨_,_,_,⟨batchId,_,close,_,_,rfl,_⟩ | ⟨batchId,_,rfl,_⟩⟩ := vendorMarkReadyTx_parts marked
    · cases close with
      | false => cases ended; exact reported_notifyReady arrived
      | true => cases ended; exact reported_closeBatch arrived
    · cases ended
      exact reported_scheduleBatchTimeout arrived rfl
  | vendorDecide =>
    cases at_tx
    obtain ⟨_,_,_,ended⟩ := Tx.run_bind_ok.mp ran
    cases ended
    exact reported_decision arrived
  | startJob =>
    cases at_tx
    obtain ⟨_,_,_,ended⟩ := Tx.run_bind_ok.mp ran
    cases ended
    rw [settles_over arrived rfl]
    simp [Reported,Proc.success,Proc.later,StateChange.Spared]
  | completeDropOff =>
    cases at_tx
    obtain ⟨jobCompleted,_,_,ended⟩ := Tx.run_bind_ok.mp ran
    cases jobCompleted with
    | false =>
      cases ended
      rw [settles_over arrived rfl]
      simp [Reported,Proc.success,Proc.later,StateChange.Spared]
    | true =>
      cases ended
      exact iff_of_true (reported_flushToDb arrived) trivial
  | assignDelivererToBatch batchId orders delivererId caller =>
    cases at_tx
    obtain ⟨_,_,_,ended⟩ := Tx.run_bind_ok.mp ran
    cases ended
    exact reported_assigned orders arrived
  | recoverUnstartedJob deliverer job rest =>
    cases at_tx
    obtain ⟨_,_,_,ended⟩ := Tx.run_bind_ok.mp ran
    cases ended
    exact reported_recovered arrived

-- The village shop takes the first order.
theorem first_order_commits : ∃ db,
    (createOrderTx ⟨[],none,some 0,some 0,none,none⟩ 0 0 ⟨1,some 0,some 0,true,true⟩).run morning.db = .ok (0,db) := by
  have runs : ((createOrderTx ⟨[],none,some 0,some 0,none,none⟩ 0 0 ⟨1,some 0,some 0,true,true⟩).run
      morning.db).toOption.map Prod.fst = some 0 := by decide +kernel
  cases ran : (createOrderTx ⟨[],none,some 0,some 0,none,none⟩ 0 0 ⟨1,some 0,some 0,true,true⟩).run morning.db with
  | error e => rw [ran] at runs; cases runs
  | ok placed =>
    rw [ran] at runs
    exact ⟨placed.2,by rw [← Option.some.inj runs]⟩

theorem committed_reported_morning : ∃ db,
    Settles village {.closeBatch} 0 {morning.goto 0 (.notifyNewOrder 0 0) with db := db}
      (Reported 0 (.notifyNewOrder 0 0)) ↔ Statement.sendNewOrder ∉ ({.closeBatch} : Set Statement) := by
  obtain ⟨db,ran⟩ := first_order_commits
  exact ⟨db,committed_reported {.closeBatch}
    (.createOrder ⟨[],none,some 0,some 0,none,none⟩ 0 0 ⟨1,some 0,some 0,true,true⟩) rfl
    (Tx.run_bind_ok.mpr ⟨_,_,ran,rfl⟩)⟩

-- The notice of a new order throws: the order is placed and its customer is told that it was not.
theorem commit_unreported :
    ¬∀ (env : Env) (failing : Set Statement) (change : StateChange) (w : Market) p (body : Transaction Proc) x db,
      (market env).next change.point = .tx body → body.run w.db = .ok (x,db) →
      Settles env failing p {w.goto p x with db := db} (Reported p x) := by
  intro claim
  obtain ⟨db,ran⟩ := first_order_commits
  have reported := claim village {.sendNewOrder}
    (.createOrder ⟨[],none,some 0,some 0,none,none⟩ 0 0 ⟨1,some 0,some 0,true,true⟩) morning 0 _ _ _ rfl
    (Tx.run_bind_ok.mpr ⟨_,_,ran,rfl⟩)
  exact (reported_newOrder (by exact goto_threads morning 0 _)).mp reported rfl

end MesyafMarket
