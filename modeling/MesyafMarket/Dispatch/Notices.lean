import MesyafMarket.Dispatch.Owners

namespace MesyafMarket
open Relational OrderService DelivererAssignmentService DelivererJobService DelivererRecoveryService

def told (orders : List (Nat × Order)) : List (Nat × Nat) := orders.map fun o => (o.1,o.2.customerId)

def unhandled (rest : List StaleDeliverer) : List (Nat × Nat) := rest.flatMap fun d => told d.orders

def CloseCaller.mentions : CloseCaller → List (Nat × Nat)
  | markReady customerId orderId => [(orderId,customerId)]
  | _ => []

def AssignCaller.mentions : AssignCaller → List (Nat × Nat)
  | worker => []
  | sweep rest => unhandled rest

def RecordCaller.mentions : RecordCaller → List (Nat × Nat)
  | decision customerId orderId _ => [(orderId,customerId)]
  | recovered _ rest => unhandled rest
  | escalated _ orders rest => told orders ++ unhandled rest
  | issue _ order orders rest => told (order::orders) ++ unhandled rest

-- The orders that a process may still tell someone of, each with the customer that
-- it was read with.
def Proc.mentions : Proc → List (Nat × Nat)
  | claimReady orderId customerId _ | updateDecided _ orderId customerId => [(orderId,customerId)]
  | scheduleBatchTimeout _ customerId orderId | notifyReady customerId orderId => [(orderId,customerId)]
  | notifyDecision customerId orderId _ => [(orderId,customerId)]
  | closeBatch _ caller | queueAssignment _ caller => caller.mentions
  | recordEvent _ caller | projectEvent _ _ caller => caller.mentions
  | assignDelivererToBatch _ caller => caller.mentions
  | readCandidates _ orders _ _ caller | readPositions _ orders _ _ _ caller => told orders ++ caller.mentions
  | readMissing _ orders _ _ _ _ caller | assign _ orders _ caller => told orders ++ caller.mentions
  | notifyAssigned _ _ _ orders caller | notifyCustomers _ _ orders caller => told orders ++ caller.mentions
  | recoverUnstartedJob deliverer _ rest | escalateStartedJob deliverer rest => unhandled (deliverer::rest)
  | notifyIssue _ order orders rest => told (order::orders) ++ unhandled rest
  | _ => []

-- What an assignment says of the customers whose orders it has read: that these are in
-- the batch, and once it is made, that they are in the batch of the job.
inductive Handout where
  | batch (batchId : Nat) (customers : List Nat)
  | job (delivererId jobId : Nat) (customers : List Nat)

def customersOf (orders : List (Nat × Order)) : List Nat := orders.map fun o => o.2.customerId

def Proc.hands : Proc → Option Handout
  | readCandidates batchId orders _ _ _ | readPositions batchId orders _ _ _ _ => some (.batch batchId (customersOf orders))
  | readMissing batchId orders _ _ _ _ _ | assign batchId orders _ _ => some (.batch batchId (customersOf orders))
  | notifyAssigned jobId _ delivererId orders _ | notifyCustomers jobId delivererId orders _ =>
    some (.job delivererId jobId (customersOf orders))
  | _ => none

def Proc.sells : Proc → Option (Nat × Nat)
  | notifyNewOrder vendorId orderId => some (vendorId,orderId)
  | _ => none

def RiddenBy (v : Database) (delivererId jobId : Nat) : Prop :=
  ∃ job, v.rows .deliveryJob jobId = some job ∧ job.delivererId = some delivererId

-- An order of the customer is in the batch.
def OrderedIn (v : Database) (customerId batchId : Nat) : Prop :=
  ∃ i o, v.rows .order i = some o ∧ o.customerId = customerId ∧ o.deliveryBatchId = some batchId

def FromBatch (v : Database) (jobId batchId : Nat) : Prop :=
  ∃ job, v.rows .deliveryJob jobId = some job ∧ job.batchId = batchId

-- What is remembered of a run: which deliverer was given which job, whose orders were in
-- which batch, and from which batch a job is.
structure Memory where
  given : Nat → Nat → Prop
  batched : Nat → Nat → Prop
  made : Nat → Nat → Prop

structure Memory.Covers (M : Memory) (v : Database) : Prop where
  given : ∀ d j, RiddenBy v d j → M.given d j
  batched : ∀ c b, OrderedIn v c b → M.batched c b
  made : ∀ j b, FromBatch v j b → M.made j b

-- The customer has had an order in the batch that the job is from.
def Memory.Shares (M : Memory) (customerId jobId : Nat) : Prop := ∃ b, M.batched customerId b ∧ M.made jobId b

def Memory.Backs (M : Memory) : Handout → Prop
  | .batch batchId customers => ∀ c ∈ customers, M.batched c batchId
  | .job delivererId jobId customers => M.given delivererId jobId ∧ ∀ c ∈ customers, M.Shares c jobId

-- What a process is about to say is so: the order is the customer's, the shop's, the job
-- is one that the deliverer was given, and the customers are those of its batch.
structure Proc.Honest (M : Memory) (v : Database) (x : Proc) : Prop where
  mentions : ∀ t ∈ x.mentions, PlacedBy v t.2 t.1
  hands : ∀ handout, x.hands = some handout → M.Backs handout
  sells : ∀ k i, x.sells = some (k,i) → SoldBy v k i

section Continuations
variable {M : Memory} {v : Database}

theorem honest_handout {x : Proc} (mentions : ∀ t ∈ x.mentions, PlacedBy v t.2 t.1) (hands : x.hands = some handout)
    (backs : M.Backs handout) (sells : x.sells = none) : x.Honest M v := by
  refine ⟨mentions,?_,?_⟩
  · intro other announces; rw [hands] at announces; cases announces; exact backs
  · intro k i announces; rw [sells] at announces; cases announces

theorem honest_telling {x : Proc} (mentions : ∀ t ∈ x.mentions, PlacedBy v t.2 t.1) (hands : x.hands = none)
    (sells : x.sells = none) : x.Honest M v := by
  refine ⟨mentions,?_,?_⟩
  · intro handout announces; rw [hands] at announces; cases announces
  · intro k i announces; rw [sells] at announces; cases announces

theorem honest_quiet {x : Proc} (mentions : x.mentions = []) (hands : x.hands = none) (sells : x.sells = none) :
    x.Honest M v :=
  honest_telling (by rw [mentions]; exact fun _ member => absurd member List.not_mem_nil) hands sells

theorem honest_returned : (Proc.returned reply).Honest M v := honest_quiet rfl rfl rfl

theorem honest_sweepNext (rest : List StaleDeliverer) (known : ∀ t ∈ unhandled rest, PlacedBy v t.2 t.1) :
    (Proc.sweepNext rest).Honest M v := by
  induction rest with
  | nil => exact honest_quiet rfl rfl rfl
  | cons d rest ih =>
    have later : ∀ t ∈ unhandled rest, PlacedBy v t.2 t.1 := fun t member => known t (List.mem_append_right _ member)
    unfold Proc.sweepNext
    split
    · exact ih later
    · split
      · exact honest_telling known rfl rfl
      · exact honest_telling known rfl rfl
      · exact ih later

theorem honest_assigned (caller : AssignCaller) (known : ∀ t ∈ caller.mentions, PlacedBy v t.2 t.1) :
    (Proc.assigned caller).Honest M v := by
  cases caller with
  | worker => exact honest_returned
  | sweep rest => exact honest_sweepNext rest known

theorem honest_assignFailed (caller : AssignCaller) (known : ∀ t ∈ caller.mentions, PlacedBy v t.2 t.1) :
    (Proc.assignFailed e caller).Honest M v := by
  cases caller with
  | worker => exact honest_returned
  | sweep rest => exact honest_sweepNext rest known

theorem honest_closed (caller : CloseCaller) (known : ∀ t ∈ caller.mentions, PlacedBy v t.2 t.1) :
    (Proc.closed caller).Honest M v := by
  cases caller with
  | markReady => exact honest_telling known rfl rfl
  | expired rest => cases rest <;> exact honest_quiet rfl rfl rfl
  | timer => exact honest_returned

theorem honest_closeFailed (caller : CloseCaller) (known : ∀ t ∈ caller.mentions, PlacedBy v t.2 t.1) :
    (Proc.closeFailed e caller).Honest M v := by
  cases caller with
  | markReady customerId orderId => exact honest_closed (.markReady customerId orderId) known
  | expired rest => exact honest_closed (.expired rest) known
  | timer => exact honest_returned

theorem honest_afterBatching (placed : PlacedBy v customerId orderId) :
    (Proc.afterBatching outcome customerId orderId).Honest M v := by
  have known : ∀ t ∈ [(orderId,customerId)], PlacedBy v t.2 t.1 := by
    intro t member; rw [List.mem_singleton.mp member]; exact placed
  unfold Proc.afterBatching
  split <;> exact honest_telling known rfl rfl

theorem honest_issueNext (orders : List (Nat × Order)) (known : ∀ t ∈ told orders ++ unhandled rest, PlacedBy v t.2 t.1) :
    (Proc.issueNext jobId rest orders).Honest M v := by
  cases orders with
  | nil => exact honest_sweepNext rest known
  | cons => exact honest_telling known rfl rfl

theorem honest_recorded (caller : RecordCaller) (known : ∀ t ∈ caller.mentions, PlacedBy v t.2 t.1) :
    (Proc.recorded caller).Honest M v := by
  cases caller with
  | escalated jobId orders rest => exact honest_issueNext orders known
  | decision | recovered | issue => exact honest_telling known rfl rfl

theorem honest_recordFailed (caller : RecordCaller) (known : ∀ t ∈ caller.mentions, PlacedBy v t.2 t.1) :
    (Proc.recordFailed e caller).Honest M v := by
  cases caller with
  | decision => exact honest_returned
  | recovered b rest => exact honest_sweepNext rest known
  | escalated jobId orders rest => exact honest_sweepNext rest fun t member => known t (List.mem_append_right _ member)
  | issue jobId order orders rest => exact honest_sweepNext rest fun t member => known t (List.mem_append_right _ member)

theorem honest_flushed (caller : FlushCaller) : (Proc.flushed caller).Honest M v := by
  cases caller <;> exact honest_quiet rfl rfl rfl

theorem honest_flushFailed (caller : FlushCaller) : (Proc.flushFailed e caller).Honest M v := by
  cases caller <;> exact honest_quiet rfl rfl rfl

theorem honest_requeueNext (batches : List Nat) : (Proc.requeueNext batches).Honest M v := by
  cases batches <;> exact honest_quiet rfl rfl rfl

theorem honest_notifyNext (orders : List (Nat × Order)) (known : ∀ t ∈ told orders ++ caller.mentions, PlacedBy v t.2 t.1)
    (hands : M.Backs (.job d j (customersOf orders))) : (Proc.notifyNext j d caller orders).Honest M v := by
  cases orders with
  | nil => exact honest_assigned caller known
  | cons => exact honest_handout known rfl hands rfl

theorem told_listed {orders : List (Nat × Order)} (listed : ∀ o ∈ orders, v.rows .order o.1 = some o.2) :
    ∀ t ∈ told orders, PlacedBy v t.2 t.1 := by
  intro t member
  obtain ⟨o,at_o,same⟩ := List.mem_map.mp member
  rw [← same]
  exact ⟨o.2,listed o at_o,rfl⟩

theorem batchOrders_listed {env : Env} (member : o ∈ batchOrders env v b) : v.rows .order o.1 = some o.2 := by
  have listed := (List.mem_insertionSort _).mp member
  exact (v.mem_matching.mp ((env.scan_perm v _).mem_iff.mp listed)).1

theorem batchOrders_joined {env : Env} (covers : M.Covers v) (b : Nat) : M.Backs (.batch b (customersOf (batchOrders env v b))) := by
  intro c member
  obtain ⟨o,listed,rfl⟩ := List.mem_map.mp member
  have found := (List.mem_insertionSort _).mp listed
  obtain ⟨at_o,part⟩ := v.mem_matching.mp ((env.scan_perm v _).mem_iff.mp found)
  exact covers.batched _ _ ⟨o.1,o.2,at_o,rfl,of_decide_eq_true part⟩

theorem staleDeliverers_told {env : Env} : ∀ t ∈ unhandled (staleDeliverers env v), PlacedBy v t.2 t.1 := by
  intro t member
  obtain ⟨s,at_s,mentions⟩ := List.mem_flatMap.mp member
  obtain ⟨d,_,stale⟩ := List.mem_filterMap.mp at_s
  unfold staleDeliverer at stale
  split at stale
  · split at stale
    · split at stale
      · cases stale
        dsimp only at mentions
        exact told_listed (fun o listed => (v.mem_matching.mp listed).1) t mentions
      · cases stale
    · cases stale
  · cases stale

end Continuations

section Flow
variable {env : Env} {M : Memory} {v v' : Database}

theorem query_honest {read : Database → Proc} (at_query : Proc.next env x = .query read) (honest : x.Honest M v)
    (covers : M.Covers v) : (read v).Honest M v := by
  have known := honest.mentions
  cases x <;> simp only [Proc.next,reduceCtorEq] at at_query
  case notifyCustomers | requeue => split at at_query <;> cases at_query
  all_goals cases at_query; beta_reduce
  case createOrder => unfold Proc.vendorOfOrder; split <;> (try split) <;> exact honest_quiet rfl rfl rfl
  case readReadyOrder =>
    unfold Proc.readyOrder
    split
    · exact honest_returned
    · rename_i order found
      split
      · exact honest_returned
      · refine honest_telling ?_ rfl rfl
        intro t member
        rw [List.mem_singleton.mp member]
        exact ⟨order,found,rfl⟩
  case readDecidedOrder =>
    unfold Proc.decidedOrder
    split
    · exact honest_returned
    · rename_i order found
      split
      · exact honest_returned
      · split
        · exact honest_returned
        · refine honest_telling ?_ rfl rfl
          intro t member
          rw [List.mem_singleton.mp member]
          exact ⟨order,found,rfl⟩
  case assignDelivererToBatch b caller =>
    unfold Proc.batchToAssign
    split
    · rename_i k first others found orders
      split
      · exact honest_assigned caller known
      · split
        · have joined : M.Backs (.batch b (customersOf (batchOrders env v b))) := batchOrders_joined covers b
          rw [orders] at joined
          refine honest_handout ?_ rfl joined rfl
          intro t member
          rcases List.mem_append.mp member with own | callers
          · refine told_listed (fun o listed => ?_) t own
            rw [← orders] at listed
            exact batchOrders_listed listed
          · exact known t callers
        · exact honest_assigned caller known
    · exact honest_assigned caller known
  case readCandidates b orders lat lng caller =>
    unfold Proc.candidates
    split
    · exact honest_assignFailed caller fun t member => known t (List.mem_append_right _ member)
    · exact honest_handout known rfl (honest.hands _ rfl) rfl
  case readMissing =>
    unfold Proc.choose
    split
    · exact honest_handout known rfl (honest.hands _ rfl) rfl
    · exact honest_assigned _ fun t member => known t (List.mem_append_right _ member)
  case escalateStartedJob d rest =>
    split
    · exact honest_sweepNext rest fun t member => known t (List.mem_append_right _ member)
    · exact honest_telling known rfl rfl
  case closeExpiredBatches => exact honest_closed _ fun _ member => absurd member List.not_mem_nil
  case checkDeliverers => exact honest_sweepNext _ staleDeliverers_told
  case countFreeDeliverers => exact honest_requeueNext _
  all_goals first | exact honest_quiet rfl rfl rfl | (split <;> exact honest_quiet rfl rfl rfl)

theorem input_honest {read : (Nat → Option Point) → Proc} (at_input : Proc.next env x = .input read)
    (honest : x.Honest M v) (redis : Nat → Option Point) : (read redis).Honest M v := by
  have known := honest.mentions
  cases x <;> simp only [Proc.next,reduceCtorEq] at at_input
  case notifyCustomers | requeue => split at at_input <;> cases at_input
  all_goals cases at_input; beta_reduce
  case readPositions => exact honest_handout known rfl (honest.hands _ rfl) rfl
  case flushToDb =>
    split
    · exact honest_flushed _
    · exact honest_quiet rfl rfl rfl

theorem add_honest (at_add : Proc.next env x = .add task y) (honest : x.Honest M v) : y.Honest M v := by
  have known := honest.mentions
  cases x <;> simp only [Proc.next,reduceCtorEq] at at_add
  case notifyCustomers => split at at_add <;> cases at_add
  case requeue =>
    split at at_add
    · cases at_add
    · cases at_add; exact honest_requeueNext _
  all_goals cases at_add
  case scheduleBatchTimeout => exact honest_afterBatching (known _ List.mem_cons_self)
  case queueAssignment => exact honest_closed _ known
  case requeueStuckBatch => exact honest_returned

theorem emit_honest (at_emit : Proc.next env x = .emit note y) (honest : x.Honest M v) : y.Honest M v := by
  have known := honest.mentions
  cases x <;> simp only [Proc.next,reduceCtorEq] at at_emit
  case requeue => split at at_emit <;> cases at_emit
  case notifyCustomers =>
    split at at_emit
    · cases at_emit
    · cases at_emit
      have hands := honest.hands _ rfl
      exact honest_notifyNext _ (fun t member => known t (List.mem_cons_of_mem _ member))
        ⟨hands.1,fun c member => hands.2 c (List.mem_cons_of_mem _ member)⟩
  all_goals cases at_emit
  case notifyAssigned => exact honest_notifyNext _ known (honest.hands _ rfl)
  case notifyIssue => exact honest_issueNext _ fun t member => known t (List.mem_cons_of_mem _ member)
  all_goals exact honest_returned

theorem caught_honest (x : Proc) (e : Err) (honest : x.Honest M v) : (x.caught e).Honest M v := by
  have known := honest.mentions
  have callers : ∀ {orders : List (Nat × Order)} {caller : AssignCaller},
      (∀ t ∈ told orders ++ caller.mentions, PlacedBy v t.2 t.1) → ∀ t ∈ caller.mentions, PlacedBy v t.2 t.1 :=
    fun all t member => all t (List.mem_append_right _ member)
  cases x with
  | scheduleBatchTimeout => exact honest_telling known rfl rfl
  | closeBatch _ caller => exact honest_closeFailed caller known
  | queueAssignment _ caller => exact honest_closeFailed caller known
  | recordEvent _ caller => exact honest_recordFailed caller known
  | projectEvent _ _ caller => exact honest_recordFailed caller known
  | assignDelivererToBatch _ caller => exact honest_assignFailed caller known
  | readCandidates _ _ _ _ caller => exact honest_assignFailed caller (callers known)
  | readPositions _ _ _ _ _ caller => exact honest_assignFailed caller (callers known)
  | readMissing _ _ _ _ _ _ caller => exact honest_assignFailed caller (callers known)
  | assign _ _ _ caller => exact honest_assignFailed caller (callers known)
  | notifyAssigned _ _ _ _ caller => exact honest_assigned caller (callers known)
  | notifyCustomers _ _ _ caller => exact honest_assigned caller (callers known)
  | flushToDb _ caller => exact honest_flushFailed caller
  | writeLocation _ _ caller => exact honest_flushFailed caller
  | checkDeliverers => exact honest_quiet rfl rfl rfl
  | recoverUnstartedJob d job rest =>
    exact honest_sweepNext rest fun t member => known t (List.mem_append_right _ member)
  | escalateStartedJob d rest => exact honest_sweepNext rest fun t member => known t (List.mem_append_right _ member)
  | notifyIssue _ _ _ rest => exact honest_sweepNext rest fun t member => known t (List.mem_append_right _ member)
  | _ => exact honest_returned

theorem commit_honest {now : Nat} (commit : Committed now x (dispatch v) y (dispatch v'))
    (known : ∀ t ∈ x.mentions, PlacedBy v' t.2 t.1) (hands : ∀ handout, x.hands = some handout → M.Backs handout)
    (covers : M.Covers v') : y.Honest M v' := by
  generalize same : dispatch v' = c' at commit
  cases commit with
  | insertOrder =>
    refine ⟨fun _ member => absurd member List.not_mem_nil,(fun _ hands => by cases hands),?_⟩
    intro k i sells
    cases sells
    exact ⟨_,(congrFun (congrArg Dispatch.order same) _).trans (Function.update_self ..),rfl⟩
  | joinBatch => exact honest_afterBatching (known _ List.mem_cons_self)
  | openBatch => exact honest_telling known rfl rfl
  | closeBatch => exact honest_telling known rfl rfl
  | closedAlready => exact honest_closed _ known
  | updateDecided => exact honest_telling known rfl rfl
  | recordEvent => exact honest_telling known rfl rfl
  | projectEvent => exact honest_recorded _ known
  | assign =>
    have job := (congrFun (congrArg Dispatch.job same) _).trans (Function.update_self ..)
    refine honest_handout known rfl ⟨covers.given _ _ ⟨_,job,rfl⟩,fun c member => ?_⟩ rfl
    exact ⟨_,hands _ rfl c member,covers.made _ _ ⟨_,job,rfl⟩⟩
  | completeLast | completeJob => exact honest_quiet rfl rfl rfl
  | writeLocation => exact honest_flushed _
  | recoverUnstartedJob => exact honest_telling (fun t member => known t (List.mem_append_right _ member)) rfl rfl
  | deleteProfile | promote => exact honest_quiet rfl rfl rfl
  | _ => exact honest_returned

theorem honest_on {x : Proc} (honest : x.Honest M v) (belong : Belonging v v') : x.Honest M v' :=
  ⟨fun t member => placed_on (honest.mentions t member) belong,honest.hands,
    fun k i sells => sold_on (honest.sells k i sells) belong⟩

theorem flows_honest (flows : Flows (market env) v v' x y) (honest : x.Honest M v) (belong : Belonging v v')
    (before : M.Covers v) (after : M.Covers v') : y.Honest M v' := by
  cases flows with
  | query at_query still => exact honest_on (query_honest at_query honest before) belong
  | caught still => exact honest_on (caught_honest x _ honest) belong
  | input at_input still => exact honest_on (input_honest at_input honest _) belong
  | add at_add still => exact honest_on (add_honest at_add honest) belong
  | emit at_emit still => exact honest_on (emit_honest at_emit honest) belong
  | commit at_tx ran =>
    exact commit_honest (committed at_tx ran) (fun t member => placed_on (honest.mentions t member) belong) honest.hands after

theorem entry_honest (entry : Entry x) : x.Honest M v := by cases entry <;> exact honest_quiet rfl rfl rfl

theorem worker_honest (task : QueueJob) : ((market env).worker task).Honest M v := by
  cases task <;> exact honest_quiet rfl rfl rfl

end Flow
end MesyafMarket
