import MesyafMarket.Dispatch.Commit

namespace MesyafMarket
open Relational OrderService DelivererAssignmentService DelivererJobService DelivererRecoveryService
open VendorService SessionService DelivererService DelivererLocationService AdminService

-- What a process carries from earlier reads into later transactions: the
-- deliverers that a sweep has still to handle, the orders that an assignment read
-- for its batch, and the deliverers it may choose.
def AssignCaller.pending : AssignCaller → List StaleDeliverer
  | worker => []
  | sweep rest => rest

def RecordCaller.pending : RecordCaller → List StaleDeliverer
  | decision .. => []
  | recovered _ rest => rest
  | escalated _ _ rest => rest
  | issue _ _ _ rest => rest

def Proc.pending : Proc → List StaleDeliverer
  | recordEvent _ caller => caller.pending
  | projectEvent _ _ caller => caller.pending
  | assignDelivererToBatch _ caller => caller.pending
  | readCandidates _ _ _ _ caller => caller.pending
  | readPositions _ _ _ _ _ caller => caller.pending
  | readMissing _ _ _ _ _ _ caller => caller.pending
  | assign _ _ _ caller => caller.pending
  | notifyAssigned _ _ _ _ caller => caller.pending
  | notifyCustomers _ _ _ caller => caller.pending
  | recoverUnstartedJob deliverer _ rest => deliverer::rest
  | escalateStartedJob deliverer rest => deliverer::rest
  | notifyIssue _ _ _ rest => rest
  | _ => []

def Proc.reading : Proc → Option (Nat × List (Nat × Order))
  | readCandidates b orders _ _ _ => some (b,orders)
  | readPositions b orders _ _ _ _ => some (b,orders)
  | readMissing b orders _ _ _ _ _ => some (b,orders)
  | assign b orders _ _ => some (b,orders)
  | _ => none

def Proc.considered : Proc → List Nat
  | readPositions _ _ _ _ deliverers _ => deliverers.map Prod.fst
  | readMissing _ _ _ _ deliverers _ _ => deliverers.map Prod.fst
  | assign _ _ d _ => [d]
  | _ => []

-- The job that a recovery is about is the one of its deliverer's snapshot, and it
-- was ASSIGNED there.
def Proc.Formed : Proc → Prop
  | recoverUnstartedJob deliverer job _ => deliverer.job = some job ∧ job.status = .assigned
  | _ => True

-- A sweep is running from the moment it starts until it has handled its snapshot,
-- a removal until the user is demoted.
inductive Kind where
  | request | sweep | removal
  deriving DecidableEq

def AssignCaller.kind : AssignCaller → Kind
  | worker => .request
  | sweep _ => .sweep

def RecordCaller.kind : RecordCaller → Kind
  | decision .. => .request
  | recovered .. => .sweep
  | escalated .. => .sweep
  | issue .. => .sweep

def Proc.kind : Proc → Kind
  | checkDeliverers => .sweep
  | recordEvent _ caller => caller.kind
  | projectEvent _ _ caller => caller.kind
  | assignDelivererToBatch _ caller => caller.kind
  | readCandidates _ _ _ _ caller => caller.kind
  | readPositions _ _ _ _ _ caller => caller.kind
  | readMissing _ _ _ _ _ _ caller => caller.kind
  | assign _ _ _ caller => caller.kind
  | notifyAssigned _ _ _ _ caller => caller.kind
  | notifyCustomers _ _ _ caller => caller.kind
  | recoverUnstartedJob .. => .sweep
  | escalateStartedJob .. => .sweep
  | notifyIssue .. => .sweep
  | removeDeliverer _ => .removal
  | deleteProfile _ => .removal
  | demote _ => .removal
  | _ => .request

-- How the locals of a process may change between two program points.
structure Carries (x y : Proc) : Prop where
  pending : y.pending.Sublist x.pending
  reading : y.reading = none ∨ y.reading = x.reading
  considered : ∀ d ∈ y.considered, d ∈ x.considered
  formed : y.Formed
  kind : y.kind = .request ∨ y.kind = x.kind

-- Program points without locals.
structure Plain (y : Proc) : Prop where
  pending : y.pending = []
  reading : y.reading = none
  considered : y.considered = []
  formed : y.Formed
  kind : y.kind = .request

theorem Plain.carried (plain : Plain y) (x : Proc) : Carries x y :=
  ⟨by rw [plain.pending]; exact List.nil_sublist _,.inl plain.reading,
   by rw [plain.considered]; exact fun _ member => absurd member List.not_mem_nil,
   plain.formed,.inl plain.kind⟩

theorem plain_returned : Plain (.returned reply) := ⟨rfl,rfl,rfl,trivial,rfl⟩

theorem plain_notifyDecision : Plain (.notifyDecision customerId orderId status) := ⟨rfl,rfl,rfl,trivial,rfl⟩

theorem plain_closed (caller : CloseCaller) : Plain (.closed caller) := by
  cases caller with
  | markReady => exact ⟨rfl,rfl,rfl,trivial,rfl⟩
  | expired rest => cases rest <;> exact ⟨rfl,rfl,rfl,trivial,rfl⟩
  | timer => exact plain_returned

theorem plain_closeFailed (caller : CloseCaller) : Plain (.closeFailed e caller) := by
  cases caller with
  | timer => exact plain_returned
  | markReady customerId orderId => exact plain_closed (.markReady customerId orderId)
  | expired rest => exact plain_closed (.expired rest)

theorem plain_flushed (caller : FlushCaller) : Plain (.flushed caller) := by
  cases caller <;> exact ⟨rfl,rfl,rfl,trivial,rfl⟩

theorem plain_flushFailed (caller : FlushCaller) : Plain (.flushFailed e caller) := by
  cases caller <;> exact ⟨rfl,rfl,rfl,trivial,rfl⟩

theorem plain_afterBatching : Plain (.afterBatching outcome customerId orderId) := by
  unfold Proc.afterBatching
  split <;> exact ⟨rfl,rfl,rfl,trivial,rfl⟩

theorem plain_requeueNext (batches : List Nat) : Plain (.requeueNext batches) := by
  cases batches <;> exact ⟨rfl,rfl,rfl,trivial,rfl⟩

-- The next program point of a sweep that has `rest` still to handle.
structure Resumes (rest : List StaleDeliverer) (y : Proc) : Prop where
  pending : y.pending.Sublist rest
  reading : y.reading = none
  considered : y.considered = []
  formed : y.Formed
  kind : y.kind = .request ∨ y.kind = .sweep

theorem resumes_sweepNext (rest : List StaleDeliverer) : Resumes rest (.sweepNext rest) := by
  induction rest with
  | nil => exact ⟨List.nil_sublist _,rfl,rfl,trivial,.inl rfl⟩
  | cons d rest ih =>
    have later : Resumes (d::rest) (.sweepNext rest) :=
      ⟨ih.pending.cons d,ih.reading,ih.considered,ih.formed,ih.kind⟩
    unfold Proc.sweepNext
    split
    · exact later
    · rename_i job snapshot
      split
      · rename_i unstarted
        exact ⟨List.Sublist.refl _,rfl,rfl,⟨snapshot,unstarted⟩,.inr rfl⟩
      · exact ⟨List.Sublist.refl _,rfl,rfl,trivial,.inr rfl⟩
      · exact later

theorem Resumes.carried (resumes : Resumes rest y) (fewer : rest.Sublist x.pending) (sweep : x.kind = .sweep) :
    Carries x y :=
  ⟨resumes.pending.trans fewer,.inl resumes.reading,
   by rw [resumes.considered]; exact fun _ member => absurd member List.not_mem_nil,
   resumes.formed,by rw [sweep]; exact resumes.kind⟩

theorem carried_assigned (caller : AssignCaller) (same : x.pending = caller.pending)
    (kind : x.kind = caller.kind) : Carries x (.assigned caller) := by
  cases caller with
  | worker => exact plain_returned.carried x
  | sweep rest => exact (resumes_sweepNext rest).carried (by rw [same]; exact .refl _) kind

theorem carried_assignFailed (caller : AssignCaller) (same : x.pending = caller.pending)
    (kind : x.kind = caller.kind) : Carries x (.assignFailed e caller) := by
  cases caller with
  | worker => exact plain_returned.carried x
  | sweep rest => exact (resumes_sweepNext rest).carried (by rw [same]; exact .refl _) kind

theorem carried_issueNext (orders : List (Nat × Order)) (fewer : rest.Sublist x.pending) (sweep : x.kind = .sweep) :
    Carries x (.issueNext jobId rest orders) := by
  cases orders with
  | nil => exact (resumes_sweepNext rest).carried fewer sweep
  | cons order orders =>
    exact ⟨fewer,.inl rfl,fun _ member => absurd member List.not_mem_nil,trivial,.inr sweep.symm⟩

theorem carried_recorded (caller : RecordCaller) (same : x.pending = caller.pending)
    (kind : x.kind = caller.kind) :
    Carries x (.recorded caller) := by
  cases caller with
  | decision customerId orderId status => exact plain_notifyDecision.carried x
  | recovered b rest =>
    exact ⟨by rw [same]; exact .refl _,.inl rfl,fun _ member => absurd member List.not_mem_nil,trivial,.inr kind.symm⟩
  | escalated jobId orders rest => exact carried_issueNext orders (by rw [same]; exact .refl _) kind
  | issue jobId order orders rest =>
    exact ⟨by rw [same]; exact .refl _,.inl rfl,fun _ member => absurd member List.not_mem_nil,trivial,.inr kind.symm⟩

theorem carried_recordFailed (caller : RecordCaller) (same : x.pending = caller.pending)
    (kind : x.kind = caller.kind) :
    Carries x (.recordFailed e caller) := by
  cases caller with
  | decision customerId orderId status => exact plain_returned.carried x
  | recovered b rest => exact (resumes_sweepNext rest).carried (by rw [same]; exact .refl _) kind
  | escalated jobId orders rest => exact (resumes_sweepNext rest).carried (by rw [same]; exact .refl _) kind
  | issue jobId order orders rest => exact (resumes_sweepNext rest).carried (by rw [same]; exact .refl _) kind

theorem carried_notifyNext (orders : List (Nat × Order)) (same : x.pending = caller.pending)
    (kind : x.kind = caller.kind) : Carries x (.notifyNext jobId d caller orders) := by
  cases orders with
  | nil => exact carried_assigned caller same kind
  | cons order orders =>
    exact ⟨by rw [same]; exact .refl _,.inl rfl,fun _ member => absurd member List.not_mem_nil,trivial,.inr kind.symm⟩

section Flow
variable {env : Env}

theorem carries_input {read : (Nat → Option Point) → Proc} (at_input : Proc.next env x = .input read) : Carries x (read i) := by
  cases x <;> simp only [Proc.next,reduceCtorEq] at at_input
  case readPositions b orders lat lng deliverers caller =>
    cases at_input
    exact ⟨.refl _,.inr rfl,fun _ member => member,trivial,.inr rfl⟩
  case flushToDb d caller =>
    cases at_input
    refine Plain.carried ?_ _
    beta_reduce
    split
    · exact plain_flushed caller
    · exact ⟨rfl,rfl,rfl,trivial,rfl⟩
  case notifyCustomers => split at at_input <;> cases at_input
  case requeue => split at at_input <;> cases at_input

theorem carries_add (at_add : Proc.next env x = .add task y) : Carries x y := by
  cases x <;> simp only [Proc.next,reduceCtorEq] at at_add
  case scheduleBatchTimeout => cases at_add; exact plain_afterBatching.carried _
  case queueAssignment b caller => cases at_add; exact (plain_closed caller).carried _
  case requeueStuckBatch => cases at_add; exact plain_returned.carried _
  case notifyCustomers => split at at_add <;> cases at_add
  case requeue =>
    split at at_add
    · cases at_add
    · cases at_add; exact (plain_requeueNext _).carried _

theorem carries_emit (at_emit : Proc.next env x = .emit note y) : Carries x y := by
  cases x <;> simp only [Proc.next,reduceCtorEq] at at_emit
  case notifyNewOrder => cases at_emit; exact plain_returned.carried _
  case notifyReady => cases at_emit; exact plain_returned.carried _
  case notifyDecision => cases at_emit; exact plain_returned.carried _
  case notifyAssigned j b d orders caller =>
    cases at_emit; exact carried_notifyNext orders rfl rfl
  case notifyCustomers j d orders caller =>
    split at at_emit
    · cases at_emit
    · cases at_emit; exact carried_notifyNext _ rfl rfl
  case notifyIssue j order orders rest => cases at_emit; exact carried_issueNext orders (.refl _) rfl
  case requeue => split at at_emit <;> cases at_emit

theorem carries_caught (x : Proc) (e : Err) : Carries x (x.caught e) := by
  cases x with
  | scheduleBatchTimeout => exact (⟨rfl,rfl,rfl,trivial,rfl⟩ : Plain (.notifyReady ..)).carried _
  | closeBatch _ caller => exact (plain_closeFailed caller).carried _
  | queueAssignment _ caller => exact (plain_closeFailed caller).carried _
  | recordEvent _ caller => exact carried_recordFailed caller rfl rfl
  | projectEvent _ _ caller => exact carried_recordFailed caller rfl rfl
  | assignDelivererToBatch _ caller => exact carried_assignFailed caller rfl rfl
  | readCandidates _ _ _ _ caller => exact carried_assignFailed caller rfl rfl
  | readPositions _ _ _ _ _ caller => exact carried_assignFailed caller rfl rfl
  | readMissing _ _ _ _ _ _ caller => exact carried_assignFailed caller rfl rfl
  | assign _ _ _ caller => exact carried_assignFailed caller rfl rfl
  | notifyAssigned _ _ _ _ caller => exact carried_assigned caller rfl rfl
  | notifyCustomers _ _ _ caller => exact carried_assigned caller rfl rfl
  | flushToDb _ caller => exact (plain_flushFailed caller).carried _
  | writeLocation _ _ caller => exact (plain_flushFailed caller).carried _
  | checkDeliverers => exact (⟨rfl,rfl,rfl,trivial,rfl⟩ : Plain .requeueStuckBatches).carried _
  | recoverUnstartedJob d job rest => exact (resumes_sweepNext rest).carried (.cons d (.refl _)) rfl
  | escalateStartedJob d rest => exact (resumes_sweepNext rest).carried (.cons d (.refl _)) rfl
  | notifyIssue _ _ _ rest => exact (resumes_sweepNext rest).carried (.refl _) rfl
  | _ => exact plain_returned.carried _

theorem carries_commit (commit : Committed now x c y c') : Carries x y := by
  cases commit with
  | insertOrder => exact (⟨rfl,rfl,rfl,trivial,rfl⟩ : Plain (.notifyNewOrder ..)).carried _
  | joinBatch => exact plain_afterBatching.carried _
  | openBatch => exact (⟨rfl,rfl,rfl,trivial,rfl⟩ : Plain (.scheduleBatchTimeout ..)).carried _
  | closeBatch => exact (⟨rfl,rfl,rfl,trivial,rfl⟩ : Plain (.queueAssignment ..)).carried _
  | closedAlready => exact (plain_closed _).carried _
  | updateDecided =>
    exact ⟨.refl _,.inl rfl,fun _ member => absurd member List.not_mem_nil,trivial,.inr rfl⟩
  | recordEvent => exact ⟨.refl _,.inl rfl,fun _ member => absurd member List.not_mem_nil,trivial,.inr rfl⟩
  | projectEvent => exact carried_recorded _ rfl rfl
  | assign => exact ⟨.refl _,.inl rfl,fun _ member => absurd member List.not_mem_nil,trivial,.inr rfl⟩
  | completeLast => exact (⟨rfl,rfl,rfl,trivial,rfl⟩ : Plain (.flushToDb ..)).carried _
  | completeJob => exact (⟨rfl,rfl,rfl,trivial,rfl⟩ : Plain (.flushToDb ..)).carried _
  | writeLocation => exact (plain_flushed _).carried _
  | recoverUnstartedJob =>
    exact ⟨.cons _ (.refl _),.inl rfl,fun _ member => absurd member List.not_mem_nil,trivial,.inr rfl⟩
  | deleteProfile => exact ⟨.refl _,.inl rfl,fun _ member => absurd member List.not_mem_nil,trivial,.inr rfl⟩
  | promote => exact (⟨rfl,rfl,rfl,trivial,rfl⟩ : Plain (.createProfile ..)).carried _
  | _ => exact plain_returned.carried _

-- What a query outside a transaction brings: a sweep's snapshot, the orders of a
-- batch, the deliverers available, or nothing that is used later.
inductive Queried (env : Env) (v : Database) (x : Proc) : Proc → Prop where
  | carries (carries : Carries x y) : Queried env v x y
  | snapshot (at_sweep : x = .checkDeliverers) : Queried env v x (.sweepNext (staleDeliverers env v))
  | batch (at_assign : x = .assignDelivererToBatch b caller) (found : v.rows .deliveryBatch b = some k)
      (unclaimed : k.delivererId = none) (orders : batchOrders env v b = first::others) :
      Queried env v x (.readCandidates b (first::others) lat lng caller)
  | candidates (at_read : x = .readCandidates b orders lat lng caller) :
      Queried env v x (.readPositions b orders lat lng (availableDeliverers env v) caller)

theorem chosenDeliverer_mem {located : List (Nat × DelivererProfile)}
    (chosen : chosenDeliverer env located lat lng = some d) : d ∈ located := by
  unfold chosenDeliverer at chosen
  cases closest : env.findClosestDeliverer located lat lng with
  | none => rw [closest] at chosen; exact List.mem_of_head? chosen
  | some e =>
    rw [closest] at chosen
    cases chosen
    exact env.closest_mem located lat lng d closest

theorem withLocation_fst {fresh : Nat → Option Point} (member : d ∈ withLocation fresh deliverers) :
    d.1 ∈ deliverers.map Prod.fst := by
  unfold withLocation at member
  obtain ⟨e,at_e,same⟩ := List.mem_map.mp member
  refine List.mem_map.mpr ⟨e,at_e,?_⟩
  rw [← same]
  split <;> rfl

theorem queried_batch (v : Database) (b : Nat) (caller : AssignCaller) :
    Queried env v (.assignDelivererToBatch b caller) (.batchToAssign env v b caller) := by
  unfold Proc.batchToAssign
  have ended : Carries (.assignDelivererToBatch b caller) (.assigned caller) :=
    carried_assigned caller rfl rfl
  split
  · rename_i k first others found orders
    split
    · exact .carries ended
    · rename_i unclaimed
      split
      · exact .batch rfl found (by simpa using unclaimed) orders
      · exact .carries ended
  · exact .carries ended

theorem queried_choose (v : Database) :
    Queried env v (.readMissing b orders lat lng deliverers redis caller)
      (.choose env (getMany redis v) b orders lat lng deliverers caller) := by
  refine .carries ?_
  unfold Proc.choose
  split
  · rename_i deliverer chosen
    refine ⟨.refl _,.inr rfl,?_,trivial,.inr rfl⟩
    intro d member
    cases List.mem_singleton.mp member
    exact withLocation_fst (chosenDeliverer_mem chosen)
  · exact carried_assigned caller rfl rfl

theorem queried {read : Database → Proc} (at_query : Proc.next env x = .query read) (v : Database) :
    Queried env v x (read v) := by
  cases x <;> simp only [Proc.next,reduceCtorEq] at at_query
  case createOrder =>
    cases at_query
    beta_reduce
    refine .carries (Plain.carried ?_ _)
    unfold Proc.vendorOfOrder
    split
    · exact plain_returned
    · split
      · exact plain_returned
      · exact ⟨rfl,rfl,rfl,trivial,rfl⟩
  case vendorMarkReady =>
    cases at_query
    refine .carries (Plain.carried ?_ _)
    exact ⟨rfl,rfl,rfl,trivial,rfl⟩
  case readReadyOrder =>
    cases at_query
    beta_reduce
    refine .carries (Plain.carried ?_ _)
    unfold Proc.readyOrder
    split
    · exact plain_returned
    · split
      · exact plain_returned
      · exact ⟨rfl,rfl,rfl,trivial,rfl⟩
  case closeExpiredBatches => cases at_query; exact .carries ((plain_closed _).carried _)
  case vendorDecide =>
    cases at_query
    beta_reduce
    refine .carries (Plain.carried ?_ _)
    split
    · exact plain_returned
    · exact ⟨rfl,rfl,rfl,trivial,rfl⟩
  case readDecidedOrder =>
    cases at_query
    beta_reduce
    refine .carries (Plain.carried ?_ _)
    unfold Proc.decidedOrder
    split
    · exact plain_returned
    · split
      · exact plain_returned
      · split
        · exact plain_returned
        · exact ⟨rfl,rfl,rfl,trivial,rfl⟩
  case assignDelivererToBatch b caller => cases at_query; exact queried_batch v b caller
  case readCandidates b orders lat lng caller =>
    cases at_query
    beta_reduce
    unfold Proc.candidates
    split
    · exact .carries (carried_assignFailed caller rfl rfl)
    · exact .candidates rfl
  case readMissing => cases at_query; exact queried_choose v
  case notifyCustomers => split at at_query <;> cases at_query
  case findStuckBatch =>
    cases at_query
    beta_reduce
    refine .carries (Plain.carried ?_ _)
    split
    · exact plain_returned
    · exact ⟨rfl,rfl,rfl,trivial,rfl⟩
  case checkDeliverers => cases at_query; exact .snapshot rfl
  case escalateStartedJob d rest =>
    cases at_query
    beta_reduce
    refine .carries ?_
    split
    · exact (resumes_sweepNext rest).carried (.cons d (.refl _)) rfl
    · exact ⟨.cons d (.refl _),.inl rfl,fun _ member => absurd member List.not_mem_nil,trivial,.inr rfl⟩
  case requeueStuckBatches =>
    cases at_query
    beta_reduce
    refine .carries (Plain.carried ?_ _)
    split
    · exact plain_returned
    · exact ⟨rfl,rfl,rfl,trivial,rfl⟩
  case countFreeDeliverers => cases at_query; exact .carries ((plain_requeueNext _).carried _)
  case requeue => split at at_query <;> cases at_query
  case updateProfile =>
    cases at_query
    beta_reduce
    refine .carries (Plain.carried ?_ _)
    split
    · exact plain_returned
    · exact ⟨rfl,rfl,rfl,trivial,rfl⟩
  case removeDeliverer =>
    cases at_query
    beta_reduce
    refine .carries ?_
    split
    · exact plain_returned.carried _
    · exact ⟨.refl _,.inl rfl,fun _ member => absurd member List.not_mem_nil,trivial,.inr rfl⟩
  case promoteUserToDeliverer =>
    cases at_query
    beta_reduce
    refine .carries (Plain.carried ?_ _)
    split
    · exact plain_returned
    · exact ⟨rfl,rfl,rfl,trivial,rfl⟩

theorem queried_kind (asked : Queried env v x y) : y.kind = .request ∨ y.kind = x.kind := by
  cases asked with
  | carries carries => exact carries.kind
  | snapshot at_sweep =>
    rw [at_sweep]
    exact (resumes_sweepNext _).kind
  | batch at_assign => rw [at_assign]; exact .inr rfl
  | candidates at_read => rw [at_read]; exact .inr rfl

end Flow
end MesyafMarket
