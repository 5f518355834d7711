import MesyafMarket.EventBooks
import MesyafMarket.Dispatch.Runs
import Mathlib.Data.List.Induction

namespace MesyafMarket
open Relational OrderService DelivererAssignmentService DelivererJobService DelivererRecoveryService
open EventLogService VendorService

-- The operations that change the status of an order or of a job and record it.
-- recoverUnstartedJob is one turn of the sweep's loop, with `rest` still to come.
inductive Operation where
  | createOrder (dto : CreateOrderDto) (vendorId costumerId : Nat)
  | vendorDecide (decision : Decision) (orderId userId : Nat)
  | vendorMarkReady (orderId userId : Nat)
  | assignDelivererToBatch (batchId : Nat) (caller : AssignCaller)
  | startJob (jobId delivererId : Nat)
  | completeDropOff (jobId dropOffId delivererId : Nat)
  | recoverUnstartedJob (deliverer : StaleDeliverer) (job : DeliveryJob) (rest : List StaleDeliverer)

def Operation.start : Operation → Proc
  | createOrder dto vendorId costumerId => .createOrder dto vendorId costumerId
  | vendorDecide decision orderId userId => .vendorDecide decision orderId userId
  | vendorMarkReady orderId userId => .vendorMarkReady orderId userId
  | assignDelivererToBatch batchId caller => .assignDelivererToBatch batchId caller
  | startJob jobId delivererId => .startJob jobId delivererId
  | completeDropOff jobId dropOffId delivererId => .completeDropOff jobId dropOffId delivererId
  | recoverUnstartedJob deliverer job rest => .recoverUnstartedJob deliverer job rest

def Proc.assigning : Proc → Bool
  | .assignDelivererToBatch .. | .readCandidates .. | .readPositions .. | .readMissing .. | .assign .. => true
  | _ => false

def Proc.recovering (left : Nat) : Proc → Bool
  | .recoverUnstartedJob _ _ rest => rest.length == left
  | .recordEvent _ (.recovered _ rest) => rest.length == left
  | .projectEvent _ _ (.recovered _ rest) => rest.length == left
  | _ => false

def Proc.running : Proc → Bool
  | .returned _ => false
  | _ => true

-- Whether the operation is still at work: an assignment is over when its caller
-- goes on, a recovery when the sweep assigns the batch again or takes its next turn.
def Operation.during : Operation → Proc → Bool
  | assignDelivererToBatch _ _,x => x.assigning
  | recoverUnstartedJob _ _ rest,x => x.recovering rest.length
  | _,x => x.running

-- The operation alone on the rows `v`.
def Operation.alone (op : Operation) (v : Database) : Market where
  db := v
  threads := Function.update (fun _ => none) 0 (some op.start)
  spawned := 1
  queue := []

def Operation.Only (op : Operation) (w : Market) : MarketMove → Prop
  | .step p _ | .fail p => p = 0 ∧ (w.threads 0).all op.during = true
  | .stop p => p = 0
  | .tick _ => True
  | _ => False

instance (op : Operation) (w : Market) (m : MarketMove) : Decidable (op.Only w m) := by
  cases m <;> unfold Operation.Only <;> infer_instance

-- The rows of orders and jobs that the operation writes, and the events it records.
inductive Operation.Changes (now : Nat) (c : Dispatch) :
    Operation → (Nat → Option Order) → (Nat → Option DeliveryJob) → List Params → Prop where
  | createOrder (fresh : c.order o = none) :
      Changes now c (.createOrder dto vendorId costumerId)
        (Function.update c.order o (some (newOrder dto vendorId costumerId vendor now))) c.job
        [⟨.order,o,EVENTS.ORDER.CREATED,orderPayload o OrderStatus.pendingVendorConfirmation.name⟩]
  | vendorDecide (found : c.order o = some r) (pending : r.status = .pendingVendorConfirmation) :
      Changes now c (.vendorDecide decision o userId)
        (Function.update c.order o (some {r with status := decision.status})) c.job [decisionEvent decision o]
  | vendorMarkReady (found : c.order o = some r) (readyable : r.status ∈ READYABLE_STATUSES) :
      Changes now c (.vendorMarkReady o userId)
        (Function.update c.order o (some (joined b (readied orderType now r)))) c.job
        [⟨.order,o,EVENTS.ORDER.READY,orderPayload o OrderStatus.readyForDelivery.name⟩]
  | assignDelivererToBatch :
      Changes now c (.assignDelivererToBatch b caller)
        (rewritten (fun _ o => o.deliveryBatchId = some b) (handed d j) c.order)
        (Function.update c.job j (some (assignedJob b d n now)))
        [⟨.job,j,EVENTS.JOB.ASSIGNED,jobPayload j .assigned⟩]
  | startJob (at_job : c.job j = some job) (ready : job.status = .assigned) :
      Changes now c (.startJob j d) (rewritten (fun _ o => o.deliveryJobId = some j) underway c.order)
        (Function.update c.job j (some {job with status := .inProgress,startedAt := some now}))
        [⟨.job,j,EVENTS.JOB.STARTED,jobPayload j .inProgress⟩]
  | completeDropOff (at_stop : c.stop s = some stop) (part : stop.jobId = j) :
      Changes now c (.completeDropOff j s d) (c.dropOff now s stop).order c.job (orderEvents c stop.orderId)
  | completeLast (at_stop : c.stop s = some stop) (part : stop.jobId = j) (at_job : c.job j = some job)
      (started : job.status = .inProgress) :
      Changes now c (.completeDropOff j s d) ((c.dropOff now s stop).finish now j d job k p).order
        (Function.update c.job j (some {job with status := .completed,completedAt := some now}))
        (orderEvents c stop.orderId ++ [jobCompletedEvent j])
  | recoverUnstartedJob (at_job : c.job stale.jobId = some job) (unstarted : job.status = .assigned) :
      Changes now c (.recoverUnstartedJob stale snapshot rest)
        (rewritten (fun _ o => o.deliveryJobId = some stale.jobId) released c.order)
        (Function.update c.job stale.jobId (some {job with status := .pending,delivererId := none}))
        [recoveredEvent stale.jobId]

-- None of the three.
structure Unwritten (v₀ v : Database) : Prop where
  order : (dispatch v).order = (dispatch v₀).order
  job : (dispatch v).job = (dispatch v₀).job
  quiet : Quiet v₀ v

-- All of the three.
def Operation.Written (op : Operation) (v₀ v : Database) : Prop :=
  ∃ now later ps, op.Changes now (dispatch v₀) (dispatch v).order (dispatch v).job ps ∧ Booked v₀ later ps v

-- The commits after which the event or its timeline row is still to be written.
def Proc.unbooked : Proc → Bool
  | .updateDecided .. | .recoverUnstartedJob .. | .recordEvent .. => true
  | _ => false

def owing (env : Env) (owed : Bool) (made : Market × MarketMove) : Bool :=
  match commits env made.1 made.2 with
  | some x => x.unbooked
  | none => owed

-- Whether the last commit of a run is one of those.
def cutShort (env : Env) (trace : List (Market × MarketMove)) : Bool := trace.foldl (owing env) false

def Operation.Ended (op : Operation) (thread : Option Proc) : Prop := ∀ x, thread = some x → op.during x = false

-- The points before the operation has written anything.
inductive Operation.Ahead (v : Database) : Operation → Proc → Prop where
  | createOrder : Ahead v (.createOrder dto vendorId costumerId) (.createOrder dto vendorId costumerId)
  | insertOrder : Ahead v (.createOrder dto vendorId costumerId) (.insertOrder dto vendorId costumerId vendor)
  | vendorDecide : Ahead v (.vendorDecide decision o userId) (.vendorDecide decision o userId)
  | readDecidedOrder : Ahead v (.vendorDecide decision o userId) (.readDecidedOrder decision o vendorId)
  | updateDecided (found : v.rows .order o = some r) (pending : r.status = .pendingVendorConfirmation) :
      Ahead v (.vendorDecide decision o userId) (.updateDecided decision o customerId)
  | vendorMarkReady : Ahead v (.vendorMarkReady o userId) (.vendorMarkReady o userId)
  | readReadyOrder : Ahead v (.vendorMarkReady o userId) (.readReadyOrder o vendor)
  | claimReady : Ahead v (.vendorMarkReady o userId) (.claimReady o customerId orderType)
  | assignDelivererToBatch : Ahead v (.assignDelivererToBatch b caller) (.assignDelivererToBatch b caller)
  | readCandidates : Ahead v (.assignDelivererToBatch b caller) (.readCandidates b orders lat lng caller)
  | readPositions : Ahead v (.assignDelivererToBatch b caller) (.readPositions b orders lat lng deliverers caller)
  | readMissing : Ahead v (.assignDelivererToBatch b caller) (.readMissing b orders lat lng deliverers redis caller)
  | assign : Ahead v (.assignDelivererToBatch b caller) (.assign b orders d caller)
  | startJob : Ahead v (.startJob j d) (.startJob j d)
  | completeDropOff : Ahead v (.completeDropOff j s d) (.completeDropOff j s d)
  | recoverUnstartedJob : Ahead v (.recoverUnstartedJob stale job rest) (.recoverUnstartedJob stale job rest)

-- The points after it has: no order, no job and no event is written any more.
inductive Settling : Proc → Prop where
  | returned : Settling (.returned reply)
  | notifyNewOrder : Settling (.notifyNewOrder vendorId orderId)
  | notifyReady : Settling (.notifyReady customerId orderId)
  | notifyDecision : Settling (.notifyDecision customerId orderId status)
  | scheduleBatchTimeout : Settling (.scheduleBatchTimeout outcome customerId orderId)
  | closeBatch : Settling (.closeBatch b (.markReady customerId orderId))
  | queueAssignment : Settling (.queueAssignment b (.markReady customerId orderId))
  | flushToDb : Settling (.flushToDb d (.afterJob reply))
  | writeLocation : Settling (.writeLocation d loc (.afterJob reply))
  | findStuckBatch : Settling (.findStuckBatch reply)
  | requeueStuckBatch : Settling (.requeueStuckBatch b reply)

-- Who records the event of an operation that does so outside its transaction.
inductive Operation.Records : Operation → RecordCaller → Prop where
  | decision : Records (.vendorDecide decision o userId) (.decision customerId o decision.status)
  | recovered : Records (.recoverUnstartedJob stale job rest) (.recovered b rest)

-- How far the operation has come: `owed` is whether an event or its row is missing.
inductive Phase (op : Operation) (v₀ : Database) : Option Proc → Database → Bool → Prop where
  | ahead (point : op.Ahead v₀ x) : Phase op v₀ (some x) (v₀.tick ms) false
  | failed (ended : op.Ended thread) : Phase op v₀ thread (v₀.tick ms) false
  | changed (records : op.Records caller)
      (change : op.Changes now (dispatch v₀) (dispatch v).order (dispatch v).job [params])
      (differs : (dispatch v).order ≠ (dispatch v₀).order ∨ (dispatch v).job ≠ (dispatch v₀).job)
      (quiet : Quiet v₀ v)
      (next : op.Ended thread ∨ thread = some (.recordEvent params caller)) : Phase op v₀ thread v true
  | logged (records : op.Records caller)
      (change : op.Changes now (dispatch v₀) (dispatch v).order (dispatch v).job [params])
      (log : v.rows .eventLog = Function.update (v₀.rows .eventLog) (v₀.seq .eventLog) (some (params.event later)))
      (seq : v.seq .eventLog = v₀.seq .eventLog+1)
      (orders : v.rows .orderTimeline = v₀.rows .orderTimeline) (jobs : v.rows .jobTimeline = v₀.rows .jobTimeline)
      (next : op.Ended thread ∨ thread = some (.projectEvent (v₀.seq .eventLog) (params.event later) caller)) :
      Phase op v₀ thread v true
  | written (written : op.Written v₀ v) (next : op.Ended thread ∨ ∃ x, thread = some x ∧ Settling x) :
      Phase op v₀ thread v false

theorem sourced_tick (sourced : Sourced v) : Sourced (v.tick ms) := ⟨sourced.order,sourced.job⟩

theorem booked_tick (booked : Booked (v₀.tick ms) now ps v) : Booked v₀ now ps v :=
  ⟨booked.events,booked.next,booked.projected⟩

theorem sweepNext_turns (shorter : rest.length ≤ n) :
    (Proc.sweepNext rest).assigning = false ∧ (Proc.sweepNext rest).recovering n = false := by
  induction rest with
  | nil => exact ⟨rfl,rfl⟩
  | cons d rest ih =>
    have fewer : rest.length < n := shorter
    unfold Proc.sweepNext
    split
    · exact ih (Nat.le_of_lt fewer)
    · split
      · exact ⟨rfl,by simp only [Proc.recovering,beq_eq_false_iff_ne]; omega⟩
      · exact ⟨rfl,rfl⟩
      · exact ih (Nat.le_of_lt fewer)

theorem assignFailed_over : (Proc.assignFailed e caller).assigning = false := by
  cases caller with
  | worker => rfl
  | sweep rest => exact (sweepNext_turns (Nat.le_refl rest.length)).1

theorem assigned_over : (Proc.assigned caller).assigning = false := by
  cases caller with
  | worker => rfl
  | sweep rest => exact (sweepNext_turns (Nat.le_refl rest.length)).1

theorem ahead_caught (point : Operation.Ahead v op x) : op.during (x.caught e) = false := by
  cases point with
  | assignDelivererToBatch | readCandidates | readPositions | readMissing | assign => exact assignFailed_over
  | recoverUnstartedJob => exact (sweepNext_turns (Nat.le_refl _)).2
  | _ => rfl

theorem ahead_query {env : Env} {read : Database → Proc} (ms : Nat) (point : Operation.Ahead v op x)
    (at_query : Proc.next env x = .query read) :
    op.Ahead v (read (v.tick ms)) ∨ op.during (read (v.tick ms)) = false := by
  cases point <;> simp only [Proc.next,reduceCtorEq] at at_query
  case createOrder =>
    cases at_query
    dsimp only [Proc.vendorOfOrder]
    split
    · exact .inr rfl
    · split
      · exact .inr rfl
      · exact .inl .insertOrder
  case vendorDecide =>
    cases at_query
    dsimp only
    split
    · exact .inr rfl
    · exact .inl .readDecidedOrder
  case readDecidedOrder =>
    cases at_query
    dsimp only [Proc.decidedOrder]
    split
    · exact .inr rfl
    · rename_i found
      split
      · exact .inr rfl
      · split
        · exact .inr rfl
        · rename_i pending
          exact .inl (.updateDecided found (Classical.not_not.mp pending))
  case vendorMarkReady => cases at_query; exact .inl .readReadyOrder
  case readReadyOrder =>
    cases at_query
    dsimp only [Proc.readyOrder]
    split
    · exact .inr rfl
    · split
      · exact .inr rfl
      · exact .inl .claimReady
  case assignDelivererToBatch =>
    cases at_query
    dsimp only [Proc.batchToAssign]
    split
    · split
      · exact .inr assigned_over
      · split
        · exact .inl .readCandidates
        · exact .inr assigned_over
    · exact .inr assigned_over
  case readCandidates =>
    cases at_query
    dsimp only [Proc.candidates]
    split
    · exact .inr assignFailed_over
    · exact .inl .readPositions
  case readMissing =>
    cases at_query
    dsimp only [Proc.choose]
    split
    · exact .inl .assign
    · exact .inr assigned_over

theorem written_by (same : dispatch v' = c) (change : Operation.Changes now (dispatch v) op c.order c.job ps)
    (booked : Booked (v.tick ms) later ps v') : op.Written v v' := by
  subst same
  exact ⟨now,later,ps,change,booked_tick booked⟩

theorem ended_some (closed : op.during x = false) : Operation.Ended op (some x) := by
  intro y same
  cases same
  exact closed

theorem settling_afterBatching : Settling (Proc.afterBatching outcome customerId orderId) := by
  unfold Proc.afterBatching
  split
  · exact .closeBatch
  · exact .notifyReady

theorem ahead_commit {env : Env} (sourced : Sourced v) (point : Operation.Ahead v op x)
    (at_tx : Proc.next env x = .tx body) (ran : body.run (v.tick ms) = .ok (y,v')) :
    Phase op v (some y) v' x.unbooked := by
  have known : Sourced (v.tick ms) := sourced_tick sourced
  cases point <;> simp only [Proc.next,reduceCtorEq] at at_tx
  case insertOrder =>
    cases at_tx
    obtain ⟨o,_,created,ended⟩ := Tx.run_bind_ok.mp ran
    cases ended
    obtain ⟨fresh,same⟩ := createOrderTx_parts created
    exact .written (written_by same (.createOrder fresh) (createOrderTx_books known created))
      (.inr ⟨_,rfl,.notifyNewOrder⟩)
  case updateDecided o r decision userId customerId found pending =>
    cases at_tx
    obtain ⟨_,_,decided,ended⟩ := Tx.run_bind_ok.mp ran
    cases ended
    obtain ⟨row,at_order,same⟩ := decideTx_parts decided
    obtain rfl : row = r := Option.some.inj (at_order.symm.trans found)
    have changed : Function.update (dispatch v).order o (some {row with status := decision.status}) ≠ (dispatch v).order := by
      intro still
      have at_o := congrFun still o
      rw [Function.update_self] at at_o
      have statuses := congrArg Order.status (Option.some.inj (at_o.trans found))
      rw [pending] at statuses
      cases decision <;> cases statuses
    have quiet : Quiet (v.tick ms) v' := quiet_run (confined_update rfl) decided
    refine .changed .decision (?_ : Operation.Changes v.clock ..) (.inl ?_) ⟨quiet.rows,quiet.seq⟩ (.inr rfl)
    · rw [same]; exact .vendorDecide found pending
    · rw [same]; exact changed
  case claimReady =>
    cases at_tx
    obtain ⟨outcome,_,marked,ended⟩ := Tx.run_bind_ok.mp ran
    cases ended
    have booked := vendorMarkReadyTx_books known marked
    refine .written ?_ (.inr ⟨_,rfl,?_⟩)
    · obtain ⟨r,found,readyable,⟨b,k,close,_,_,_,same⟩ | ⟨b,_,_,same⟩⟩ := vendorMarkReadyTx_parts marked
      · exact written_by same (.vendorMarkReady found readyable) booked
      · exact written_by same (.vendorMarkReady found readyable) booked
    · split
      · exact .scheduleBatchTimeout
      · exact settling_afterBatching
  case assign =>
    cases at_tx
    obtain ⟨j,_,made,ended⟩ := Tx.run_bind_ok.mp ran
    cases ended
    obtain ⟨k,p,base,_,_,_,_,_,_,_,_,_,same⟩ := assignTx_parts made
    exact .written (written_by same .assignDelivererToBatch (assignTx_books known made)) (.inl (ended_some rfl))
  case startJob =>
    cases at_tx
    obtain ⟨_,_,started,ended⟩ := Tx.run_bind_ok.mp ran
    cases ended
    obtain ⟨job,at_job,_,ready,same⟩ := startJobTx_parts started
    exact .written (written_by same (.startJob at_job ready) (startJobTx_books known started))
      (.inr ⟨_,rfl,.returned⟩)
  case completeDropOff j s d =>
    cases at_tx
    obtain ⟨_,_,completed,ended⟩ := Tx.run_bind_ok.mp ran
    cases ended
    obtain ⟨row,at_row,booked⟩ := completeDropOffTx_books known completed
    obtain ⟨job,stop,at_job,_,started,at_stop,part,_,
      ⟨rfl,same,_⟩ | ⟨rfl,_,k,p,_,_,same⟩⟩ := completeDropOffTx_parts completed
    all_goals obtain rfl : row = stop := Option.some.inj (at_row.symm.trans at_stop)
    · rw [if_neg (by exact (by decide)),List.append_nil] at booked
      exact .written (written_by same (.completeDropOff at_stop part) booked) (.inr ⟨_,rfl,.returned⟩)
    · rw [if_pos rfl] at booked
      exact .written (written_by same (.completeLast at_stop part at_job started) booked) (.inr ⟨_,rfl,.flushToDb⟩)
  case recoverUnstartedJob stale snapshot rest =>
    cases at_tx
    obtain ⟨_,_,recovered,ended⟩ := Tx.run_bind_ok.mp ran
    cases ended
    obtain ⟨p,job,k,_,at_job,unstarted,_,same⟩ := recoverTx_parts recovered
    have changed : Function.update (dispatch v).job stale.jobId
        (some {job with status := .pending,delivererId := none}) ≠ (dispatch v).job := by
      intro still
      have at_j := congrFun still stale.jobId
      rw [Function.update_self] at at_j
      have statuses := congrArg DeliveryJob.status (Option.some.inj (at_j.trans at_job))
      rw [unstarted] at statuses
      cases statuses
    have quiet : Quiet (v.tick ms) v' := quiet_run (confined_recoverTx rfl rfl rfl rfl) recovered
    refine .changed .recovered (?_ : Operation.Changes v.clock ..) (.inr ?_) ⟨quiet.rows,quiet.seq⟩ (.inr rfl)
    · rw [same]; exact .recoverUnstartedJob at_job unstarted
    · rw [same]; exact changed

theorem ahead_asks (env : Env) (point : Operation.Ahead v op x) :
    (∃ read, Proc.next env x = .query read) ∨ (∃ read, Proc.next env x = .input read ∧ ∀ i, op.Ahead v (read i)) ∨
      ∃ body, Proc.next env x = .tx body := by
  cases point with
  | insertOrder | updateDecided | claimReady | assign | startJob | completeDropOff | recoverUnstartedJob =>
    exact .inr (.inr ⟨_,rfl⟩)
  | readPositions => exact .inr (.inl ⟨_,rfl,fun _ => .readMissing⟩)
  | _ => exact .inl ⟨_,rfl⟩

-- What one instruction of the process at `x` does, when it succeeds or throws.
inductive Went (env : Env) (x : Proc) (v : Database) (owed : Bool) : Proc → Database → Bool → Prop where
  | query {read : Database → Proc} (at_query : Proc.next env x = .query read) : Went env x v owed (read v) v owed
  | input {read : (Nat → Option Point) → Proc} (at_input : Proc.next env x = .input read) :
      Went env x v owed (read i) v owed
  | add (at_add : Proc.next env x = .add task y) : Went env x v owed y v owed
  | emit (at_emit : Proc.next env x = .emit note y) : Went env x v owed y v owed
  | stay (at_end : Proc.next env x = .done) : Went env x v owed x v owed
  | commit (at_tx : Proc.next env x = .tx body) (ran : body.run v = .ok (y,v')) : Went env x v owed y v' x.unbooked
  | thrown : Went env x v owed (x.caught e) v owed

theorem went_step {env : Env} {w : Market} (found : w.threads p = some x) :
    ∃ y, (w.move (market env) (.step p i)).threads p = some y ∧
      Went env x w.db owed y (w.move (market env) (.step p i)).db (owing env owed (w,.step p i)) := by
  unfold owing
  cases at_next : Proc.next env x with
  | query read =>
    obtain ⟨moved,none⟩ := step_query (i := i) found at_next
    rw [moved]; simp only [none]
    exact ⟨_,Function.update_self ..,.query at_next⟩
  | input read =>
    obtain ⟨moved,none⟩ := step_input (i := i) found at_next
    rw [moved]; simp only [none]
    exact ⟨_,Function.update_self ..,.input at_next⟩
  | add task y =>
    obtain ⟨moved,none⟩ := step_add (i := i) found at_next
    rw [moved]; simp only [none]
    exact ⟨_,Function.update_self ..,.add at_next⟩
  | emit note y =>
    obtain ⟨moved,none⟩ := step_emit (i := i) found at_next
    rw [moved]; simp only [none]
    exact ⟨_,Function.update_self ..,.emit at_next⟩
  | done =>
    obtain ⟨moved,none⟩ := step_done (i := i) found at_next
    rw [moved]; simp only [none]
    exact ⟨x,found,.stay at_next⟩
  | tx body =>
    rcases step_tx (i := i) found at_next with ⟨y,db,ran,moved,hit⟩ | ⟨e,moved,none⟩
    · rw [moved]; simp only [hit]
      exact ⟨y,Function.update_self ..,.commit at_next ran⟩
    · rw [moved]; simp only [none]
      exact ⟨_,Function.update_self ..,.thrown⟩

theorem ahead_went {env : Env} (sourced : Sourced v₀) (point : Operation.Ahead v₀ op x)
    (went : Went env x (v₀.tick ms) false y v' owed) : Phase op v₀ (some y) v' owed := by
  cases went with
  | query at_query =>
    rcases ahead_query ms point at_query with later | closed
    · exact .ahead later
    · exact .failed (ended_some closed)
  | input at_input =>
    rcases ahead_asks env point with ⟨_,at_query⟩ | ⟨_,same,later⟩ | ⟨_,at_tx⟩
    · rw [at_query] at at_input; cases at_input
    · rw [same] at at_input; cases at_input; exact .ahead (later _)
    · rw [at_tx] at at_input; cases at_input
  | commit at_tx ran => exact ahead_commit sourced point at_tx ran
  | thrown => exact .failed (ended_some (ahead_caught point))
  | add other | emit other | stay other =>
    rcases ahead_asks env point with ⟨_,at_next⟩ | ⟨_,at_next,_⟩ | ⟨_,at_next⟩
    all_goals rw [at_next] at other; cases other

theorem records_failed (records : Operation.Records op caller) : op.during (Proc.recordFailed e caller) = false := by
  cases records with
  | decision => rfl
  | recovered => exact (sweepNext_turns (Nat.le_refl _)).2

theorem records_recorded (records : Operation.Records op caller) :
    op.Ended (some (Proc.recorded caller)) ∨ ∃ x, some (Proc.recorded caller) = some x ∧ Settling x := by
  cases records with
  | decision => exact .inr ⟨_,rfl,.notifyDecision⟩
  | recovered => exact .inl (ended_some rfl)

theorem logged_books {v v₀ : Database} {params : Params}
    (log : v.rows .eventLog = Function.update (v₀.rows .eventLog) (v₀.seq .eventLog) (some (params.event later)))
    (seq : v.seq .eventLog = v₀.seq .eventLog+1) (projected : Projected v (v₀.seq .eventLog) (params.event later)) :
    Booked v₀ later [params] v := by
  refine ⟨?_,seq,?_⟩
  · rw [log,List.map_singleton,inserted_one fun i above => v₀.bounded .eventLog i above]
  · intro eventId event above found
    rw [log] at found
    rcases update_some found with ⟨rfl,rfl⟩ | ⟨_,before⟩
    · exact projected
    · rw [v₀.bounded .eventLog eventId above] at before; cases before

theorem changed_went {env : Env} {v : Database} (records : Operation.Records op caller)
    (change : op.Changes now (dispatch v₀) (dispatch v).order (dispatch v).job [params])
    (differs : (dispatch v).order ≠ (dispatch v₀).order ∨ (dispatch v).job ≠ (dispatch v₀).job) (quiet : Quiet v₀ v)
    (went : Went env (.recordEvent params caller) v true y v' owed) : Phase op v₀ (some y) v' owed := by
  cases went with
  | query at_next | input at_next | add at_next | emit at_next | stay at_next => cases at_next
  | thrown => exact .changed records change differs quiet (.inl (ended_some (records_failed records)))
  | commit at_tx ran =>
    cases at_tx
    obtain ⟨event,_,created,ended⟩ := Tx.run_bind_ok.mp ran
    cases ended
    obtain ⟨rfl,same⟩ := createEvent_parts created
    obtain ⟨_,log,seq,orders,jobs⟩ := createEvent_books created
    rw [quiet.rows .eventLog rfl,quiet.seq] at log
    rw [quiet.seq] at seq
    refine .logged records (?_ : Operation.Changes now ..) log seq (orders.trans (quiet.rows .orderTimeline rfl))
      (jobs.trans (quiet.rows .jobTimeline rfl)) (.inr (by rw [quiet.seq]))
    rw [same]; exact change

theorem logged_went {env : Env} {v : Database} (sourced : Sourced v₀) (records : Operation.Records op caller)
    (change : op.Changes now (dispatch v₀) (dispatch v).order (dispatch v).job [params])
    (log : v.rows .eventLog = Function.update (v₀.rows .eventLog) (v₀.seq .eventLog) (some (params.event later)))
    (seq : v.seq .eventLog = v₀.seq .eventLog+1) (orders : v.rows .orderTimeline = v₀.rows .orderTimeline)
    (jobs : v.rows .jobTimeline = v₀.rows .jobTimeline)
    (went : Went env (.projectEvent (v₀.seq .eventLog) (params.event later) caller) v true y v' owed) :
    Phase op v₀ (some y) v' owed := by
  cases went with
  | query at_next | input at_next | add at_next | emit at_next | stay at_next => cases at_next
  | thrown => exact .logged records change log seq orders jobs (.inl (ended_some (records_failed records)))
  | commit at_tx ran =>
    cases at_tx
    obtain ⟨_,_,projected,ended⟩ := Tx.run_bind_ok.mp ran
    cases ended
    have free : (∀ i row, v.rows .orderTimeline i = some row → row.sourceEventId ≠ some (v₀.seq .eventLog)) ∧
        ∀ i row, v.rows .jobTimeline i = some row → row.sourceEventId ≠ some (v₀.seq .eventLog) := by
      rw [orders,jobs]
      exact ⟨fun i row found same => Nat.lt_irrefl _ (sourced.order i row _ found same),
        fun i row found same => Nat.lt_irrefl _ (sourced.job i row _ found same)⟩
    obtain ⟨sameLog,sameSeq,own,_,_,_⟩ := projectEvent_books free projected
    refine .written ⟨now,later,[params],?_,?_⟩ (records_recorded records)
    · rw [projectEvent_parts projected]; exact change
    · exact logged_books (sameLog.trans log) (sameSeq.trans seq) own

-- What a commit leaves alone once the operation has written.
structure Aloof (v v' : Database) : Prop where
  order : (dispatch v').order = (dispatch v).order
  job : (dispatch v').job = (dispatch v).job
  quiet : Quiet v v'

theorem written_kept (written : Operation.Written op v₀ v) (aloof : Aloof v v') : op.Written v₀ v' := by
  obtain ⟨now,later,ps,change,booked⟩ := written
  rw [← aloof.order,← aloof.job] at change
  exact ⟨now,later,ps,change,booked_quiet booked aloof.quiet⟩

theorem settling_caught (settling : Settling x) : Settling (x.caught e) := by
  cases settling with
  | scheduleBatchTimeout | closeBatch | queueAssignment => exact .notifyReady
  | flushToDb | writeLocation => exact .findStuckBatch
  | _ => exact .returned

theorem settling_query {env : Env} {read : Database → Proc} (settling : Settling x)
    (at_query : Proc.next env x = .query read) : Settling (read v) := by
  cases settling with
  | findStuckBatch =>
    cases at_query
    dsimp only
    split
    · exact .returned
    · exact .requeueStuckBatch
  | _ => cases at_query

theorem settling_input {env : Env} {read : (Nat → Option Point) → Proc} (settling : Settling x)
    (at_input : Proc.next env x = .input read) : Settling (read i) := by
  cases settling with
  | flushToDb =>
    cases at_input
    dsimp only
    split
    · exact .findStuckBatch
    · exact .writeLocation
  | _ => cases at_input

theorem settling_add {env : Env} (settling : Settling x) (at_add : Proc.next env x = .add task y) : Settling y := by
  cases settling with
  | scheduleBatchTimeout => cases at_add; exact settling_afterBatching
  | queueAssignment => cases at_add; exact .notifyReady
  | requeueStuckBatch => cases at_add; exact .returned
  | _ => cases at_add

theorem settling_emit {env : Env} (settling : Settling x) (at_emit : Proc.next env x = .emit note y) : Settling y := by
  cases settling with
  | notifyNewOrder | notifyReady | notifyDecision => cases at_emit; exact .returned
  | _ => cases at_emit

theorem settling_commit {env : Env} (settling : Settling x) (at_tx : Proc.next env x = .tx body)
    (ran : body.run v = .ok (y,v')) : Settling y ∧ x.unbooked = false ∧ Aloof v v' := by
  cases settling with
  | closeBatch =>
    cases at_tx
    obtain ⟨count,_,closed,ended⟩ := Tx.run_bind_ok.mp ran
    cases ended
    have quiet : Quiet v v' := quiet_run (confined_updateMany rfl) closed
    refine ⟨?_,rfl,?_⟩
    · split
      · exact .notifyReady
      · exact .queueAssignment
    · rcases closeBatchUpdate_parts closed with ⟨_,same,_⟩ | ⟨_,k,_,_,same⟩
      · exact ⟨by rw [same],by rw [same],quiet⟩
      · exact ⟨by rw [same],by rw [same],quiet⟩
  | writeLocation =>
    cases at_tx
    obtain ⟨_,_,written,ended⟩ := Tx.run_bind_ok.mp ran
    cases ended
    obtain ⟨p,_,same⟩ := writeLocationTx_parts written
    exact ⟨.findStuckBatch,rfl,by rw [same],by rw [same],quiet_run (confined_update rfl) written⟩
  | _ => cases at_tx

theorem settling_went {env : Env} (written : Operation.Written op v₀ v) (settling : Settling x)
    (went : Went env x v false y v' owed) : Phase op v₀ (some y) v' owed := by
  cases went with
  | query at_query => exact .written written (.inr ⟨_,rfl,settling_query settling at_query⟩)
  | input at_input => exact .written written (.inr ⟨_,rfl,settling_input settling at_input⟩)
  | add at_add => exact .written written (.inr ⟨_,rfl,settling_add settling at_add⟩)
  | emit at_emit => exact .written written (.inr ⟨_,rfl,settling_emit settling at_emit⟩)
  | stay => exact .written written (.inr ⟨_,rfl,settling⟩)
  | thrown => exact .written written (.inr ⟨_,rfl,settling_caught settling⟩)
  | commit at_tx ran =>
    obtain ⟨later,booked,aloof⟩ := settling_commit settling at_tx ran
    rw [booked]
    exact .written (written_kept written aloof) (.inr ⟨_,rfl,later⟩)

theorem phase_went {env : Env} (sourced : Sourced v₀) (phase : Phase op v₀ (some x) v owed)
    (during : op.during x = true) (went : Went env x v owed y v' owed') : Phase op v₀ (some y) v' owed' := by
  have active : ¬op.Ended (some x) := fun ended => by rw [ended x rfl] at during; cases during
  cases phase with
  | ahead point => exact ahead_went sourced point went
  | failed ended => exact absurd ended active
  | changed records change differs quiet next =>
    rcases next with ended | same
    · exact absurd ended active
    · cases same; exact changed_went records change differs quiet went
  | logged records change log seq orders jobs next =>
    rcases next with ended | same
    · exact absurd ended active
    · cases same; exact logged_went sourced records change log seq orders jobs went
  | written written next =>
    rcases next with ended | ⟨_,same,settling⟩
    · exact absurd ended active
    · cases same; exact settling_went written settling went

theorem phase_stopped (phase : Phase op v₀ thread v owed) : Phase op v₀ none v owed := by
  have ended : op.Ended none := fun x same => by cases same
  cases phase with
  | ahead | failed => exact .failed ended
  | changed records change differs quiet => exact .changed records change differs quiet (.inl ended)
  | logged records change log seq orders jobs => exact .logged records change log seq orders jobs (.inl ended)
  | written written => exact .written written (.inl ended)

theorem phase_tick (phase : Phase op v₀ thread v owed) : Phase op v₀ thread (v.tick ms) owed := by
  cases phase with
  | @ahead _ before point =>
    have later : (v₀.tick before).tick ms = v₀.tick (before+ms) := by simp [Db.tick,Nat.add_assoc]
    rw [later]; exact .ahead point
  | @failed _ before ended =>
    have later : (v₀.tick before).tick ms = v₀.tick (before+ms) := by simp [Db.tick,Nat.add_assoc]
    rw [later]; exact .failed ended
  | changed records change differs quiet next => exact .changed records change differs ⟨quiet.rows,quiet.seq⟩ next
  | logged records change log seq orders jobs next => exact .logged records change log seq orders jobs next
  | written written next => exact .written (written_kept written ⟨rfl,rfl,⟨fun _ _ => rfl,rfl⟩⟩) next

theorem phase_move {env : Env} {w : Market} (sourced : Sourced v₀) (phase : Phase op v₀ (w.threads 0) w.db owed)
    (only : op.Only w m) :
    Phase op v₀ ((w.move (market env) m).threads 0) (w.move (market env) m).db (owing env owed (w,m)) := by
  cases m with
  | step p i =>
    obtain ⟨rfl,during⟩ := only
    cases found : w.threads 0 with
    | none =>
      rw [found] at phase
      simp only [World.move,found,owing,commits,Option.bind_none]
      exact phase
    | some x =>
      rw [found] at phase
      obtain ⟨y,at_y,went⟩ := went_step (i := i) found
      rw [at_y]
      rw [found] at during
      exact phase_went sourced phase during went
  | fail p =>
    obtain ⟨rfl,during⟩ := only
    cases found : w.threads 0 with
    | none =>
      rw [found] at phase
      simp only [World.move,found,owing,commits]
      exact phase
    | some x =>
      rw [found] at phase
      simp only [World.move,found,owing,commits,World.goto,Function.update_self]
      rw [found] at during
      have went : Went env x w.db owed (x.caught .infrastructure) w.db owed := .thrown
      exact phase_went sourced phase during went
  | stop p =>
    cases only
    simp only [World.move,owing,commits,Function.update_self]
    exact phase_stopped phase
  | tick ms => exact phase_tick phase
  | spawn | work | lose | duplicate => cases only

theorem phase_run {env : Env} {op : Operation} (sourced : Sourced v₀) (moves : List MarketMove)
    (alone : ∀ made ∈ (op.alone v₀).trace (market env) moves, op.Only made.1 made.2) :
    Phase op v₀ (((op.alone v₀).run (market env) moves).threads 0) ((op.alone v₀).run (market env) moves).db
      (cutShort env ((op.alone v₀).trace (market env) moves)) := by
  induction moves using List.reverseRecOn with
  | nil =>
    have start : op.Ahead v₀ op.start := by cases op <;> constructor
    have phase : Phase op v₀ (some op.start) (v₀.tick 0) false := .ahead start
    exact phase
  | append_singleton moves m ih =>
    rw [trace_snoc] at alone
    have before := ih fun made member => alone made (List.mem_append_left _ member)
    have only := alone _ (List.mem_append_right _ List.mem_cons_self)
    rw [run_snoc,trace_snoc]
    unfold cutShort at before ⊢
    rw [List.foldl_append]
    exact phase_move sourced before only

theorem records_once (records : Operation.Records op caller) (change : op.Changes now c orders jobs ps) :
    ps.length = 1 := by
  cases records <;> cases change <;> rfl

theorem phase_exact (sourced : Sourced v₀) (phase : Phase op v₀ thread v owed) :
    (Unwritten v₀ v ∨ op.Written v₀ v) ↔ owed = false := by
  cases phase with
  | ahead | failed => exact ⟨fun _ => rfl,fun _ => .inl ⟨rfl,rfl,⟨fun _ _ => rfl,rfl⟩⟩⟩
  | written written => exact ⟨fun _ => rfl,fun _ => .inr written⟩
  | changed records _ differs quiet =>
    refine ⟨?_,nofun⟩
    intro settled
    exfalso
    rcases settled with unwritten | ⟨_,_,ps,change,booked⟩
    · exact differs.elim (absurd unwritten.order) (absurd unwritten.job)
    · have next := booked.next
      have one := records_once records change
      rw [quiet.seq] at next
      omega
  | logged _ _ log seq orders jobs =>
    refine ⟨?_,nofun⟩
    intro settled
    exfalso
    rcases settled with unwritten | ⟨_,_,_,_,booked⟩
    · have same := unwritten.quiet.seq
      omega
    · have row := booked.projected _ _ (Nat.le_refl _) (by rw [log,Function.update_self])
      unfold Projected at row
      rw [orders,jobs] at row
      split at row
      · obtain ⟨i,found⟩ := row
        exact Nat.lt_irrefl _ (sourced.order i _ _ found rfl)
      · obtain ⟨i,found⟩ := row
        exact Nat.lt_irrefl _ (sourced.job i _ _ found rfl)

-- Wherever a run of one operation stops, all or none of its three writes are
-- committed exactly when the last commit is not one that left an event to record.
theorem events_commit_together {env : Env} (op : Operation) (v₀ : Database) (sourced : Sourced v₀)
    (moves : List MarketMove)
    (alone : ∀ made ∈ (op.alone v₀).trace (market env) moves, op.Only made.1 made.2) :
    (Unwritten v₀ ((op.alone v₀).run (market env) moves).db ∨
      op.Written v₀ ((op.alone v₀).run (market env) moves).db) ↔
      cutShort env ((op.alone v₀).trace (market env) moves) = false :=
  phase_exact sourced (phase_run sourced moves alone)

theorem sourced_morning : Sourced morning.db := by
  refine ⟨?_,?_⟩
  · intro i row event found
    cases found
  · intro i row event found
    cases found

theorem events_commit_together_placed :
    (Unwritten morning.db (((Operation.createOrder ⟨[],none,some 0,some 0,none,none⟩ 0 0).alone morning.db).run
        (market village) (steps 0 3)).db ∨
      (Operation.createOrder ⟨[],none,some 0,some 0,none,none⟩ 0 0).Written morning.db
        (((Operation.createOrder ⟨[],none,some 0,some 0,none,none⟩ 0 0).alone morning.db).run
          (market village) (steps 0 3)).db) ↔
      cutShort village (((Operation.createOrder ⟨[],none,some 0,some 0,none,none⟩ 0 0).alone morning.db).trace
        (market village) (steps 0 3)) = false :=
  events_commit_together _ morning.db sourced_morning (steps 0 3) (by decide +kernel)

-- The rows once an order has been placed.
def placed : Database :=
  (morning.run (market village) (ask (.createOrder ⟨[],none,some 0,some 0,none,none⟩ 0 0) 0 3)).db

theorem sourced_placed : Sourced placed := by
  have orders : placed.seq .orderTimeline = 1 := by decide +kernel
  have jobs : placed.seq .jobTimeline = 0 := by decide +kernel
  have source : (placed.rows .orderTimeline 0).bind OrderTimeline.sourceEventId = some 0 := by decide +kernel
  have logged : placed.seq .eventLog = 1 := by decide +kernel
  refine ⟨?_,?_⟩
  · intro i row event found names
    have first := placed.below found
    obtain rfl : i = 0 := by omega
    rw [found,Option.bind_some,names] at source
    cases source
    omega
  · intro i row event found
    have above := placed.below found
    omega

-- The vendor's accept stops after the order's update: the order is accepted and no event says so.
theorem accepted_unrecorded :
    ∃ (op : Operation) (moves : List MarketMove), Sourced placed ∧
      (∀ made ∈ (op.alone placed).trace (market village) moves, op.Only made.1 made.2) ∧
      ¬(Unwritten placed ((op.alone placed).run (market village) moves).db ∨
        op.Written placed ((op.alone placed).run (market village) moves).db) := by
  refine ⟨.vendorDecide .vendorAcceptOrder 0 1,steps 0 3 ++ [.stop 0],sourced_placed,by decide +kernel,?_⟩
  have before : ((dispatch placed).order 0).map Order.status = some .pendingVendorConfirmation := by decide +kernel
  have after : ((dispatch (((Operation.vendorDecide .vendorAcceptOrder 0 1).alone placed).run (market village)
      (steps 0 3 ++ [.stop 0])).db).order 0).map Order.status = some .vendorAccepted := by decide +kernel
  have seq : (((Operation.vendorDecide .vendorAcceptOrder 0 1).alone placed).run (market village)
      (steps 0 3 ++ [.stop 0])).db.seq .eventLog = placed.seq .eventLog := by decide +kernel
  intro settled
  rcases settled with unwritten | ⟨_,_,ps,change,booked⟩
  · rw [unwritten.order,before] at after; cases after
  · have records : Operation.Records (.vendorDecide .vendorAcceptOrder 0 1) (.decision 0 0 .vendorAccepted) := .decision
    have one := records_once records change
    have next := booked.next
    omega

end MesyafMarket
