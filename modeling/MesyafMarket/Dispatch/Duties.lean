import MesyafMarket.Dispatch.Runs

namespace MesyafMarket
open Relational DelivererAssignmentService DelivererRecoveryService

-- What the gateways wait for: the announcement of an assignment, a change of presence.
inductive Duty where
  | announce (delivererId jobId : Nat)
  | presence (presence : SessionService.Presence) (userId : Nat)
  deriving DecidableEq

def Proc.duty : Proc → Option Duty
  | notifyAssigned jobId _ delivererId _ _ => some (.announce delivererId jobId)
  | markPresence presence userId => some (.presence presence userId)
  | _ => none

-- The points that a process can come to without a commit: an event outside a
-- transaction is one of the sweep's, and it is not yet logged.
def Proc.uncommitted : Proc → Prop
  | notifyAssigned .. | markPresence .. | projectEvent .. => False
  | recordEvent params (.escalated jobId _ _) => params = escalatedEvent jobId
  | recordEvent params (.issue jobId order _ _) => params = deliveryIssueEvent jobId order
  | recordEvent .. => False
  | _ => True

theorem duty_uncommitted {y : Proc} (reached : y.uncommitted) : y.duty = none := by
  cases y with
  | notifyAssigned | markPresence => cases reached
  | _ => rfl

section Uncommitted
variable {env : Env}

@[simp] theorem sweepNext_uncommitted (rest : List StaleDeliverer) : (Proc.sweepNext rest).uncommitted := by
  induction rest with
  | nil => trivial
  | cons d rest ih =>
    unfold Proc.sweepNext
    split
    · exact ih
    · split <;> first | trivial | exact ih

@[simp] theorem assigned_uncommitted (caller : AssignCaller) : (Proc.assigned caller).uncommitted := by
  cases caller with
  | worker => trivial
  | sweep rest => exact sweepNext_uncommitted rest

@[simp] theorem assignFailed_uncommitted (caller : AssignCaller) : (Proc.assignFailed e caller).uncommitted := by
  cases caller with
  | worker => trivial
  | sweep rest => exact sweepNext_uncommitted rest

@[simp] theorem closed_uncommitted (caller : CloseCaller) : (Proc.closed caller).uncommitted := by
  cases caller with
  | expired rest => cases rest <;> trivial
  | markReady | timer => trivial

@[simp] theorem closeFailed_uncommitted (caller : CloseCaller) : (Proc.closeFailed e caller).uncommitted := by
  cases caller with
  | timer => trivial
  | markReady customerId orderId => trivial
  | expired rest => exact closed_uncommitted (.expired rest)

@[simp] theorem issueNext_uncommitted (orders : List (Nat × Order)) : (Proc.issueNext j rest orders).uncommitted := by
  cases orders with
  | nil => exact sweepNext_uncommitted rest
  | cons => trivial

@[simp] theorem recorded_uncommitted (caller : RecordCaller) : (Proc.recorded caller).uncommitted := by
  cases caller with
  | decision | recovered | issue => trivial
  | escalated j orders rest => exact issueNext_uncommitted orders

@[simp] theorem recordFailed_uncommitted (caller : RecordCaller) : (Proc.recordFailed e caller).uncommitted := by
  cases caller with
  | decision => trivial
  | recovered | escalated | issue => exact sweepNext_uncommitted _

@[simp] theorem flushed_uncommitted (caller : FlushCaller) : (Proc.flushed caller).uncommitted := by
  cases caller <;> trivial

@[simp] theorem flushFailed_uncommitted (caller : FlushCaller) : (Proc.flushFailed e caller).uncommitted := by
  cases caller <;> trivial

@[simp] theorem requeueNext_uncommitted (batches : List Nat) : (Proc.requeueNext batches).uncommitted := by
  cases batches <;> trivial

@[simp] theorem notifyNext_uncommitted (orders : List (Nat × Order)) :
    (Proc.notifyNext j d caller orders).uncommitted := by
  cases orders with
  | nil => exact assigned_uncommitted caller
  | cons => trivial

@[simp] theorem afterBatching_uncommitted : (Proc.afterBatching outcome customerId orderId).uncommitted := by
  unfold Proc.afterBatching
  split <;> trivial

theorem query_uncommitted {read : Database → Proc} (at_query : Proc.next env x = .query read) (v : Database) :
    (read v).uncommitted := by
  cases x <;> simp only [Proc.next,reduceCtorEq] at at_query
  case notifyCustomers | requeue => split at at_query <;> cases at_query
  all_goals cases at_query; beta_reduce
  case createOrder => unfold Proc.vendorOfOrder; split <;> (try split) <;> trivial
  case readReadyOrder => unfold Proc.readyOrder; split <;> (try split) <;> trivial
  case readDecidedOrder => unfold Proc.decidedOrder; split <;> (try split) <;> (try split) <;> trivial
  case assignDelivererToBatch =>
    unfold Proc.batchToAssign
    split
    · split
      · exact assigned_uncommitted _
      · split
        · trivial
        · exact assigned_uncommitted _
    · exact assigned_uncommitted _
  case readCandidates =>
    unfold Proc.candidates
    split
    · exact assignFailed_uncommitted _
    · trivial
  case readMissing =>
    unfold Proc.choose
    split
    · trivial
    · exact assigned_uncommitted _
  case escalateStartedJob =>
    split
    · exact sweepNext_uncommitted _
    · trivial
  case closeExpiredBatches => exact closed_uncommitted _
  case checkDeliverers => exact sweepNext_uncommitted _
  case countFreeDeliverers => exact requeueNext_uncommitted _
  all_goals first | trivial | (split <;> trivial)

theorem input_uncommitted {read : (Nat → Option Point) → Proc} (at_input : Proc.next env x = .input read)
    (redis : Nat → Option Point) : (read redis).uncommitted := by
  cases x <;> simp only [Proc.next,reduceCtorEq] at at_input
  case notifyCustomers | requeue => split at at_input <;> cases at_input
  all_goals cases at_input; beta_reduce
  case readPositions => trivial
  case flushToDb =>
    split
    · exact flushed_uncommitted _
    · trivial

theorem add_uncommitted (at_add : Proc.next env x = .add task y) : y.uncommitted := by
  cases x <;> simp only [Proc.next,reduceCtorEq] at at_add
  case notifyCustomers => split at at_add <;> cases at_add
  case requeue =>
    split at at_add
    · cases at_add
    · cases at_add; exact requeueNext_uncommitted _
  all_goals cases at_add; first | trivial | simp

theorem emit_uncommitted (at_emit : Proc.next env x = .emit note y) : y.uncommitted := by
  cases x <;> simp only [Proc.next,reduceCtorEq] at at_emit
  case requeue => split at at_emit <;> cases at_emit
  case notifyCustomers =>
    split at at_emit
    · cases at_emit
    · cases at_emit; exact notifyNext_uncommitted _
  all_goals cases at_emit; first | trivial | simp

-- A step of another process leads to a duty only where an assignment commits.
theorem commit_duty (commit : Committed now x c y c') (duty : y.duty = some k) :
    ∃ d j, k = .announce d j ∧ ∃ job, c'.job j = some job ∧ job.delivererId = some d ∧ job.status = .assigned := by
  cases commit
  case assign b orders _ _ _ caller _ _ _ _ _ _ _ _ _ _ =>
    cases duty
    exact ⟨_,_,rfl,_,Function.update_self ..,rfl,rfl⟩
  all_goals
    first
    | (rw [duty_uncommitted (by first | trivial | simp)] at duty; cases duty)
    | cases duty

theorem caught_uncommitted (x : Proc) (e : Err) : (x.caught e).uncommitted := by
  cases x <;> simp only [Proc.caught,assigned_uncommitted,assignFailed_uncommitted,closeFailed_uncommitted,
    recordFailed_uncommitted,flushFailed_uncommitted,sweepNext_uncommitted] <;> trivial

-- A step of another process is a commit or leads to one of those points.
theorem flows_uncommitted (flows : Flows (market env) v v' x y) :
    y.uncommitted ∨ ∃ body, Proc.next env x = .tx body ∧ body.run v = .ok (y,v') := by
  cases flows with
  | commit at_tx ran => exact .inr ⟨_,at_tx,ran⟩
  | query at_query still => exact .inl (query_uncommitted at_query v)
  | caught => exact .inl (caught_uncommitted x _)
  | input at_input still => exact .inl (input_uncommitted at_input _)
  | add at_add still => exact .inl (add_uncommitted at_add)
  | emit at_emit still => exact .inl (emit_uncommitted at_emit)

theorem flows_duty (flows : Flows (market env) v v' x y) (duty : y.duty = some k) :
    ∃ d j, k = .announce d j ∧ ∃ job, v'.rows .deliveryJob j = some job ∧ job.delivererId = some d ∧ job.status = .assigned := by
  rcases flows_uncommitted flows with quiet | ⟨body,at_tx,ran⟩
  · rw [duty_uncommitted quiet] at duty; cases duty
  · exact commit_duty (committed at_tx ran) duty

end Uncommitted

end MesyafMarket
