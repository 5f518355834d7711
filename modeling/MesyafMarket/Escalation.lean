import MesyafMarket.Outages
import MesyafMarket.Dispatch.Runs

namespace MesyafMarket
open Relational OrderService DelivererAssignmentService DelivererJobService DelivererRecoveryService
open EventLogService

-- The orders of job `j` whose events are still to be inserted once that of `j` is.
def Proc.unissued (j : Nat) : Proc → List (Nat × Order)
  | recordEvent _ (.issue i order orders _) => if i = j then order::orders else []
  | projectEvent _ _ (.escalated i orders _) => if i = j then orders else []
  | projectEvent _ _ (.issue i _ orders _) => if i = j then orders else []
  | notifyIssue i _ orders _ => if i = j then orders else []
  | _ => []

-- Job `j` has its escalation still ahead.
def Proc.due (j : Nat) : Proc → Prop
  | checkDeliverers => True
  | recordEvent _ (.escalated i _ rest) => i = j ∨ ∃ s ∈ rest, s.jobId = j
  | x => ∃ s ∈ x.pending, s.jobId = j

namespace Outage
variable {k : Outage} {whole : Prop} {v v' : Database} {rest : List StaleDeliverer} {orders : List (Nat × Order)}

structure Unsaid (k : Outage) (v : Database) : Prop where
  job : k.escalations v = 0
  order : ∀ i, k.Carried (dispatch v) i → k.issues v i = 0

-- The job's event has been logged, and those of its orders but for `orders`. `whole`
-- says that no sweep has been cut short before it came to the last of them.
structure Told (k : Outage) (whole : Prop) (orders : List (Nat × Order)) (v : Database) : Prop where
  job : k.escalations v = 1
  once : ∀ i, k.Carried (dispatch v) i → k.issues v i ≤ 1
  left : ∀ i ∈ orders.map Prod.fst, k.Carried (dispatch v) i → k.issues v i = 0
  all : whole → ∀ i, k.Carried (dispatch v) i → i ∉ orders.map Prod.fst → k.issues v i = 1

def Balanced (k : Outage) (whole : Prop) (v : Database) : Prop := k.Unsaid v ∨ k.Told whole [] v

def Foreign (k : Outage) (orders : List (Nat × Order)) (v : Database) : Prop :=
  ∀ i ∈ orders.map Prod.fst, ¬k.Carried (dispatch v) i

def Ahead (k : Outage) (rest : List StaleDeliverer) (v : Database) : Prop :=
  ∀ s ∈ rest, k.Noticed s v.clock (dispatch v)

-- What is known before the event of job `j` is inserted, and before those of `orders` are.
structure Announcing (k : Outage) (whole : Prop) (j : Nat) (orders : List (Nat × Order)) (v : Database) : Prop where
  once : (orders.map Prod.fst).Nodup
  own : j = k.job → k.seen < v.clock ∧ k.Unsaid v ∧ ∀ i, k.Carried (dispatch v) i → i ∈ orders.map Prod.fst
  other : j ≠ k.job → k.Balanced whole v ∧ k.Foreign orders v

structure Owing (k : Outage) (whole : Prop) (j : Nat) (orders : List (Nat × Order)) (v : Database) : Prop where
  once : (orders.map Prod.fst).Nodup
  own : j = k.job → k.seen < v.clock ∧ k.Told whole orders v
  other : j ≠ k.job → k.Balanced whole v ∧ k.Foreign orders v

def Assigning (k : Outage) (whole : Prop) (v : Database) : AssignCaller → Prop
  | .worker => False
  | .sweep rest => k.Balanced whole v ∧ k.Ahead rest v

def Recording (k : Outage) (whole : Prop) (v : Database) (params : Params) : RecordCaller → Prop
  | .decision .. => False
  | .recovered b rest => params.eventType = EVENTS.JOB.RECOVERED ∧ b ≠ k.batch ∧ k.Balanced whole v ∧ k.Ahead rest v
  | .escalated j orders rest => params = escalatedEvent j ∧ k.Announcing whole j orders v ∧ k.Ahead rest v
  | .issue j order orders rest => params = deliveryIssueEvent j order ∧ k.Owing whole j (order::orders) v ∧ k.Ahead rest v

def Projecting (k : Outage) (whole : Prop) (v : Database) : RecordCaller → Prop
  | .decision .. => False
  | .recovered b rest => b ≠ k.batch ∧ k.Balanced whole v ∧ k.Ahead rest v
  | .escalated j orders rest => k.Owing whole j orders v ∧ k.Ahead rest v
  | .issue j _ orders rest => k.Owing whole j orders v ∧ k.Ahead rest v

-- What holds at the program points of a sweep. Requests have none of them.
def Aware (k : Outage) (whole : Prop) (v : Database) : Proc → Prop
  | .checkDeliverers => k.Balanced whole v
  | .recoverUnstartedJob s job rest =>
    s.jobId ≠ k.job ∧ s.id ≠ k.deliverer ∧ job.batchId ≠ k.batch ∧ k.Balanced whole v ∧ k.Ahead (s::rest) v
  | .escalateStartedJob s rest => k.Balanced whole v ∧ k.Ahead (s::rest) v
  | .recordEvent params caller => k.Recording whole v params caller
  | .projectEvent _ _ caller => k.Projecting whole v caller
  | .assignDelivererToBatch b caller => b ≠ k.batch ∧ k.Assigning whole v caller
  | .readCandidates b _ _ _ caller => b ≠ k.batch ∧ k.Assigning whole v caller
  | .readPositions b _ _ _ _ caller => b ≠ k.batch ∧ k.Assigning whole v caller
  | .readMissing b _ _ _ _ _ caller => b ≠ k.batch ∧ k.Assigning whole v caller
  | .assign b _ _ caller => b ≠ k.batch ∧ k.Assigning whole v caller
  | .notifyAssigned _ _ _ _ caller => k.Assigning whole v caller
  | .notifyCustomers _ _ _ caller => k.Assigning whole v caller
  | .notifyIssue j _ orders rest => k.Owing whole j orders v ∧ k.Ahead rest v
  | .requeueStuckBatches | .countFreeDeliverers _ | .requeue _ | .returned _ => True
  | _ => False

-- A sweep that goes from `x` on to `y`; when it ends, nothing is half told.
structure Onto (k : Outage) (whole : Prop) (x y : Proc) (v : Database) : Prop where
  aware : k.Aware whole v y
  balanced : x.kind = .sweep → y.kind ≠ .sweep → k.Balanced whole v

-- An escalation that is due stays so until the job's event is logged.
def Keeps (k : Outage) (x y : Proc) (v v' : Database) : Prop :=
  k.seen+DELIVERER_GRACE_MS < v.clock → (k.escalations v = 0 → x.due k.job) → k.escalations v' = 0 → y.due k.job

section Frame

theorem unsaid_goes (unsaid : k.Unsaid v) (goes : k.Goes (dispatch v) (dispatch v')) (log : Unremarked v v') : k.Unsaid v' :=
  ⟨(log.job k).trans unsaid.job,fun i carried => (log.order k i).trans (unsaid.order i (goes.carried i carried))⟩

theorem told_goes (told : k.Told whole orders v) (goes : k.Goes (dispatch v) (dispatch v')) (log : Unremarked v v') :
    k.Told whole orders v' where
  job := (log.job k).trans told.job
  once i carried := by rw [log.order k i]; exact told.once i (goes.carried i carried)
  left i member carried := by rw [log.order k i]; exact told.left i member (goes.carried i carried)
  all holds i carried other := by rw [log.order k i]; exact told.all holds i (goes.carried i carried) other

theorem balanced_goes (balanced : k.Balanced whole v) (goes : k.Goes (dispatch v) (dispatch v')) (log : Unremarked v v') :
    k.Balanced whole v' :=
  balanced.imp (fun unsaid => unsaid_goes unsaid goes log) fun told => told_goes told goes log

theorem ahead_goes (ahead : k.Ahead rest v) (goes : k.Goes (dispatch v) (dispatch v')) (later : v.clock ≤ v'.clock) :
    k.Ahead rest v' := fun s member => noticed_goes (ahead s member) goes later

theorem foreign_goes (foreign : k.Foreign orders v) (goes : k.Goes (dispatch v) (dispatch v')) : k.Foreign orders v' :=
  fun i member carried => foreign i member (goes.carried i carried)

theorem announcing_goes (known : k.Announcing whole j orders v) (goes : k.Goes (dispatch v) (dispatch v'))
    (log : Unremarked v v') (later : v.clock ≤ v'.clock) : k.Announcing whole j orders v' where
  once := known.once
  own its := ⟨Nat.lt_of_lt_of_le (known.own its).1 later,unsaid_goes (known.own its).2.1 goes log,
    fun i carried => (known.own its).2.2 i (goes.carried i carried)⟩
  other foreign := ⟨balanced_goes (known.other foreign).1 goes log,foreign_goes (known.other foreign).2 goes⟩

theorem owing_goes (known : k.Owing whole j orders v) (goes : k.Goes (dispatch v) (dispatch v'))
    (log : Unremarked v v') (later : v.clock ≤ v'.clock) : k.Owing whole j orders v' where
  once := known.once
  own its := ⟨Nat.lt_of_lt_of_le (known.own its).1 later,told_goes (known.own its).2 goes log⟩
  other foreign := ⟨balanced_goes (known.other foreign).1 goes log,foreign_goes (known.other foreign).2 goes⟩

-- Nothing else that a sweep knows depends on the time.
theorem aware_later (aware : k.Aware whole v x) (goes : k.Goes (dispatch v) (dispatch v')) (log : Unremarked v v')
    (later : v.clock ≤ v'.clock) : k.Aware whole v' x := by
  have assigning : ∀ caller, k.Assigning whole v caller → k.Assigning whole v' caller := by
    intro caller known
    cases caller with
    | worker => exact known
    | sweep rest => exact ⟨balanced_goes known.1 goes log,ahead_goes known.2 goes later⟩
  cases x with
  | checkDeliverers => exact balanced_goes aware goes log
  | recoverUnstartedJob =>
    obtain ⟨other,deliverer,batch,balanced,ahead⟩ := aware
    exact ⟨other,deliverer,batch,balanced_goes balanced goes log,ahead_goes ahead goes later⟩
  | escalateStartedJob => exact ⟨balanced_goes aware.1 goes log,ahead_goes aware.2 goes later⟩
  | recordEvent params caller =>
    cases caller with
    | decision => exact aware
    | recovered =>
      obtain ⟨type,other,balanced,ahead⟩ := aware
      exact ⟨type,other,balanced_goes balanced goes log,ahead_goes ahead goes later⟩
    | escalated => exact ⟨aware.1,announcing_goes aware.2.1 goes log later,ahead_goes aware.2.2 goes later⟩
    | issue => exact ⟨aware.1,owing_goes aware.2.1 goes log later,ahead_goes aware.2.2 goes later⟩
  | projectEvent _ _ caller =>
    cases caller with
    | decision => exact aware
    | recovered => exact ⟨aware.1,balanced_goes aware.2.1 goes log,ahead_goes aware.2.2 goes later⟩
    | escalated => exact ⟨owing_goes aware.1 goes log later,ahead_goes aware.2 goes later⟩
    | issue => exact ⟨owing_goes aware.1 goes log later,ahead_goes aware.2 goes later⟩
  | assignDelivererToBatch _ caller => exact ⟨aware.1,assigning caller aware.2⟩
  | readCandidates _ _ _ _ caller => exact ⟨aware.1,assigning caller aware.2⟩
  | readPositions _ _ _ _ _ caller => exact ⟨aware.1,assigning caller aware.2⟩
  | readMissing _ _ _ _ _ _ caller => exact ⟨aware.1,assigning caller aware.2⟩
  | assign _ _ _ caller => exact ⟨aware.1,assigning caller aware.2⟩
  | notifyAssigned _ _ _ _ caller => exact assigning caller aware
  | notifyCustomers _ _ _ caller => exact assigning caller aware
  | notifyIssue => exact ⟨owing_goes aware.1 goes log later,ahead_goes aware.2 goes later⟩
  | _ => exact aware

end Frame

section Points

theorem onto_sweepNext (balanced : k.Balanced whole v) (ahead : k.Ahead rest v) : k.Onto whole x (.sweepNext rest) v := by
  refine ⟨?_,fun _ _ => balanced⟩
  induction rest with
  | nil => trivial
  | cons s rest ih =>
    have later : k.Ahead rest v := fun t member => ahead t (List.mem_cons_of_mem _ member)
    have noticed := ahead s List.mem_cons_self
    unfold Proc.sweepNext
    split
    · exact ih later
    · rename_i job snapshot
      split
      · rename_i unstarted
        have other : s.jobId ≠ k.job := by
          intro its
          obtain ⟨a,same,running⟩ := noticed.running its
          rw [snapshot] at same
          cases same
          rw [unstarted] at running; cases running
        exact ⟨other,fun same => other (noticed.same.mp same),noticed.batch other job snapshot,balanced,ahead⟩
      · exact ⟨balanced,ahead⟩
      · exact ih later

theorem due_sweepNext (ahead : k.Ahead rest v) (listed : ∃ s ∈ rest, s.jobId = k.job) : (Proc.sweepNext rest).due k.job := by
  induction rest with
  | nil => obtain ⟨s,member,_⟩ := listed; cases member
  | cons d rest ih =>
    have later : k.Ahead rest v := fun t member => ahead t (List.mem_cons_of_mem _ member)
    have passed : d.jobId ≠ k.job → ∃ s ∈ rest, s.jobId = k.job := by
      intro other
      obtain ⟨s,member,its⟩ := listed
      rcases List.mem_cons.mp member with rfl | member
      · exact absurd its other
      · exact ⟨s,member,its⟩
    unfold Proc.sweepNext
    split
    · rename_i none
      refine ih later (passed fun its => ?_)
      obtain ⟨a,same,_⟩ := (ahead d List.mem_cons_self).running its
      rw [none] at same; cases same
    · rename_i job snapshot
      split
      · exact listed
      · exact listed
      · rename_i ended
        refine ih later (passed fun its => ?_)
        obtain ⟨a,same,running⟩ := (ahead d List.mem_cons_self).running its
        rw [snapshot] at same
        cases same
        exact ended running

theorem balanced_told (told : k.Told whole orders v) (end_ : whole → orders = []) : k.Balanced whole v := by
  refine .inr ⟨told.job,told.once,fun _ member => absurd member List.not_mem_nil,?_⟩
  intro holds i carried _
  exact told.all holds i carried (by rw [end_ holds]; exact List.not_mem_nil)

theorem balanced_owing (owing : k.Owing whole j orders v) (end_ : j = k.job → whole → orders = []) : k.Balanced whole v := by
  by_cases its : j = k.job
  · exact balanced_told (owing.own its).2 (end_ its)
  · exact (owing.other its).1

theorem onto_issueNext (owing : k.Owing whole j orders v) (ahead : k.Ahead rest v) :
    k.Onto whole x (.issueNext j rest orders) v := by
  cases orders with
  | nil => exact onto_sweepNext (balanced_owing owing fun _ _ => rfl) ahead
  | cons order orders => exact ⟨⟨rfl,owing,ahead⟩,fun _ no => absurd rfl no⟩

theorem due_issueNext (ahead : k.Ahead rest v) (listed : ∃ s ∈ rest, s.jobId = k.job) :
    (Proc.issueNext j rest orders).due k.job := by
  cases orders with
  | nil => exact due_sweepNext ahead listed
  | cons => exact listed

theorem onto_assigned (known : k.Assigning whole v caller) : k.Onto whole x (.assigned caller) v := by
  cases caller with
  | worker => exact known.elim
  | sweep rest => exact onto_sweepNext known.1 known.2

theorem due_assigned (known : k.Assigning whole v caller) (listed : ∃ s ∈ caller.pending, s.jobId = k.job) :
    (Proc.assigned caller).due k.job := by
  cases caller with
  | worker => exact known.elim
  | sweep rest => exact due_sweepNext known.2 listed

theorem onto_within (aware : k.Aware whole v y) (sweep : y.kind = .sweep) : k.Onto whole x y v :=
  ⟨aware,fun _ no => absurd sweep no⟩

theorem assigning_kind (known : k.Assigning whole v caller) : caller.kind = .sweep := by
  cases caller with
  | worker => exact known.elim
  | sweep => rfl

theorem onto_notifyNext (known : k.Assigning whole v caller) : k.Onto whole x (.notifyNext j d caller orders) v := by
  cases orders with
  | nil => exact onto_assigned known
  | cons => exact onto_within known (assigning_kind known)

theorem due_notifyNext (known : k.Assigning whole v caller) (listed : ∃ s ∈ caller.pending, s.jobId = k.job) :
    (Proc.notifyNext j d caller orders).due k.job := by
  cases orders with
  | nil => exact due_assigned known listed
  | cons => exact listed

end Points

section Instructions
variable {env : Env}

theorem assigned_query (balanced : b ≠ k.batch ∧ k.Assigning whole v caller) :
    k.Onto whole (.assignDelivererToBatch b caller) (.batchToAssign env v b caller) v ∧
      k.Keeps (.assignDelivererToBatch b caller) (.batchToAssign env v b caller) v v := by
  have ended : k.Onto whole (.assignDelivererToBatch b caller) (.assigned caller) v ∧
      k.Keeps (.assignDelivererToBatch b caller) (.assigned caller) v v :=
    ⟨onto_assigned balanced.2,fun _ due none => due_assigned balanced.2 (due none)⟩
  unfold Proc.batchToAssign
  split
  · split
    · exact ended
    · split
      · exact ⟨onto_within balanced (assigning_kind balanced.2),fun _ due none => due none⟩
      · exact ended
  · exact ended

theorem onto_query {read : Database → Proc} (lasts : k.Lasts (dispatch v)) (aware : k.Aware whole v x)
    (at_query : Proc.next env x = .query read) : k.Onto whole x (read v) v ∧ k.Keeps x (read v) v v := by
  cases x <;> simp only [Proc.next,reduceCtorEq] at at_query
  case notifyCustomers => split at at_query <;> cases at_query
  case requeue => split at at_query <;> cases at_query
  all_goals cases at_query
  case checkDeliverers =>
    have ahead : k.Ahead (staleDeliverers env v) v := fun s member => noticed_read lasts member
    exact ⟨onto_sweepNext aware ahead,fun elapsed _ _ => due_sweepNext ahead (stale_listed lasts elapsed)⟩
  case assignDelivererToBatch => exact assigned_query aware
  case readCandidates b orders lat lng caller =>
    beta_reduce
    unfold Proc.candidates
    split
    · cases caller with
      | worker => exact aware.2.elim
      | sweep rest => exact ⟨onto_assigned aware.2,fun _ due none => due_assigned aware.2 (due none)⟩
    · exact ⟨onto_within aware (assigning_kind aware.2),fun _ due none => due none⟩
  case readMissing b orders lat lng deliverers redis caller =>
    beta_reduce
    unfold Proc.choose
    split
    · exact ⟨onto_within aware (assigning_kind aware.2),fun _ due none => due none⟩
    · exact ⟨onto_assigned aware.2,fun _ due none => due_assigned aware.2 (due none)⟩
  case escalateStartedJob s rest =>
    obtain ⟨balanced,ahead⟩ := aware
    have noticed := ahead s List.mem_cons_self
    have later : k.Ahead rest v := fun t member => ahead t (List.mem_cons_of_mem _ member)
    beta_reduce
    split
    · rename_i already
      refine ⟨onto_sweepNext balanced later,fun _ due none => due_sweepNext later ?_⟩
      obtain ⟨t,member,its⟩ := due none
      rcases List.mem_cons.mp member with rfl | member
      · rw [its,(noticed.since its).1,escalated_none none] at already; cases already
      · exact ⟨t,member,its⟩
    · rename_i first
      refine ⟨onto_within ⟨rfl,⟨noticed.once,?_,?_⟩,later⟩ rfl,fun _ due none => ?_⟩
      · intro its
        rcases balanced with unsaid | told
        · exact ⟨(noticed.since its).2,unsaid,noticed.whole its⟩
        · refine absurd ?_ first
          rw [its,(noticed.since its).1]
          unfold alreadyEscalated
          rw [Bool.not_eq_true',List.isEmpty_eq_false_iff]
          intro empty
          have none : k.escalations v = 0 := congrArg List.length empty
          rw [told.job] at none; cases none
      · exact fun other => ⟨balanced,noticed.foreign other⟩
      · obtain ⟨t,member,its⟩ := due none
        rcases List.mem_cons.mp member with rfl | member
        · exact .inl its
        · exact .inr ⟨t,member,its⟩
  case requeueStuckBatches =>
    refine ⟨⟨?_,(fun no => by cases no)⟩,fun _ due none => ?_⟩
    · beta_reduce
      split <;> trivial
    · obtain ⟨_,member,_⟩ := due none; cases member
  case countFreeDeliverers =>
    refine ⟨⟨?_,(fun no => by cases no)⟩,fun _ due none => ?_⟩
    · beta_reduce
      unfold Proc.requeueNext
      split <;> trivial
    · obtain ⟨_,member,_⟩ := due none; cases member
  all_goals exact aware.elim

theorem onto_input {read : (Nat → Option Point) → Proc} (aware : k.Aware whole v x)
    (at_input : Proc.next env x = .input read) : k.Onto whole x (read i) v ∧ k.Keeps x (read i) v v := by
  cases x <;> simp only [Proc.next,reduceCtorEq] at at_input
  case notifyCustomers => split at at_input <;> cases at_input
  case requeue => split at at_input <;> cases at_input
  all_goals cases at_input
  case readPositions => exact ⟨onto_within aware (assigning_kind aware.2),fun _ due none => due none⟩
  case flushToDb => exact aware.elim

theorem onto_add (aware : k.Aware whole v x) (at_add : Proc.next env x = .add task y) :
    k.Onto whole x y v ∧ k.Keeps x y v v := by
  cases x <;> simp only [Proc.next,reduceCtorEq] at at_add
  case notifyCustomers => split at at_add <;> cases at_add
  case requeue =>
    split at at_add <;> cases at_add
    refine ⟨⟨?_,(fun no => by cases no)⟩,fun _ due none => ?_⟩
    · unfold Proc.requeueNext
      split <;> trivial
    · obtain ⟨_,member,_⟩ := due none; cases member
  all_goals exact aware.elim

theorem onto_emit (aware : k.Aware whole v x) (at_emit : Proc.next env x = .emit note y) :
    k.Onto whole x y v ∧ k.Keeps x y v v := by
  cases x <;> simp only [Proc.next,reduceCtorEq] at at_emit
  case requeue => split at at_emit <;> cases at_emit
  case notifyAssigned =>
    cases at_emit
    exact ⟨onto_notifyNext aware,fun _ due none => due_notifyNext aware (due none)⟩
  case notifyCustomers =>
    split at at_emit <;> cases at_emit
    exact ⟨onto_notifyNext aware,fun _ due none => due_notifyNext aware (due none)⟩
  case notifyIssue =>
    cases at_emit
    exact ⟨onto_issueNext aware.1 aware.2,fun _ due none => due_issueNext aware.2 (due none)⟩
  all_goals exact aware.elim

theorem recording_kind (aware : k.Recording whole v params caller) : caller.kind = .sweep := by
  cases caller with
  | decision => exact aware.elim
  | _ => rfl

theorem projecting_kind (aware : k.Projecting whole v caller) : caller.kind = .sweep := by
  cases caller with
  | decision => exact aware.elim
  | _ => rfl

-- The deliverers that a sweep has still to handle.
theorem aware_ahead (aware : k.Aware whole v x) : k.Ahead x.pending v := by
  have assigning : ∀ caller, k.Assigning whole v caller → k.Ahead caller.pending v := by
    intro caller known
    cases caller with
    | worker => exact known.elim
    | sweep => exact known.2
  cases x with
  | recoverUnstartedJob s job rest => exact aware.2.2.2.2
  | escalateStartedJob => exact aware.2
  | recordEvent params caller =>
    cases caller with
    | decision => exact aware.elim
    | recovered => exact aware.2.2.2
    | escalated => exact aware.2.2
    | issue => exact aware.2.2
  | projectEvent id event caller =>
    cases caller with
    | decision => exact aware.elim
    | recovered => exact aware.2.2
    | escalated => exact aware.2
    | issue => exact aware.2
  | assignDelivererToBatch _ caller => exact assigning caller aware.2
  | readCandidates _ _ _ _ caller => exact assigning caller aware.2
  | readPositions _ _ _ _ _ caller => exact assigning caller aware.2
  | readMissing _ _ _ _ _ _ caller => exact assigning caller aware.2
  | assign _ _ _ caller => exact assigning caller aware.2
  | notifyAssigned _ _ _ _ caller => exact assigning caller aware
  | notifyCustomers _ _ _ caller => exact assigning caller aware
  | notifyIssue => exact aware.2
  | _ => exact fun _ member => absurd member List.not_mem_nil

-- What a sweep leaves behind that is cut short where no events are left to insert.
theorem aware_balanced (aware : k.Aware whole v x) (sweep : x.kind = .sweep) (end_ : whole → x.unissued k.job = []) :
    k.Balanced whole v := by
  have assigning : ∀ caller, k.Assigning whole v caller → k.Balanced whole v := by
    intro caller known
    cases caller with
    | worker => exact known.elim
    | sweep => exact known.1
  have owing : ∀ j orders, k.Owing whole j orders v → (j = k.job → whole → orders = []) → k.Balanced whole v :=
    fun _ _ => balanced_owing
  cases x with
  | checkDeliverers => exact aware
  | recoverUnstartedJob => exact aware.2.2.2.1
  | escalateStartedJob => exact aware.1
  | recordEvent params caller =>
    cases caller with
    | decision => exact aware.elim
    | recovered => exact aware.2.2.1
    | escalated j orders rest =>
      by_cases its : j = k.job
      · exact .inl (aware.2.1.own its).2.1
      · exact (aware.2.1.other its).1
    | issue => exact owing _ _ aware.2.1 fun its holds => by simpa only [Proc.unissued,if_pos its] using end_ holds
  | projectEvent id event caller =>
    cases caller with
    | decision => exact aware.elim
    | recovered => exact aware.2.1
    | escalated => exact owing _ _ aware.1 fun its holds => by simpa only [Proc.unissued,if_pos its] using end_ holds
    | issue => exact owing _ _ aware.1 fun its holds => by simpa only [Proc.unissued,if_pos its] using end_ holds
  | assignDelivererToBatch _ caller => exact assigning caller aware.2
  | readCandidates _ _ _ _ caller => exact assigning caller aware.2
  | readPositions _ _ _ _ _ caller => exact assigning caller aware.2
  | readMissing _ _ _ _ _ _ caller => exact assigning caller aware.2
  | assign _ _ _ caller => exact assigning caller aware.2
  | notifyAssigned _ _ _ _ caller => exact assigning caller aware
  | notifyCustomers _ _ _ caller => exact assigning caller aware
  | notifyIssue => exact owing _ _ aware.1 fun its holds => by simpa only [Proc.unissued,if_pos its] using end_ holds
  | requeueStuckBatches | countFreeDeliverers | requeue | returned => cases sweep
  | _ => exact aware.elim

-- An instruction that fails: the sweep goes on with the next deliverer.
theorem onto_caught (aware : k.Aware whole v x) (end_ : whole → x.unissued k.job = []) : k.Onto whole x (x.caught e) v := by
  have next : ∀ rest, rest.Sublist x.pending → x.kind = .sweep → k.Onto whole x (.sweepNext rest) v :=
    fun rest fewer sweep => onto_sweepNext (aware_balanced aware sweep end_) fun s member =>
      aware_ahead aware s (fewer.mem member)
  have assigning : ∀ caller, caller.pending.Sublist x.pending → k.Assigning whole v caller → x.kind = .sweep →
      k.Onto whole x (.assigned caller) v ∧ k.Onto whole x (.assignFailed e caller) v := by
    intro caller fewer known sweep
    cases caller with
    | worker => exact known.elim
    | sweep rest => exact ⟨next rest fewer sweep,next rest fewer sweep⟩
  cases x with
  | checkDeliverers => exact ⟨trivial,fun _ _ => aware⟩
  | recoverUnstartedJob s job rest => exact next rest (.cons s (.refl _)) rfl
  | escalateStartedJob s rest => exact next rest (.cons s (.refl _)) rfl
  | recordEvent params caller =>
    cases caller with
    | decision => exact aware.elim
    | _ => exact next _ (.refl _) rfl
  | projectEvent id event caller =>
    cases caller with
    | decision => exact aware.elim
    | _ => exact next _ (.refl _) rfl
  | assignDelivererToBatch _ caller => exact (assigning caller (.refl _) aware.2 (assigning_kind aware.2)).2
  | readCandidates _ _ _ _ caller => exact (assigning caller (.refl _) aware.2 (assigning_kind aware.2)).2
  | readPositions _ _ _ _ _ caller => exact (assigning caller (.refl _) aware.2 (assigning_kind aware.2)).2
  | readMissing _ _ _ _ _ _ caller => exact (assigning caller (.refl _) aware.2 (assigning_kind aware.2)).2
  | assign _ _ _ caller => exact (assigning caller (.refl _) aware.2 (assigning_kind aware.2)).2
  | notifyAssigned _ _ _ _ caller => exact (assigning caller (.refl _) aware (assigning_kind aware)).1
  | notifyCustomers _ _ _ caller => exact (assigning caller (.refl _) aware (assigning_kind aware)).1
  | notifyIssue j order orders rest => exact next rest (.refl _) rfl
  | requeueStuckBatches | countFreeDeliverers | requeue | returned => exact ⟨trivial,nofun⟩
  | _ => exact aware.elim

end Instructions

section Commits
variable {env : Env}

theorem balanced_created (balanced : k.Balanced whole v) (ran : (createEvent params).run v = .ok (r,v'))
    (same : dispatch v' = dispatch v) (job : k.isEscalation (params.event v.clock) = false)
    (order : ∀ i, k.Carried (dispatch v) i → k.isIssue i (params.event v.clock) = false) : k.Balanced whole v' := by
  have escalations : k.escalations v' = k.escalations v := by rw [created_escalations ran,job]; rfl
  have issues : ∀ i, k.Carried (dispatch v) i → k.issues v' i = k.issues v i := by
    intro i carried
    rw [created_issues ran,order i carried]; rfl
  rcases balanced with unsaid | told
  · refine .inl ⟨escalations.trans unsaid.job,fun i carried => ?_⟩
    rw [same] at carried
    exact (issues i carried).trans (unsaid.order i carried)
  · refine .inr ⟨escalations.trans told.job,?_,fun _ member => absurd member List.not_mem_nil,?_⟩
    · intro i carried
      rw [same] at carried
      rw [issues i carried]; exact told.once i carried
    · intro holds i carried other
      rw [same] at carried
      rw [issues i carried]; exact told.all holds i carried other

theorem told_announced (known : k.Announcing whole k.job orders v)
    (ran : (createEvent (escalatedEvent k.job)).run v = .ok (r,v')) (same : dispatch v' = dispatch v) :
    k.Told whole orders v' := by
  obtain ⟨after,unsaid,listed⟩ := known.own rfl
  have issues : ∀ i, k.Carried (dispatch v') i → k.issues v' i = 0 := by
    intro i carried
    rw [same] at carried
    rw [created_issues ran,unsaid.order i carried]
    simp [isIssue,Params.event,escalatedEvent]
  refine ⟨?_,fun i carried => ?_,fun i _ carried => issues i carried,fun _ i carried other => ?_⟩
  · rw [created_escalations ran,unsaid.job]
    simp [isEscalation,Params.event,escalatedEvent,after]
  · rw [issues i carried]; exact Nat.zero_le _
  · rw [same] at carried
    exact absurd (listed i carried) other

theorem told_issued (told : k.Told whole (order::orders) v) (once : ((order::orders).map Prod.fst).Nodup)
    (after : k.seen < v.clock) (ran : (createEvent (deliveryIssueEvent k.job order)).run v = .ok (r,v'))
    (same : dispatch v' = dispatch v) : k.Told whole orders v' := by
  have new : ∀ i, k.issues v' i = k.issues v i+if order.1 = i then 1 else 0 := by
    intro i
    rw [created_issues ran]
    simp [isIssue,Params.event,deliveryIssueEvent,after]
  have first : order.1 ∉ orders.map Prod.fst := (List.nodup_cons.mp once).1
  refine ⟨?_,?_,?_,?_⟩
  · rw [created_escalations ran,told.job]
    simp [isEscalation,Params.event,deliveryIssueEvent]
  · intro i carried
    rw [same] at carried
    rw [new]
    split
    · rename_i is
      rw [told.left i (by rw [← is]; exact List.mem_cons_self) carried]
    · exact told.once i carried
  · intro i member carried
    rw [same] at carried
    rw [new,told.left i (List.mem_cons_of_mem _ member) carried,if_neg]
    rintro rfl
    exact first member
  · intro holds i carried other
    rw [same] at carried
    rw [new]
    split
    · rename_i is
      rw [told.left i (by rw [← is]; exact List.mem_cons_self) carried]
    · rename_i apart
      refine told.all holds i carried fun member => ?_
      rcases List.mem_cons.mp member with is | member
      · exact apart is.symm
      · exact other member

theorem projecting_created (aware : k.Recording whole v params caller) (ran : (createEvent params).run v = .ok (r,v'))
    (same : dispatch v' = dispatch v) (goes : k.Goes (dispatch v) (dispatch v')) : k.Projecting whole v' caller := by
  have clock : v'.clock = v.clock := run_clock ran
  have later : v.clock ≤ v'.clock := by rw [clock]
  cases caller with
  | decision => exact aware
  | recovered b rest =>
    obtain ⟨type,other,balanced,ahead⟩ := aware
    refine ⟨other,balanced_created balanced ran same ?_ fun i _ => ?_,ahead_goes ahead goes later⟩
    · simp [isEscalation,Params.event,type,EVENTS.JOB.RECOVERED,EVENTS.JOB.ESCALATED]
    · simp [isIssue,Params.event,type,EVENTS.JOB.RECOVERED,EVENTS.ORDER.DELIVERY_ISSUE]
  | escalated j orders rest =>
    obtain ⟨rfl,known,ahead⟩ := aware
    refine ⟨⟨known.once,?_,?_⟩,ahead_goes ahead goes later⟩
    · rintro rfl
      exact ⟨by rw [clock]; exact (known.own rfl).1,told_announced known ran same⟩
    · intro other
      refine ⟨balanced_created (known.other other).1 ran same ?_ fun i _ => ?_,foreign_goes (known.other other).2 goes⟩
      · simp [isEscalation,Params.event,escalatedEvent,other]
      · simp [isIssue,Params.event,escalatedEvent]
  | issue j order orders rest =>
    obtain ⟨rfl,known,ahead⟩ := aware
    refine ⟨⟨(List.nodup_cons.mp known.once).2,?_,?_⟩,ahead_goes ahead goes later⟩
    · rintro rfl
      exact ⟨by rw [clock]; exact (known.own rfl).1,told_issued (known.own rfl).2 known.once (known.own rfl).1 ran same⟩
    · intro other
      obtain ⟨balanced,foreign⟩ := known.other other
      refine ⟨balanced_created balanced ran same ?_ fun i carried => ?_,foreign_goes (fun i member => ?_) goes⟩
      · simp [isEscalation,Params.event,deliveryIssueEvent]
      · have apart : order.1 ≠ i := by
          rintro rfl
          exact foreign order.1 List.mem_cons_self carried
        simp [isIssue,Params.event,deliveryIssueEvent,apart]
      · exact foreign i (List.mem_cons_of_mem _ member)

theorem keeps_recorded (aware : k.Recording whole v params caller) (ran : (createEvent params).run v = .ok (r,v')) :
    k.Keeps (.recordEvent params caller) (.projectEvent eventId event caller) v v' := by
  intro _ due none
  have before : k.escalations v = 0 ∧ ¬k.isEscalation (params.event v.clock) = true := by
    rw [created_escalations ran] at none
    split at none
    · omega
    · rename_i other; exact ⟨none,other⟩
  have listed := due before.1
  cases caller with
  | decision => exact aware.elim
  | recovered => exact listed
  | issue => exact listed
  | escalated j orders rest =>
    rcases listed with rfl | listed
    · obtain ⟨rfl,known,_⟩ := aware
      refine absurd ?_ before.2
      simp [isEscalation,Params.event,escalatedEvent,(known.own rfl).1]
    · exact listed

theorem onto_recorded (aware : k.Projecting whole v caller) : k.Onto whole x (.recorded caller) v := by
  cases caller with
  | decision => exact aware.elim
  | recovered b rest => exact onto_within ⟨aware.1,aware.2.1,aware.2.2⟩ rfl
  | escalated j orders rest => exact onto_issueNext aware.1 aware.2
  | issue j order orders rest => exact onto_within aware rfl

theorem due_recorded (aware : k.Projecting whole v caller) (listed : ∃ s ∈ caller.pending, s.jobId = k.job) :
    (Proc.recorded caller).due k.job := by
  cases caller with
  | decision => exact aware.elim
  | recovered => exact listed
  | escalated j orders rest => exact due_issueNext aware.2 listed
  | issue => exact listed

-- One commit of a sweep.
structure Commits (k : Outage) (whole : Prop) (x y : Proc) (v v' : Database) : Prop where
  goes : k.Goes (dispatch v) (dispatch v')
  clock : v'.clock = v.clock
  grows : k.escalations v ≤ k.escalations v' ∧ ∀ i, k.issues v i ≤ k.issues v' i
  onto : k.Onto whole x y v'
  keeps : k.Keeps x y v v'
  sweep : x.kind = .sweep

theorem onto_commit (lasts : k.Lasts (dispatch v)) (aware : k.Aware whole v x) (at_tx : Proc.next env x = .tx body)
    (ran : body.run v = .ok (y,v')) : k.Commits whole x y v v' := by
  have commit := committed at_tx ran
  have clock : v'.clock = v.clock := run_clock ran
  have later : v.clock ≤ v'.clock := by rw [clock]
  cases x <;> simp only [Proc.next,reduceCtorEq] at at_tx
  case notifyCustomers => split at at_tx <;> cases at_tx
  case requeue => split at at_tx <;> cases at_tx
  all_goals cases at_tx
  case recordEvent params caller =>
    have same : dispatch v' = dispatch v := by
      generalize dispatch v' = c at commit
      cases commit; rfl
    obtain ⟨r,_,created,ended⟩ := Tx.run_bind_ok.mp ran
    cases ended
    have goes : k.Goes (dispatch v) (dispatch v') := by rw [same]; exact goes_refl lasts
    have grows : k.escalations v ≤ k.escalations v' ∧ ∀ i, k.issues v i ≤ k.issues v' i :=
      ⟨by rw [created_escalations created]; omega,fun i => by rw [created_issues created]; omega⟩
    exact ⟨goes,clock,grows,onto_within (projecting_created aware created same goes) (recording_kind aware),
      keeps_recorded aware created,recording_kind aware⟩
  case projectEvent id event caller =>
    obtain ⟨_,_,projected,ended⟩ := Tx.run_bind_ok.mp ran
    cases ended
    have same : dispatch v' = dispatch v := by
      generalize dispatch v' = c at commit
      cases commit; rfl
    have log := unremarked_projectEvent v _ projected
    have goes : k.Goes (dispatch v) (dispatch v') := by rw [same]; exact goes_refl lasts
    have known : k.Projecting whole v' caller := aware_later (x := .projectEvent id event caller) aware goes log later
    exact ⟨goes,clock,⟨(log.job k).ge,fun i => (log.order k i).ge⟩,onto_recorded known,fun _ due none => due_recorded known (due ((log.job k).symm.trans none)),
      projecting_kind aware⟩
  case assign b orders d caller =>
    obtain ⟨j,_,assigned,ended⟩ := Tx.run_bind_ok.mp ran
    cases ended
    have log := unremarked_assignTx v _ assigned
    have goes : k.Goes (dispatch v) (dispatch v') := by
      generalize dispatch v' = c at commit
      cases commit with
      | assign _ _ _ at_deliverer _ free _ job => exact goes_assign lasts at_deliverer free job aware.1
    have known := aware_later (x := .assign b orders d caller) aware goes log later
    exact ⟨goes,clock,⟨(log.job k).ge,fun i => (log.order k i).ge⟩,onto_within known.2 (assigning_kind known.2),fun _ due none => due ((log.job k).symm.trans none),
      assigning_kind aware.2⟩
  case recoverUnstartedJob s job rest =>
    obtain ⟨_,_,recovered,ended⟩ := Tx.run_bind_ok.mp ran
    cases ended
    obtain ⟨other,deliverer,batch,balanced,all⟩ := aware
    have ahead : k.Ahead rest v := fun t member => all t (List.mem_cons_of_mem _ member)
    have log := unremarked_recoverTx v _ recovered
    have goes : k.Goes (dispatch v) (dispatch v') := by
      generalize dispatch v' = c at commit
      cases commit with
      | recoverUnstartedJob _ at_job => exact goes_recover lasts at_job deliverer other
    refine ⟨goes,clock,⟨(log.job k).ge,fun i => (log.order k i).ge⟩,onto_within ⟨rfl,batch,balanced_goes balanced goes log,ahead_goes ahead goes later⟩ rfl,?_,rfl⟩
    intro _ due none
    obtain ⟨t,member,its⟩ := due ((log.job k).symm.trans none)
    rcases List.mem_cons.mp member with rfl | member
    · exact absurd its other
    · exact ⟨t,member,its⟩
  all_goals exact aware.elim

theorem runs_projectEvent (eventId : Nat) (event : EventLog) (v : Database) : ∃ r, (projectEvent eventId event).run v = .ok r := by
  unfold projectEvent
  split
  · unfold OrderTimelineProjectionService.project
    split <;> exact ⟨_,rfl⟩
  · unfold JobTimelineProjectionService.project
    split <;> exact ⟨_,rfl⟩

-- What a sweep's transactions throw is an assignment's or a recovery's.
theorem onto_error (aware : k.Aware whole v x) (at_tx : Proc.next env x = .tx body) (ran : body.run v = .error e) :
    k.Onto whole x (x.caught e) v ∧ k.Keeps x (x.caught e) v v := by
  have caught : x.unissued k.job = [] → k.Onto whole x (x.caught e) v := fun none => onto_caught aware fun _ => none
  cases x <;> simp only [Proc.next,reduceCtorEq] at at_tx
  case notifyCustomers => split at at_tx <;> cases at_tx
  case requeue => split at at_tx <;> cases at_tx
  all_goals cases at_tx
  case recordEvent params caller => cases ran
  case projectEvent id event caller =>
    obtain ⟨r,fine⟩ := runs_projectEvent id event v
    rw [Tx.run_bind,fine] at ran
    cases ran
  case assign b orders d caller =>
    refine ⟨caught rfl,fun _ due none => ?_⟩
    cases caller with
    | worker => exact aware.2.elim
    | sweep rest => exact due_assigned aware.2 (due none)
  case recoverUnstartedJob s job rest =>
    obtain ⟨other,_,_,_,all⟩ := aware
    have ahead : k.Ahead rest v := fun t member => all t (List.mem_cons_of_mem _ member)
    refine ⟨caught rfl,fun _ due none => due_sweepNext ahead ?_⟩
    obtain ⟨t,member,its⟩ := due none
    rcases List.mem_cons.mp member with rfl | member
    · exact absurd its other
    · exact ⟨t,member,its⟩
  all_goals exact aware.elim

end Commits

section Runs
variable {env : Env} {w : Market}

-- Nothing but sweeps, one at a time. Any instruction may fail, and a sweep may stop.
def Sweeps (w : Market) : MarketMove → Prop
  | .spawn x => x = .checkDeliverers ∧ ∀ p, ¬Sweeping w p
  | .work _ => False
  | _ => True

-- No sweep fails while there are events of the outage left to insert.
def Uninterrupted (k : Outage) (w : Market) : MarketMove → Prop
  | .fail p => ∀ x, w.threads p = some x → x.unissued k.job = []
  | .stop p => ∀ x, w.threads p = some x → x.unissued k.job = []
  | _ => True

structure Watched (k : Outage) (whole : Prop) (w : Market) : Prop where
  lasts : k.Lasts (dispatch w.db)
  one : ∀ p q, Sweeping w p → Sweeping w q → p = q
  aware : ∀ p x, w.threads p = some x → k.Aware whole w.db x
  balanced : (∀ p, ¬Sweeping w p) → k.Balanced whole w.db

theorem aware_idle (aware : k.Aware whole v x) (idle : x.kind ≠ .sweep) : k.Aware whole v' x := by
  cases x with
  | checkDeliverers | recoverUnstartedJob | escalateStartedJob | notifyIssue => exact absurd rfl idle
  | recordEvent => exact absurd (recording_kind aware) idle
  | projectEvent => exact absurd (projecting_kind aware) idle
  | assignDelivererToBatch | readCandidates | readPositions | readMissing | assign =>
    exact absurd (assigning_kind aware.2) idle
  | notifyAssigned | notifyCustomers => exact absurd (assigning_kind aware) idle
  | _ => exact aware

theorem sweeps_admitted (allowed : Sweeps w m) : Admitted w m := by
  cases m with
  | spawn x => rw [allowed.1]; exact .checkDeliverers
  | _ => trivial

theorem sweeps_apart (allowed : Sweeps w m) : Apart w m := by
  cases m with
  | spawn x =>
    obtain ⟨rfl,none⟩ := allowed
    exact none
  | _ => trivial

-- One step of a process: it goes on over the same rows, or commits, or has ended.
inductive Stepped (k : Outage) (whole : Prop) (w : Market) (p : Nat) (x : Proc) : Market → Prop where
  | on (onto : k.Onto whole x y w.db) (keeps : k.Keeps x y w.db w.db) (queue : List QueueJob) :
      Stepped k whole w p x {w.goto p y with queue := queue}
  | commit (commits : k.Commits whole x y w.db db) : Stepped k whole w p x {w.goto p y with db := db}
  | done : Stepped k whole w p x w

theorem stepped (env : Env) (watched : k.Watched whole w) (found : w.threads p = some x) :
    k.Stepped whole w p x (w.move (market env) (.step p i)) := by
  have aware := watched.aware p x found
  cases next : Proc.next env x with
  | query read =>
    obtain ⟨onto,keeps⟩ := onto_query watched.lasts aware next
    rw [(step_query found next).1]
    exact .on onto keeps w.queue
  | input read =>
    obtain ⟨onto,keeps⟩ := onto_input (i := i) aware next
    rw [(step_input found next).1]
    exact .on onto keeps w.queue
  | add task y =>
    obtain ⟨onto,keeps⟩ := onto_add aware next
    rw [(step_add found next).1]
    exact .on onto keeps (w.queue ++ [task])
  | emit note y =>
    obtain ⟨onto,keeps⟩ := onto_emit aware next
    rw [(step_emit found next).1]
    exact .on onto keeps w.queue
  | done => rw [(step_done found next).1]; exact .done
  | tx body =>
    have at_tx : (market env).next x = .tx body := next
    simp only [World.move,found,World.instr,at_tx]
    cases ran : body.run w.db with
    | ok r => exact .commit (onto_commit watched.lasts aware next ran)
    | error e =>
      obtain ⟨onto,keeps⟩ := onto_error aware next ran
      exact .on onto keeps w.queue

theorem watched_on (watched : k.Watched whole w) (found : w.threads p = some x) (onto : k.Onto whole x y w.db)
    (threads : w'.threads = Function.update w.threads p (some y)) (same : w'.db = w.db)
    (one : ∀ p q, Sweeping w' p → Sweeping w' q → p = q) : k.Watched whole w' := by
  refine ⟨by rw [same]; exact watched.lasts,one,?_,?_⟩
  · intro q z at_q
    rw [threads] at at_q
    rw [same]
    rcases update_some at_q with ⟨_,rfl⟩ | ⟨_,before⟩
    · exact onto.aware
    · exact watched.aware q z before
  · intro none
    rw [same]
    by_cases sweep : x.kind = .sweep
    · exact onto.balanced sweep fun its => none p ⟨y,by rw [threads,Function.update_self],its⟩
    · refine watched.balanced ?_
      rintro q ⟨z,at_q,its⟩
      by_cases is : q = p
      · subst is; rw [found] at at_q; cases at_q; exact sweep its
      · exact none q ⟨z,by rw [threads,Function.update_of_ne is]; exact at_q,its⟩

theorem watched_commit (watched : k.Watched whole w) (found : w.threads p = some x) (commits : k.Commits whole x y w.db db)
    (one : ∀ q r, Sweeping {w.goto p y with db := db} q → Sweeping {w.goto p y with db := db} r → q = r) :
    k.Watched whole {w.goto p y with db := db} := by
  refine ⟨commits.goes.lasts,one,?_,?_⟩
  · intro q z at_q
    rcases update_some at_q with ⟨_,rfl⟩ | ⟨apart,before⟩
    · exact commits.onto.aware
    · exact aware_idle (watched.aware q z before) fun sweep =>
        apart (watched.one q p ⟨z,before,sweep⟩ ⟨x,found,commits.sweep⟩)
  · intro none
    exact commits.onto.balanced commits.sweep fun its => none p ⟨y,Function.update_self ..,its⟩

theorem watched_step (watched : k.Watched whole w) (found : w.threads p = some x) (stepped : k.Stepped whole w p x w')
    (one : ∀ q r, Sweeping w' q → Sweeping w' r → q = r) : k.Watched whole w' := by
  cases stepped with
  | on onto keeps queue => exact watched_on watched found onto rfl rfl one
  | commit commits => exact watched_commit watched found commits one
  | done => exact watched

theorem watched_move (env : Env) (watched : k.Watched whole w) (allowed : Sweeps w m) (kept : whole → k.Uninterrupted w m) :
    k.Watched whole (w.move (market env) m) := by
  have one : ∀ p q, Sweeping (w.move (market env) m) p → Sweeping (w.move (market env) m) q → p = q := fun p q =>
    one_sweep_move (sweeps_admitted allowed) (sweeps_apart allowed) watched.one
  cases m with
  | spawn x =>
    obtain ⟨rfl,none⟩ := allowed
    have balanced := watched.balanced none
    refine ⟨watched.lasts,one,?_,fun _ => balanced⟩
    intro p y found
    rcases update_some found with ⟨_,rfl⟩ | ⟨_,before⟩
    · exact balanced
    · exact watched.aware p y before
  | work n => exact allowed.elim
  | lose n => exact ⟨watched.lasts,one,watched.aware,watched.balanced⟩
  | duplicate n =>
    simp only [World.move] at one ⊢
    split at one
    · exact ⟨watched.lasts,one,watched.aware,watched.balanced⟩
    · exact watched
  | tick ms =>
    have goes : k.Goes (dispatch w.db) (dispatch (w.db.tick ms)) := goes_refl watched.lasts
    have log : Unremarked w.db (w.db.tick ms) := unremarked_rows rfl
    refine ⟨watched.lasts,one,?_,fun none => balanced_goes (watched.balanced none) goes log⟩
    intro p x found
    exact aware_later (watched.aware p x found) goes log (Nat.le_add_right ..)
  | step p i =>
    cases found : w.threads p with
    | none => simpa only [World.move,found] using watched
    | some x => exact watched_step watched found (stepped env watched found) one
  | fail p =>
    cases found : w.threads p with
    | none => simpa only [World.move,found] using watched
    | some x =>
      have onto := onto_caught (e := (market env).infrastructure) (watched.aware p x found) fun holds => kept holds x found
      simp only [World.move,found] at one ⊢
      exact watched_on watched found onto rfl rfl one
  | stop p =>
    refine ⟨watched.lasts,one,?_,?_⟩
    · intro q x found
      by_cases same : q = p
      · subst same
        simp only [World.move,Function.update_self,reduceCtorEq] at found
      · simp only [World.move,Function.update_of_ne same] at found
        exact watched.aware q x found
    · intro none
      have others : ∀ q, q ≠ p → ¬Sweeping w q := by
        rintro q apart ⟨z,found,sweep⟩
        exact none q ⟨z,by simp only [World.move,Function.update_of_ne apart]; exact found,sweep⟩
      by_cases sweeping : Sweeping w p
      · obtain ⟨x,found,sweep⟩ := sweeping
        exact aware_balanced (watched.aware p x found) sweep fun holds => kept holds x found
      · refine watched.balanced fun q => ?_
        by_cases same : q = p
        · rw [same]; exact sweeping
        · exact others q same

-- The outage begins: nobody sweeps, and nothing of it has been logged.
structure Begins (k : Outage) (w : Market) : Prop where
  threads : ∀ p, w.threads p = none
  lasts : k.Lasts (dispatch w.db)
  unsaid : k.Unsaid w.db

def Guarded (k : Outage) (whole : Prop) (w : Market) (m : MarketMove) : Prop := Sweeps w m ∧ (whole → k.Uninterrupted w m)

theorem watched_begins (begins : k.Begins w) : k.Watched whole w := by
  refine ⟨begins.lasts,?_,?_,fun _ => .inl begins.unsaid⟩
  · rintro p q ⟨x,found,_⟩
    rw [begins.threads p] at found; cases found
  · intro p x found
    rw [begins.threads p] at found; cases found

theorem watched_reached (watched : k.Watched whole start) (path : Reached (market env) (k.Guarded whole) start w) :
    k.Watched whole w := by
  induction path with
  | refl => exact watched
  | step _ allowed ih => exact watched_move env ih allowed.1 allowed.2

-- Nothing fails in the sweep of process `p`.
def Unfailing (p : Nat) : MarketMove → Prop
  | .fail q => q ≠ p
  | .stop q => q ≠ p
  | _ => True

structure Trying (k : Outage) (p : Nat) (w : Market) : Prop where
  elapsed : k.seen+DELIVERER_GRACE_MS < w.db.clock
  due : ∃ x, w.threads p = some x ∧ (k.escalations w.db = 0 → x.due k.job)

theorem trying_step (trying : k.Trying p w) (found : w.threads q = some x) (stepped : k.Stepped whole w q x w') :
    k.Trying p w' := by
  obtain ⟨elapsed,z,at_p,due⟩ := trying
  cases stepped with
  | done => exact ⟨elapsed,z,at_p,due⟩
  | on onto keeps queue =>
    refine ⟨elapsed,?_⟩
    by_cases same : p = q
    · subst same
      rw [found] at at_p
      cases at_p
      exact ⟨_,Function.update_self ..,keeps elapsed due⟩
    · exact ⟨z,(Function.update_of_ne same ..).trans at_p,due⟩
  | commit commits =>
    refine ⟨Nat.lt_of_lt_of_eq elapsed commits.clock.symm,?_⟩
    by_cases same : p = q
    · subst same
      rw [found] at at_p
      cases at_p
      exact ⟨_,Function.update_self ..,commits.keeps elapsed due⟩
    · exact ⟨z,(Function.update_of_ne same ..).trans at_p,fun none =>
        due (Nat.le_zero.mp (Nat.le_trans commits.grows.1 (Nat.le_of_eq none)))⟩

theorem trying_move (trying : k.Trying p w) (watched : k.Watched whole w) (allowed : Sweeps w m) (clean : Unfailing p m) :
    k.Trying p (w.move (market env) m) := by
  obtain ⟨elapsed,z,at_p,due⟩ := trying
  cases m with
  | spawn x =>
    obtain ⟨rfl,_⟩ := allowed
    refine ⟨elapsed,?_⟩
    by_cases same : p = w.spawned
    · subst same; exact ⟨_,Function.update_self ..,fun _ => trivial⟩
    · exact ⟨z,(Function.update_of_ne same ..).trans at_p,due⟩
  | work n => exact allowed.elim
  | lose n => exact ⟨elapsed,z,at_p,due⟩
  | duplicate n => unfold World.move; dsimp only; split <;> exact ⟨elapsed,z,at_p,due⟩
  | tick ms => exact ⟨Nat.lt_of_lt_of_le elapsed (Nat.le_add_right ..),z,at_p,due⟩
  | step q i =>
    cases found : w.threads q with
    | none => simp only [World.move,found]; exact ⟨elapsed,z,at_p,due⟩
    | some x => exact trying_step ⟨elapsed,z,at_p,due⟩ found (stepped env watched found)
  | fail q =>
    unfold World.move
    dsimp only
    split
    · exact ⟨elapsed,z,(Function.update_of_ne clean.symm ..).trans at_p,due⟩
    · exact ⟨elapsed,z,at_p,due⟩
  | stop q => exact ⟨elapsed,z,(Function.update_of_ne clean.symm ..).trans at_p,due⟩

-- A run of the sweep, after the time of grace, from `w` to `w'`, in which nothing fails.
structure Attempt (env : Env) (k : Outage) (may : Market → MarketMove → Prop) (w w' : Market) : Prop where
  idle : ∀ p, ¬Sweeping w p
  elapsed : k.seen+DELIVERER_GRACE_MS < w.db.clock
  path : Reached (market env) (fun v m => may v m ∧ Unfailing w.spawned m) (w.start .checkDeliverers) w'
  ended : ∀ p, ¬Sweeping w' p

theorem trying_reached (watched : k.Watched whole start) (trying : k.Trying p start)
    (path : Reached (market env) (fun v m => k.Guarded whole v m ∧ Unfailing p m) start w) :
    k.Watched whole w ∧ k.Trying p w := by
  induction path with
  | refl => exact ⟨watched,trying⟩
  | step _ allowed ih =>
    exact ⟨watched_move env ih.1 allowed.1.1 allowed.1.2,trying_move ih.2 ih.1 allowed.1.1 allowed.2⟩

theorem idle_undue (aware : k.Aware whole v x) (idle : x.kind ≠ .sweep) : ¬x.due k.job := by
  have empty : x.pending = [] → ¬∃ s ∈ x.pending, s.jobId = k.job := by
    rintro none ⟨s,member,_⟩
    rw [none] at member; cases member
  cases x with
  | checkDeliverers | recoverUnstartedJob | escalateStartedJob | notifyIssue => exact absurd rfl idle
  | recordEvent => exact absurd (recording_kind aware) idle
  | projectEvent => exact absurd (projecting_kind aware) idle
  | assignDelivererToBatch | readCandidates | readPositions | readMissing | assign =>
    exact absurd (assigning_kind aware.2) idle
  | notifyAssigned | notifyCustomers => exact absurd (assigning_kind aware) idle
  | _ => exact empty rfl

structure Bounded (k : Outage) (v : Database) : Prop where
  job : k.escalations v ≤ 1
  order : ∀ i, k.Carried (dispatch v) i → k.issues v i ≤ 1

structure Covered (k : Outage) (v : Database) : Prop where
  job : k.escalations v = 1
  order : ∀ i, k.Carried (dispatch v) i → k.issues v i = 1

theorem watched_bounded (watched : k.Watched False w) : k.Bounded w.db := by
  have balanced : k.Balanced False w.db := by
    by_cases sweeping : ∃ p, Sweeping w p
    · obtain ⟨p,x,found,sweep⟩ := sweeping
      exact aware_balanced (watched.aware p x found) sweep nofun
    · exact watched.balanced fun p its => sweeping ⟨p,its⟩
  rcases balanced with unsaid | told
  · exact ⟨by rw [unsaid.job]; exact Nat.zero_le _,fun i carried => by rw [unsaid.order i carried]; exact Nat.zero_le _⟩
  · exact ⟨told.job.le,told.once⟩

-- Events stay, and there is never one too many.
theorem covered_move (covered : k.Covered w.db) (watched : k.Watched False w) (allowed : Sweeps w m) :
    k.Covered (w.move (market env) m).db := by
  have bounded := watched_bounded (watched_move env watched allowed fun no => no.elim)
  have grows : k.Goes (dispatch w.db) (dispatch (w.move (market env) m).db) ∧
      k.escalations w.db ≤ k.escalations (w.move (market env) m).db ∧
      ∀ i, k.issues w.db i ≤ k.issues (w.move (market env) m).db i := by
    have still : k.Goes (dispatch w.db) (dispatch w.db) ∧ k.escalations w.db ≤ k.escalations w.db ∧
        ∀ i, k.issues w.db i ≤ k.issues w.db i := ⟨goes_refl watched.lasts,Nat.le_refl _,fun _ => Nat.le_refl _⟩
    cases m with
    | step p i =>
      cases found : w.threads p with
      | none => simpa only [World.move,found] using still
      | some x =>
        have after := stepped env (i := i) watched found
        generalize w.move (market env) (.step p i) = w' at after
        cases after with
        | done => exact still
        | on => exact still
        | commit commits => exact ⟨commits.goes,commits.grows.1,commits.grows.2⟩
    | work n => exact allowed.elim
    | duplicate n => unfold World.move; dsimp only; split <;> exact still
    | fail p => unfold World.move; dsimp only; split <;> exact still
    | spawn | lose | stop | tick => exact still
  obtain ⟨goes,job,order⟩ := grows
  refine ⟨Nat.le_antisymm bounded.job (Nat.le_trans covered.job.ge job),fun i carried => ?_⟩
  exact Nat.le_antisymm (bounded.order i carried)
    (Nat.le_trans (covered.order i (goes.carried i carried)).ge (order i))

theorem covered_reached (covered : k.Covered start.db) (watched : k.Watched False start)
    (path : Reached (market env) Sweeps start w) : k.Covered w.db := by
  suffices both : k.Covered w.db ∧ k.Watched False w from both.1
  induction path with
  | refl => exact ⟨covered,watched⟩
  | step _ allowed ih => exact ⟨covered_move ih.1 ih.2 allowed,watched_move env ih.2 allowed fun no => no.elim⟩

-- The sweep has come past the outage's deliverer without a failure.
theorem covered_attempt (watched : k.Watched True w) (attempt : k.Attempt env (k.Guarded True) w w') : k.Covered w'.db := by
  have first : k.Watched True (w.start .checkDeliverers) :=
    watched_move env (m := .spawn .checkDeliverers) watched ⟨rfl,attempt.idle⟩ fun _ => trivial
  have trying : k.Trying w.spawned (w.start .checkDeliverers) := by
    refine ⟨attempt.elapsed,_,Function.update_self ..,fun _ => trivial⟩
  obtain ⟨after,_,x,found,due⟩ := trying_reached first trying attempt.path
  have idle : x.kind ≠ .sweep := fun sweep => attempt.ended _ ⟨x,found,sweep⟩
  rcases after.balanced attempt.ended with unsaid | told
  · exact absurd (due unsaid.job) (idle_undue (after.aware _ x found) idle)
  · exact ⟨told.job,fun i carried => told.all trivial i carried List.not_mem_nil⟩

-- The job is escalated once at most, and so is each order. Where no sweep fails
-- among the events of the job's orders, the first one without a failure has them all.
theorem escalated_once {env : Env} {k : Outage} (begins : k.Begins start) :
    (∀ w, Reached (market env) Sweeps start w → k.Bounded w.db) ∧
    ∀ w w' w'', Reached (market env) (fun v m => Sweeps v m ∧ k.Uninterrupted v m) start w →
      k.Attempt env (fun v m => Sweeps v m ∧ k.Uninterrupted v m) w w' → Reached (market env) Sweeps w' w'' →
      k.Covered w''.db := by
  have guarded : ∀ v m, Sweeps v m ∧ k.Uninterrupted v m → k.Guarded True v m := fun _ _ allowed =>
    ⟨allowed.1,fun _ => allowed.2⟩
  have loose : ∀ v m, Sweeps v m → k.Guarded False v m := fun _ _ allowed => ⟨allowed,fun no => no.elim⟩
  refine ⟨fun w path => ?_,fun w w' w'' path attempt later => ?_⟩
  · exact watched_bounded (watched_reached (watched_begins begins) (reached_mono loose path))
  · have watched : k.Watched True w := watched_reached (watched_begins begins) (reached_mono guarded path)
    have whole : k.Attempt env (k.Guarded True) w w' := ⟨attempt.idle,attempt.elapsed,
      reached_mono (fun v m allowed => ⟨guarded v m allowed.1,allowed.2⟩) attempt.path,attempt.ended⟩
    have here : k.Watched False w' := by
      have before : k.Watched False w :=
        watched_reached (watched_begins begins) (reached_mono (fun v m allowed => loose v m allowed.1) path)
      have first : k.Watched False (w.start .checkDeliverers) :=
        watched_move env (m := .spawn .checkDeliverers) before ⟨rfl,attempt.idle⟩ fun no => no.elim
      exact watched_reached first (reached_mono (fun v m allowed => loose v m allowed.1.1) attempt.path)
    exact covered_reached (covered_attempt watched whole) here later

end Runs

-- A deliverer who was last seen at 0 is underway with two orders.
def adriftRows : (t : Tab) → List (Row t)
  | .user => [⟨.customer,none,false⟩,⟨.vendor,none,false⟩,⟨.deliverer,some 0,false⟩]
  | .vendorProfile => [⟨1,some 0,some 0,true,true⟩]
  | .delivererProfile => [⟨2,some 0,some 0,false,some 0⟩]
  | .order => List.replicate 2
      ⟨0,0,.inProgress,.grocery,none,some 0,none,0,none,some 0,some 0,some 0,some 0,some 0,none,some 0,some 0⟩
  | .deliveryBatch => [⟨some 0,.inProgress,0⟩]
  | .deliveryJob => [⟨some 0,0,.inProgress,0,some 0,none,some 2⟩]
  | _ => []

def adrift : Market := premises adriftRows

def absence : Outage := ⟨0,0,0,0⟩

theorem adrift_begins : absence.Begins adrift := by
  refine ⟨fun _ => rfl,⟨⟨_,_,rfl,rfl,rfl,rfl⟩,⟨_,rfl,rfl,rfl⟩,?_,?_⟩,⟨by decide +kernel,?_⟩⟩
  · intro d p found _
    match d,found with
    | 0,_ => rfl
  · intro j a found _
    match j,found with
    | 0,_ => rfl
  · intro i _
    rfl

-- A process that runs alone.
def Sole (p : Nat) : MarketMove → Prop
  | .step q _ => q = p
  | .fail q => q = p
  | .tick _ => True
  | _ => False

theorem sole_run {env : Env} {w : Market} (moves : List MarketMove) (own : ∀ m ∈ moves, Sole p m) (other : q ≠ p) :
    (w.run (market env) moves).threads q = w.threads q := by
  induction moves generalizing w with
  | nil => rfl
  | cons m rest ih =>
    refine (ih (w := w.move (market env) m) fun n member => own n (List.mem_cons_of_mem _ member)).trans ?_
    have mine := own m List.mem_cons_self
    cases m with
    | step p' i =>
      subst mine
      unfold World.move
      dsimp only
      split
      · unfold World.instr
        split
        · exact Function.update_of_ne other ..
        · split <;> exact Function.update_of_ne other ..
        · exact Function.update_of_ne other ..
        · exact Function.update_of_ne other ..
        · exact Function.update_of_ne other ..
        · rfl
      · rfl
    | fail p' =>
      subst mine
      unfold World.move
      dsimp only
      split
      · exact Function.update_of_ne other ..
      · rfl
    | tick => rfl
    | _ => exact mine.elim

theorem sole_idle {env : Env} {w : Market} (moves : List MarketMove) (own : ∀ m ∈ moves, Sole p m)
    (none : ∀ q, q ≠ p → ¬Sweeping w q) (ended : ((w.run (market env) moves).threads p).map Proc.kind ≠ some .sweep) :
    ∀ q, ¬Sweeping (w.run (market env) moves) q := by
  rintro q ⟨x,found,sweep⟩
  by_cases same : q = p
  · subst same
    rw [found] at ended
    exact ended (congrArg some sweep)
  · rw [sole_run moves own same] at found
    exact none q same ⟨x,found,sweep⟩

theorem sole_steps : ∀ m ∈ steps p n, Sole p m := by
  intro m member
  rw [List.eq_of_mem_replicate member]
  rfl

theorem start_idle {w : Market} (idle : ∀ p, ¬Sweeping w p) : ∀ q, q ≠ w.spawned → ¬Sweeping (w.start x) q := by
  rintro q apart ⟨y,found,sweep⟩
  rcases update_some found with ⟨same,_⟩ | ⟨_,before⟩
  · exact apart same
  · exact idle q ⟨y,before,sweep⟩

-- Three minutes later the sweep comes.
def noticing : Market := (adrift.move (market village) (.tick 180000)).start .checkDeliverers

theorem noticing_idle : ∀ p, ¬Sweeping (adrift.move (market village) (.tick 180000)) p := by
  rintro p ⟨x,found,_⟩
  cases found

theorem escalated_once_adrift : absence.Covered (noticing.run (market village) (steps 0 10)).db := by
  have path : Reached (market village) (fun v m => Sweeps v m ∧ absence.Uninterrupted v m) adrift
      (adrift.move (market village) (.tick 180000)) := Reached.step .refl ⟨trivial,trivial⟩
  refine (escalated_once adrift_begins).2 _ _ _ path ⟨noticing_idle,by decide +kernel,?_,?_⟩ .refl
  · exact reached_moves .refl _ (steps_moves fun _ _ _ => ⟨⟨trivial,trivial⟩,trivial⟩)
  · exact sole_idle (steps 0 10) sole_steps (start_idle noticing_idle) (by decide +kernel)

-- The job's event is inserted, the insertion of its first order's fails, and the next
-- sweep finds the job escalated.
def cutShort : Market := noticing.run (market village) (steps 0 4 ++ [.fail 0])

theorem escalation_cut_short : ¬∀ (env : Env) (k : Outage) (start w w' w'' : Market), k.Begins start →
    Reached (market env) Sweeps start w → k.Attempt env Sweeps w w' → Reached (market env) Sweeps w' w'' →
    k.Covered w''.db := by
  intro claim
  have waited : Reached (market village) Sweeps adrift (adrift.move (market village) (.tick 180000)) :=
    Reached.step .refl trivial
  have begun : Reached (market village) Sweeps adrift noticing :=
    Reached.step (m := .spawn Proc.checkDeliverers) waited ⟨rfl,noticing_idle⟩
  have failed : ∀ m ∈ steps 0 4 ++ [.fail 0], (∀ w, Sweeps w m) ∧ Sole 0 m := by
    intro m member
    rcases List.mem_append.mp member with step | last
    · rw [List.eq_of_mem_replicate step]
      exact ⟨fun _ => trivial,rfl⟩
    · rw [List.mem_singleton.mp last]
      exact ⟨fun _ => trivial,rfl⟩
  have path : Reached (market village) Sweeps adrift cutShort := reached_moves begun _ fun m member => (failed m member).1
  have idle : ∀ p, ¬Sweeping cutShort p :=
    sole_idle _ (fun m member => (failed m member).2) (start_idle noticing_idle) (by decide +kernel)
  have again : absence.Attempt village Sweeps cutShort ((cutShort.start .checkDeliverers).run (market village) (steps 1 2)) := by
    refine ⟨idle,by decide +kernel,?_,?_⟩
    · exact reached_moves .refl _ (steps_moves fun _ _ _ => ⟨trivial,trivial⟩)
    · exact sole_idle (p := 1) _ sole_steps (start_idle idle) (by decide +kernel)
  have covered := (claim village absence adrift _ _ _ adrift_begins path again .refl).order 0
  have none : absence.issues ((cutShort.start .checkDeliverers).run (market village) (steps 1 2)).db 0 = 0 := by
    decide +kernel
  have carried : absence.Carried (dispatch ((cutShort.start .checkDeliverers).run (market village) (steps 1 2)).db) 0 :=
    ⟨_,rfl,rfl⟩
  rw [covered carried] at none
  cases none

end Outage
end MesyafMarket
