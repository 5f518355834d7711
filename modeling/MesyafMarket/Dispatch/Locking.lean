import MesyafMarket.Dispatch.Guards
import MesyafMarket.Dispatch.Jobs
import MesyafMarket.Dispatch.Members

namespace MesyafMarket
open Relational OrderService DelivererAssignmentService DelivererRecoveryService

-- What a process remembers stays true: a job keeps its batch, an order that is in a
-- batch stays in it.
def remembered : LocalFacts where
  stale s _ c := SnapshotBatch s c
  orders := ReadOrders
  candidate _ _ := True

theorem remembered_respects (respects : Respects L a b) (known : remembered.Of x now a) : remembered.Of x now' b := by
  refine ⟨known.formed,known.apart,?_,?_,fun _ _ => trivial⟩
  · intro s member job was
    obtain ⟨job₁,found,same⟩ := known.stale s member job was
    obtain ⟨job₂,after,kept⟩ := respects.job _ job₁ found
    exact ⟨job₂,after,kept.trans same⟩
  · intro k orders reading e member
    obtain ⟨o,found,joined⟩ := known.orders k orders reading e member
    exact respects.order _ o k found joined

-- The processes that are left out: decisions on an order, and the removal of a profile.
def Proc.delivers : Proc → Bool
  | vendorDecide .. => false
  | readDecidedOrder .. => false
  | updateDecided .. => false
  | removeDeliverer _ => false
  | deleteProfile _ => false
  | _ => true

-- The job whose row a completion locks first.
def Proc.completes : Proc → Option Nat
  | completeDropOff jobId _ _ => some jobId
  | completeJob jobId _ => some jobId
  | _ => none

-- A completion is called for a job that is there.
structure Proc.Serves (x : Proc) (c : Dispatch) : Prop where
  delivers : x.delivers = true
  job : ∀ j, x.completes = some j → ∃ job, c.job j = some job

-- Where a process that is not a completion may go on.
structure Proc.Plainly (x : Proc) : Prop where
  delivers : x.delivers = true
  job : x.completes = none

theorem Proc.Plainly.serves (plainly : Proc.Plainly x) (c : Dispatch) : x.Serves c :=
  ⟨plainly.delivers,fun j same => by rw [plainly.job] at same; cases same⟩

theorem serves_respects (respects : Respects L a b) (serves : Proc.Serves x a) : x.Serves b := by
  refine ⟨serves.delivers,?_⟩
  intro j same
  obtain ⟨job,found⟩ := serves.job j same
  obtain ⟨job',after,_⟩ := respects.job j job found
  exact ⟨job',after⟩

section Onward
variable {env : Env}

theorem plainly_returned : Proc.Plainly (.returned reply) := ⟨rfl,rfl⟩

theorem plainly_sweepNext (rest : List StaleDeliverer) : Proc.Plainly (.sweepNext rest) := by
  induction rest with
  | nil => exact ⟨rfl,rfl⟩
  | cons d rest ih =>
    unfold Proc.sweepNext
    split
    · exact ih
    · split
      · exact ⟨rfl,rfl⟩
      · exact ⟨rfl,rfl⟩
      · exact ih

theorem plainly_closed (caller : CloseCaller) : Proc.Plainly (.closed caller) := by
  cases caller with
  | markReady => exact ⟨rfl,rfl⟩
  | expired rest => cases rest <;> exact ⟨rfl,rfl⟩
  | timer => exact ⟨rfl,rfl⟩

theorem plainly_closeFailed (caller : CloseCaller) : Proc.Plainly (.closeFailed e caller) := by
  cases caller with
  | timer => exact plainly_returned
  | markReady customerId orderId => exact plainly_closed (.markReady customerId orderId)
  | expired rest => exact plainly_closed (.expired rest)

theorem plainly_assigned (caller : AssignCaller) : Proc.Plainly (.assigned caller) := by
  cases caller with
  | worker => exact ⟨rfl,rfl⟩
  | sweep rest => exact plainly_sweepNext rest

theorem plainly_assignFailed (caller : AssignCaller) : Proc.Plainly (.assignFailed e caller) := by
  cases caller with
  | worker => exact ⟨rfl,rfl⟩
  | sweep rest => exact plainly_sweepNext rest

theorem plainly_issueNext (orders : List (Nat × Order)) : Proc.Plainly (.issueNext jobId rest orders) := by
  cases orders with
  | nil => exact plainly_sweepNext rest
  | cons => exact ⟨rfl,rfl⟩

theorem plainly_recorded (caller : RecordCaller) : Proc.Plainly (.recorded caller) := by
  cases caller with
  | decision => exact ⟨rfl,rfl⟩
  | recovered => exact ⟨rfl,rfl⟩
  | escalated jobId orders rest => exact plainly_issueNext orders
  | issue => exact ⟨rfl,rfl⟩

theorem plainly_recordFailed (caller : RecordCaller) : Proc.Plainly (.recordFailed e caller) := by
  cases caller with
  | decision => exact ⟨rfl,rfl⟩
  | recovered _ rest => exact plainly_sweepNext rest
  | escalated _ _ rest => exact plainly_sweepNext rest
  | issue _ _ _ rest => exact plainly_sweepNext rest

theorem plainly_flushed (caller : FlushCaller) : Proc.Plainly (.flushed caller) := by
  cases caller <;> exact ⟨rfl,rfl⟩

theorem plainly_notifyNext (orders : List (Nat × Order)) : Proc.Plainly (.notifyNext jobId d caller orders) := by
  cases orders with
  | nil => exact plainly_assigned caller
  | cons => exact ⟨rfl,rfl⟩

theorem plainly_afterBatching : Proc.Plainly (.afterBatching outcome customerId orderId) := by
  unfold Proc.afterBatching
  split <;> exact ⟨rfl,rfl⟩

theorem plainly_requeueNext (batches : List Nat) : Proc.Plainly (.requeueNext batches) := by
  cases batches <;> exact ⟨rfl,rfl⟩

theorem plainly_query {read : Database → Proc} (at_query : Proc.next env x = .query read) (delivers : x.delivers = true)
    (v : Database) : (read v).Plainly := by
  cases x <;> simp only [Proc.next,reduceCtorEq] at at_query
  case createOrder =>
    cases at_query
    beta_reduce
    unfold Proc.vendorOfOrder
    split
    · exact plainly_returned
    · split <;> exact ⟨rfl,rfl⟩
  case vendorMarkReady => cases at_query; exact ⟨rfl,rfl⟩
  case readReadyOrder =>
    cases at_query
    beta_reduce
    unfold Proc.readyOrder
    split
    · exact plainly_returned
    · split <;> exact ⟨rfl,rfl⟩
  case closeExpiredBatches => cases at_query; exact plainly_closed _
  case vendorDecide => cases delivers
  case readDecidedOrder => cases delivers
  case assignDelivererToBatch b caller =>
    cases at_query
    beta_reduce
    unfold Proc.batchToAssign
    split
    · split
      · exact plainly_assigned caller
      · split
        · exact ⟨rfl,rfl⟩
        · exact plainly_assigned caller
    · exact plainly_assigned caller
  case readCandidates b orders lat lng caller =>
    cases at_query
    beta_reduce
    unfold Proc.candidates
    split
    · exact plainly_assignFailed caller
    · exact ⟨rfl,rfl⟩
  case readMissing b orders lat lng deliverers redis caller =>
    cases at_query
    beta_reduce
    unfold Proc.choose
    split
    · exact ⟨rfl,rfl⟩
    · exact plainly_assigned caller
  case notifyCustomers => split at at_query <;> cases at_query
  case findStuckBatch => cases at_query; beta_reduce; split <;> exact ⟨rfl,rfl⟩
  case checkDeliverers => cases at_query; exact plainly_sweepNext _
  case escalateStartedJob d rest =>
    cases at_query
    beta_reduce
    split
    · exact plainly_sweepNext rest
    · exact ⟨rfl,rfl⟩
  case requeueStuckBatches => cases at_query; beta_reduce; split <;> exact ⟨rfl,rfl⟩
  case countFreeDeliverers => cases at_query; exact plainly_requeueNext _
  case requeue => split at at_query <;> cases at_query
  case updateProfile => cases at_query; beta_reduce; split <;> exact ⟨rfl,rfl⟩
  case removeDeliverer => cases delivers
  case promoteUserToDeliverer => cases at_query; beta_reduce; split <;> exact ⟨rfl,rfl⟩

theorem plainly_input {read : (Nat → Option Point) → Proc} (at_input : Proc.next env x = .input read) : (read i).Plainly := by
  cases x <;> simp only [Proc.next,reduceCtorEq] at at_input
  case readPositions => cases at_input; exact ⟨rfl,rfl⟩
  case flushToDb d caller =>
    cases at_input
    beta_reduce
    split
    · exact plainly_flushed caller
    · exact ⟨rfl,rfl⟩
  case notifyCustomers => split at at_input <;> cases at_input
  case requeue => split at at_input <;> cases at_input

theorem plainly_add (at_add : Proc.next env x = .add task y) : y.Plainly := by
  cases x <;> simp only [Proc.next,reduceCtorEq] at at_add
  case scheduleBatchTimeout => cases at_add; exact plainly_afterBatching
  case queueAssignment b caller => cases at_add; exact plainly_closed caller
  case requeueStuckBatch => cases at_add; exact plainly_returned
  case notifyCustomers => split at at_add <;> cases at_add
  case requeue =>
    split at at_add
    · cases at_add
    · cases at_add; exact plainly_requeueNext _

theorem plainly_emit (at_emit : Proc.next env x = .emit note y) : y.Plainly := by
  cases x <;> simp only [Proc.next,reduceCtorEq] at at_emit
  case notifyNewOrder => cases at_emit; exact plainly_returned
  case notifyReady => cases at_emit; exact plainly_returned
  case notifyDecision => cases at_emit; exact plainly_returned
  case notifyAssigned j b d orders caller => cases at_emit; exact plainly_notifyNext orders
  case notifyCustomers j d orders caller =>
    split at at_emit
    · cases at_emit
    · cases at_emit; exact plainly_notifyNext _
  case notifyIssue j order orders rest => cases at_emit; exact plainly_issueNext orders
  case requeue => split at at_emit <;> cases at_emit

theorem plainly_caught (x : Proc) (e : Err) : (x.caught e).Plainly := by
  cases x with
  | scheduleBatchTimeout => exact ⟨rfl,rfl⟩
  | closeBatch _ caller => exact plainly_closeFailed caller
  | queueAssignment _ caller => exact plainly_closeFailed caller
  | recordEvent _ caller => exact plainly_recordFailed caller
  | projectEvent _ _ caller => exact plainly_recordFailed caller
  | assignDelivererToBatch _ caller => exact plainly_assignFailed caller
  | readCandidates _ _ _ _ caller => exact plainly_assignFailed caller
  | readPositions _ _ _ _ _ caller => exact plainly_assignFailed caller
  | readMissing _ _ _ _ _ _ caller => exact plainly_assignFailed caller
  | assign _ _ _ caller => exact plainly_assignFailed caller
  | notifyAssigned _ _ _ _ caller => exact plainly_assigned caller
  | notifyCustomers _ _ _ caller => exact plainly_assigned caller
  | flushToDb _ caller => cases caller <;> exact ⟨rfl,rfl⟩
  | writeLocation _ _ caller => cases caller <;> exact ⟨rfl,rfl⟩
  | checkDeliverers => exact ⟨rfl,rfl⟩
  | recoverUnstartedJob _ _ rest => exact plainly_sweepNext rest
  | escalateStartedJob _ rest => exact plainly_sweepNext rest
  | notifyIssue _ _ _ rest => exact plainly_sweepNext rest
  | _ => exact plainly_returned

end Onward

-- What a process knows.
structure Knows (x : Proc) (now : Nat) (c : Dispatch) : Prop where
  remembered : remembered.Of x now c
  serves : x.Serves c

theorem knows_respects (respects : Respects L a b) (knows : Knows x now a) : Knows x now' b :=
  ⟨remembered_respects respects knows.remembered,serves_respects respects knows.serves⟩

def locking : Protocol Row Key Proc where
  inv T db := Linked Tight (dispatch db) ∧ ∀ t i, T (.row t i) → i < db.seq t
  fact x _ db := Knows x db.clock (dispatch db)
  change := Altering
  takes := Takes
  ends _ _ _ _ := True
  change_idle idles := .of_rows idles.rows
  change_trans first second := first.trans second
  change_more wider alters := alters.more wider
  inv_idle idles inv :=
    ⟨by rw [dispatch_rows idles.rows]; exact inv.1,fun t i held => Nat.lt_of_lt_of_le (inv.2 t i held) (idles.seq t)⟩
  inv_fewer fewer inv := ⟨inv.1,fun t i held => inv.2 t i (fewer _ held)⟩
  inv_take takes inv := by
    refine ⟨inv.1,fun t i held => ?_⟩
    rcases held with before | asked
    · exact Nat.lt_of_lt_of_le (inv.2 t i before) (Nat.le_max_left _ _)
    · exact takes.drawn t i asked
  fact_idle idles known := knows_respects (Altering.of_rows (L := fun _ => True) idles.rows).respects known
  fact_fewer _ known := known
  fact_take _ _ known := known
  fact_change _ _ alters known := knows_respects alters.respects known

-- A transaction in the middle: what is committed and what it sees are linked.
structure Midway (loose : Nat → Prop) (h : List MarketLock) (w : Writes Row) (db : Database) : Prop where
  committed : Linked Tight (dispatch db)
  view : Linked loose (dispatch (db.apply w))
  respects : Respects (· ∈ h) (dispatch db) (dispatch (db.apply w))

section Rules
variable {x y : Proc} {loose wider : Nat → Prop} {h : List MarketLock} {w : Writes Row} {db later : Database}

theorem midway_stable : locking.Stable x (Midway loose) := by
  intro T h w db later midway sees
  exact ⟨sees.inv.1,linked_merged sees.locked sees.changed midway.respects sees.inv.1 midway.view,
    (altering_merged sees.locked sees.changed midway.respects).respects⟩

theorem midway_start (linked : Linked Tight (dispatch db)) : Midway Tight [] .none db := by
  refine ⟨linked,?_,?_⟩
  · rw [Db.apply_none]; exact linked
  · rw [Db.apply_none]; exact .refl

-- One statement more.
theorem midway_next {e : Effect Row Key} (midway : Midway loose h w db)
    (step : Linked wider (dispatch ((db.apply w).apply e.writes)) ∧
      Respects (· ∈ h ++ e.locks) (dispatch (db.apply w)) (dispatch ((db.apply w).apply e.writes))) :
    Midway wider (h ++ e.locks) (w.over e.writes) (db.reserve e.writes) := by
  have same : dispatch ((db.reserve e.writes).apply (w.over e.writes)) = dispatch ((db.apply w).apply e.writes) := by
    rw [← Db.apply_over]
    exact dispatch_rows rfl
  refine ⟨midway.committed,?_,?_⟩
  · rw [same]; exact step.1
  · rw [same]
    exact (midway.respects.more fun _ => List.mem_append_left _).trans step.2

theorem midway_commits (midway : Midway Tight h w db) (carries : Carries x y) (plainly : y.Plainly) : locking.Commits x y h w db := by
  intro T later sees
  have after := midway_stable T h w db later midway sees
  have alters := altering_merged sees.locked sees.changed midway.respects
  exact ⟨⟨after.view,fun t i held => Nat.lt_of_lt_of_le (sees.inv.2 t i held) (Nat.le_max_left _ _)⟩,alters,
    ⟨facts_carried (remembered_respects alters.respects sees.fact.remembered) carries,plainly.serves _⟩,trivial⟩

-- The locks of a transaction that goes on are sheltered.
def Working (loose : Nat → Prop) (h : List MarketLock) (w : Writes Row) (db : Database) : Prop :=
  Midway loose h w db ∧ Sheltered h (dispatch db)

theorem working_stable : locking.Stable x (Working loose) := by
  intro T h w db later working sees
  exact ⟨midway_stable T h w db later working.1 sees,sheltered_sees sees.changed working.1.committed working.2⟩

theorem sheltered_nil : Sheltered [] c := ⟨by simp,by simp,by simp⟩

end Rules

section Asking
variable {h : List MarketLock} {w : Writes Row} {db : Database} {t : Tab}

theorem ofBatch_unique (part : OfBatch c b k) (part' : OfBatch c b' k) : b = b' := by
  cases part with
  | batch => cases part'; rfl
  | order found joined =>
    cases part' with
    | order found' joined' =>
      cases found.symm.trans found'
      exact Option.some.inj (joined.symm.trans joined')
  | stop found part same =>
    cases part' with
    | stop found' part' same' =>
      cases found.symm.trans found'
      cases part.symm.trans part'
      exact same.symm.trans same'

-- Locks that may be asked for are sheltered.
theorem sheltered_asked (sheltered : Sheltered h (dispatch db)) (asks : ∀ k ∈ ks, MayAsk h db k) :
    Sheltered (h ++ ks) (dispatch db) := by
  refine ⟨?_,?_,?_⟩
  · intro b held
    refine List.mem_append_left _ ?_
    rcases List.mem_append.mp held with before | new
    · exact sheltered.joins b before
    · cases asks _ new with
      | held member => exact sheltered.joins b member
      | joins guard => exact guard
      | guarded part => cases part
  · intro j held
    refine List.mem_append_left _ ?_
    rcases List.mem_append.mp held with before | new
    · exact sheltered.active j before
    · cases asks _ new with
      | held member => exact sheltered.active j member
      | active guard => exact guard
      | guarded part => cases part
  · intro k held b part
    refine owns_more (fun _ => List.mem_append_left _) ?_
    rcases List.mem_append.mp held with before | new
    · exact sheltered.batch k before b part
    · cases asks k new with
      | held member => exact sheltered.batch k member b part
      | fresh above =>
        have absent := db.bounded _ _ above
        cases part with
        | batch found => cases absent.symm.trans found
        | order found => cases absent.symm.trans found
        | stop found => cases absent.symm.trans found
      | guarded part' owns => rw [ofBatch_unique part part']; exact owns
      | joins | active | deliverer | job | batching => cases part

theorem sheltered_first (outside : ∀ k ∈ ks, ∀ b, ¬OfBatch c b k) (joins : ∀ b, .key (.joins b) ∉ ks)
    (active : ∀ j, .key (.activeJob j) ∉ ks) : Sheltered ks c :=
  ⟨fun b held => absurd held (joins b),fun j held => absurd held (active j),
    fun k held b part => absurd part (outside k held b)⟩

theorem working_next {e : Effect Row Key} (working : Working loose h w db) (asks : ∀ k ∈ e.locks, MayAsk h db k)
    (step : Linked wider (dispatch ((db.apply w).apply e.writes)) ∧
      Respects (· ∈ h ++ e.locks) (dispatch (db.apply w)) (dispatch ((db.apply w).apply e.writes))) :
    Working wider (h ++ e.locks) (w.over e.writes) (db.reserve e.writes) :=
  ⟨midway_next working.1 step,show Sheltered _ (dispatch db) from sheltered_asked working.2 asks⟩

def Drawn (db : Database) (e : Effect Row Key) : Prop := ∀ t i, .row t i ∈ e.locks → i < (db.reserve e.writes).seq t

theorem drawn_none : Drawn db .none := by simp [Drawn,Effect.none]

theorem drawn_updates {p : Nat → Row t → Bool} {f : Row t → Row t} {extra : List MarketLock}
    (keys : ∀ k ∈ extra, ∃ key, k = .key key) : Drawn db (Tx.updatesEffect (db.apply w) t p f extra) := by
  intro t' i member
  rcases List.mem_append.mp member with row | key
  · obtain ⟨entry,hit,same⟩ := List.mem_map.mp row
    cases same
    have below := (db.apply w).below ((db.apply w).mem_matching.mp hit).1
    have drawn : (db.reserve ((db.apply w).updates t p f)).seq t = max (db.seq t) ((db.apply w).seq t) := by
      simp [Db.reserve,Db.updates,Writes.onTable]
    show _ < (db.reserve ((db.apply w).updates t p f)).seq t
    omega
  · obtain ⟨_,same⟩ := keys _ key
    cases same

theorem drawn_deletes {p : Nat → Row t → Bool} : Drawn db (Tx.deletesEffect (db.apply w) t p) := by
  intro t' i member
  obtain ⟨entry,hit,same⟩ := List.mem_map.mp member
  cases same
  have below := (db.apply w).below ((db.apply w).mem_matching.mp hit).1
  have drawn : (db.reserve ((db.apply w).deletes t p)).seq t = max (db.seq t) ((db.apply w).seq t) := by
    simp [Db.reserve,Db.deletes,Writes.onTable]
  show _ < (db.reserve ((db.apply w).deletes t p)).seq t
  omega

theorem drawn_inserts {new : List (Row t)} {extra : List MarketLock} (keys : ∀ k ∈ extra, ∃ key, k = .key key) :
    Drawn db (Tx.insertsEffect (db.apply w) t new extra) := by
  intro t' i member
  rcases List.mem_append.mp member with row | key
  · obtain ⟨n,inside,same⟩ := List.mem_map.mp row
    cases same
    have bound := List.mem_range.mp inside
    have drawn : (db.reserve ((db.apply w).inserts t new)).seq t = max (db.seq t) ((db.apply w).seq t+new.length) := by
      simp [Db.reserve,Db.inserts,Writes.onTable]
    show _ < (db.reserve ((db.apply w).inserts t new)).seq t
    omega
  · obtain ⟨_,same⟩ := keys _ key
    cases same

theorem asks_updates {p : Nat → Row t → Bool} {f : Row t → Row t} {extra : List MarketLock}
    (rows : ∀ i row, (db.apply w).rows t i = some row → p i row = true → MayAsk h db (.row t i))
    (keys : ∀ k ∈ extra, MayAsk h db k) : ∀ k ∈ (Tx.updatesEffect (db.apply w) t p f extra).locks, MayAsk h db k := by
  intro k member
  rcases List.mem_append.mp member with row | key
  · obtain ⟨entry,hit,rfl⟩ := List.mem_map.mp row
    obtain ⟨found,holds⟩ := (db.apply w).mem_matching.mp hit
    exact rows entry.1 entry.2 found holds
  · exact keys k key

theorem asks_deletes {p : Nat → Row t → Bool}
    (rows : ∀ i row, (db.apply w).rows t i = some row → p i row = true → MayAsk h db (.row t i)) :
    ∀ k ∈ (Tx.deletesEffect (db.apply w) t p).locks, MayAsk h db k := by
  intro k member
  obtain ⟨entry,hit,rfl⟩ := List.mem_map.mp member
  obtain ⟨found,holds⟩ := (db.apply w).mem_matching.mp hit
  exact rows entry.1 entry.2 found holds

-- New rows get ids that nobody has.
theorem asks_inserts {new : List (Row t)} : ∀ k ∈ (Tx.insertsEffect (db.apply w) t new []).locks, MayAsk h db k := by
  intro k member
  rcases List.mem_append.mp member with row | key
  · obtain ⟨n,_,rfl⟩ := List.mem_map.mp row
    exact .fresh ((Nat.le_max_left _ _).trans (Nat.le_add_right _ _))
  · cases key

-- A statement that a transaction comes to with what it knows of its locks and writes.
theorem safe_step {x : Proc} {A : Mark Row Key} {effect : Database → Effect Row Key} {next : Database → Transaction α}
    {Q : α → Mark Row Key} (stable : locking.Stable x A) (working : Working loose h w db) (known : A h w db)
    (step : ∀ T db, Working loose h w db → A h w db → locking.Sees x T h w db db → ∀ e, e = effect (db.apply w) →
      (∀ k ∈ e.locks, MayAsk h db k) ∧ Drawn db e ∧
        (next (db.apply w)).Safe locking x Q (h ++ e.locks) (w.over e.writes) (db.reserve e.writes)) :
    (Tx.stmt effect next).Safe locking x Q h w db := by
  refine safe_stmt (stable_and working_stable stable) ⟨working,known⟩ ?_
  rintro T now ⟨working,known⟩ sees
  obtain ⟨asks,drawn,rest⟩ := step T now working known sees _ rfl
  exact ⟨⟨fun _ => ⟨working.2,asks⟩,drawn⟩,rest⟩

-- The first statement of a transaction waits for nobody who waits for it.
theorem safe_first {x : Proc} {effect : Database → Effect Row Key} {next : Database → Transaction α} {Q : α → Mark Row Key}
    (linked : Linked Tight (dispatch db))
    (step : ∀ T db, Linked Tight (dispatch db) → locking.Sees x T [] .none db db → Drawn db (effect db) ∧
      (next db).Safe locking x Q (effect db).locks (effect db).writes (db.reserve (effect db).writes)) :
    (Tx.stmt effect next).Safe locking x Q [] .none db := by
  refine safe_stmt (midway_stable (x := x)) (midway_start linked) ?_
  intro T now midway sees
  obtain ⟨drawn,rest⟩ := step T now midway.committed sees
  rw [Db.apply_none,Writes.none_over,List.nil_append]
  exact ⟨⟨fun no => absurd rfl no,drawn⟩,rest⟩

theorem working_first {e : Effect Row Key} (linked : Linked Tight (dispatch db)) (sheltered : Sheltered e.locks (dispatch db))
    (links : Linked wider (dispatch (db.apply e.writes)) ∧ Respects (· ∈ e.locks) (dispatch db) (dispatch (db.apply e.writes))) :
    Working wider e.locks e.writes (db.reserve e.writes) := by
  have same : dispatch ((db.reserve e.writes).apply e.writes) = dispatch (db.apply e.writes) := dispatch_rows rfl
  refine ⟨⟨linked,?_,?_⟩,sheltered⟩
  · rw [same]; exact links.1
  · rw [same]; exact links.2

end Asking
end MesyafMarket
