import MesyafMarket.Dispatch.Bodies
import MesyafMarket.Relational.Overlay

namespace MesyafMarket
open Relational OrderService DelivererAssignmentService

def DeliveryJob.Begun (job : DeliveryJob) : Prop := job.status = .inProgress ∨ job.status = .completed

-- What may still become of a job that has been started.
structure DeliveryJob.Onward (job job' : DeliveryJob) : Prop where
  batch : job'.batchId = job.batchId
  deliverer : job'.delivererId = job.delivererId
  started : job'.startedAt = job.startedAt
  status : job'.status = job.status ∨ job'.status = .completed

variable {job job' job₁ job₂ : DeliveryJob}

theorem DeliveryJob.Onward.refl (job : DeliveryJob) : job.Onward job := ⟨rfl,rfl,rfl,.inl rfl⟩

theorem DeliveryJob.Onward.trans (first : job.Onward job₁) (second : job₁.Onward job₂) : job.Onward job₂ := by
  refine ⟨second.batch.trans first.batch,second.deliverer.trans first.deliverer,second.started.trans first.started,?_⟩
  rcases second.status with same | completed
  · rw [same]; exact first.status
  · exact .inr completed

theorem DeliveryJob.Onward.begun (onward : job.Onward job') (begun : job.Begun) : job'.Begun := by
  rcases onward.status with same | completed
  · unfold DeliveryJob.Begun at begun ⊢
    rw [same]; exact begun
  · exact .inr completed

-- A job is COMPLETED exactly when all of its stops are. None of them is before the job
-- has been started; the order of a completed stop is COMPLETED, and so are all orders
-- of a COMPLETED job.
structure TalliedAt (j : Nat) (c : Dispatch) : Prop where
  all : ∀ job, c.job j = some job →
    (job.status = .completed ↔ ∀ s stop, c.stop s = some stop → stop.jobId = j → stop.status = .completed)
  begun : ∀ s stop, c.stop s = some stop → stop.jobId = j → stop.status = .completed →
    ∃ job, c.job j = some job ∧ job.Begun
  carried : ∀ s stop job, c.stop s = some stop → stop.jobId = j → c.job j = some job → job.status ≠ .pending →
    ∃ o, c.order stop.orderId = some o ∧ o.deliveryJobId = some j ∧ (stop.status = .completed → o.status = .completed)
  orders : ∀ i o job, c.job j = some job → job.status = .completed → c.order i = some o → o.deliveryJobId = some j →
    o.status = .completed

def Tallied (c : Dispatch) : Prop := ∀ j, TalliedAt j c

-- What a transaction that holds the locks `L` may make of the jobs' stops and orders:
-- they are written under the lock on their job.
structure Tends (L : MarketLock → Prop) (a b : Dispatch) : Prop where
  job : ∀ j job, a.job j = some job → job.Begun → ∃ job', b.job j = some job' ∧ job.Onward job'
  stop : ∀ s, b.stop s = a.stop s ∨ ((∀ stop, a.stop s = some stop → L (.row .deliveryJob stop.jobId)) ∧
    ∀ stop, b.stop s = some stop → L (.row .deliveryJob stop.jobId))
  order : ∀ i, b.order i = a.order i ∨ ((∀ o j, a.order i = some o → o.deliveryJobId = some j → L (.row .deliveryJob j)) ∧
    ∀ o j, b.order i = some o → o.deliveryJobId = some j → L (.row .deliveryJob j))

variable {L L' : MarketLock → Prop} {a b c : Dispatch}

theorem Tends.refl : Tends L a a := ⟨fun _ job found _ => ⟨job,found,.refl job⟩,fun _ => .inl rfl,fun _ => .inl rfl⟩

theorem Tends.trans (first : Tends L a b) (second : Tends L b c) : Tends L a c := by
  refine ⟨?_,?_,?_⟩
  · intro j job found begun
    obtain ⟨job₁,at_b,onward₁⟩ := first.job j job found begun
    obtain ⟨job₂,at_c,onward₂⟩ := second.job j job₁ at_b (onward₁.begun begun)
    exact ⟨job₂,at_c,onward₁.trans onward₂⟩
  · intro s
    rcases first.stop s with same₁ | ⟨before,middle⟩
    · rw [← same₁]; exact second.stop s
    · rcases second.stop s with same₂ | ⟨_,after⟩
      · rw [same₂]; exact .inr ⟨before,middle⟩
      · exact .inr ⟨before,after⟩
  · intro i
    rcases first.order i with same₁ | ⟨before,middle⟩
    · rw [← same₁]; exact second.order i
    · rcases second.order i with same₂ | ⟨_,after⟩
      · rw [same₂]; exact .inr ⟨before,middle⟩
      · exact .inr ⟨before,after⟩

theorem Tends.more (wider : ∀ k, L k → L' k) (tends : Tends L a b) : Tends L' a b := by
  refine ⟨tends.job,?_,?_⟩
  · intro s
    rcases tends.stop s with same | ⟨before,after⟩
    · exact .inl same
    · exact .inr ⟨fun stop found => wider _ (before stop found),fun stop found => wider _ (after stop found)⟩
  · intro i
    rcases tends.order i with same | ⟨before,after⟩
    · exact .inl same
    · exact .inr ⟨fun o j found part => wider _ (before o j found part),fun o j found part => wider _ (after o j found part)⟩

-- The job with its stops and the orders that carry it is the same.
structure SameOwn (j : Nat) (a b : Dispatch) : Prop where
  job : b.job j = a.job j
  stop : ∀ s stop, stop.jobId = j → (b.stop s = some stop ↔ a.stop s = some stop)
  order : ∀ i o, o.deliveryJobId = some j → (b.order i = some o ↔ a.order i = some o)

theorem sameOwn_rows (job : b.job = a.job) (stop : b.stop = a.stop) (order : b.order = a.order) : SameOwn j a b :=
  ⟨by rw [job],fun _ _ _ => by rw [stop],fun _ _ _ => by rw [order]⟩

theorem talliedAt_own (same : SameOwn j a b) (tallied : TalliedAt j a) : TalliedAt j b := by
  refine ⟨?_,?_,?_,?_⟩
  · intro job found
    rw [same.job] at found
    rw [tallied.all job found]
    exact ⟨fun all s stop at_s part => all s stop ((same.stop s stop part).mp at_s) part,
      fun all s stop at_s part => all s stop ((same.stop s stop part).mpr at_s) part⟩
  · intro s stop at_s part completed
    rw [same.job]
    exact tallied.begun s stop ((same.stop s stop part).mp at_s) part completed
  · intro s stop job at_s part found begun
    rw [same.job] at found
    obtain ⟨o,at_o,carries,done⟩ := tallied.carried s stop job ((same.stop s stop part).mp at_s) part found begun
    exact ⟨o,(same.order _ o carries).mpr at_o,carries,done⟩
  · intro i o job found completed at_o carries
    rw [same.job] at found
    exact tallied.orders i o job found completed ((same.order i o carries).mp at_o) carries

-- A job that nobody has locked is left as it is.
theorem own_apart (row : b.job j = a.job j) (tends : Tends L a b) (free : ¬L (.row .deliveryJob j)) : SameOwn j a b := by
  refine ⟨row,?_,?_⟩
  · intro s stop part
    rcases tends.stop s with same | ⟨before,after⟩
    · rw [same]
    · constructor
      · intro found
        exact absurd (after stop found) (by rw [part]; exact free)
      · intro found
        exact absurd (before stop found) (by rw [part]; exact free)
  · intro i o carries
    rcases tends.order i with same | ⟨before,after⟩
    · rw [same]
    · exact ⟨fun found => absurd (after o j found carries) free,fun found => absurd (before o j found carries) free⟩

def jobDone (c : Dispatch) (j : Nat) : Bool := (c.job j).any fun job => job.status = .completed

def stopDone (c : Dispatch) (s : Nat) : Bool := (c.stop s).any fun stop => stop.status = .completed

theorem stopDone_some (done : stopDone c s = true) : ∃ stop, c.stop s = some stop ∧ stop.status = .completed := by
  unfold stopDone at done
  cases found : c.stop s with
  | none => rw [found] at done; cases done
  | some stop => rw [found] at done; exact ⟨stop,rfl,of_decide_eq_true done⟩

-- The job that a call of completeDropOff reports as completed, and the stop that it is about.
def Proc.reports : Proc → Proc → Option Nat
  | completeDropOff jobId _ _,flushToDb _ (.afterJob (.jobCompleted true)) => some jobId
  | _,_ => none

def Proc.dropsOff : Proc → Option Nat
  | completeDropOff _ dropOffId _ => some dropOffId
  | _ => none

-- An assignment is of at least one order.
def stocked : LocalFacts where
  stale _ _ _ := True
  orders _ orders _ := orders ≠ []
  candidate _ _ := True

-- completeJob, which no request reaches.
def Proc.finishes : Proc → Bool
  | completeJob .. => true
  | _ => false

structure Tallies (x : Proc) (now : Nat) (c : Dispatch) : Prop where
  stocked : stocked.Of x now c
  delivers : x.delivers = true
  drops : x.finishes = false

theorem tallies_any (tallies : Tallies x now a) : Tallies x now' b :=
  ⟨⟨tallies.stocked.formed,tallies.stocked.apart,fun _ _ => trivial,tallies.stocked.orders,fun _ _ => trivial⟩,
    tallies.delivers,tallies.drops⟩

def tallying : Overlay Row Key Proc where
  inv db := Tallied (dispatch db)
  fact x db := Tallies x db.clock (dispatch db)
  change L a b := Tends L (dispatch a) (dispatch b)
  ends x y a b :=
    (∀ j, Once (jobDone (dispatch a) j) (jobDone (dispatch b) j) (x.reports y = some j)) ∧
      ∀ s, Once (stopDone (dispatch a) s) (stopDone (dispatch b) s) (x.dropsOff = some s)
  change_idle idles := by rw [dispatch_rows idles.rows]; exact .refl
  change_trans first second := first.trans second
  change_more wider tends := tends.more wider
  inv_idle idles inv := by rw [dispatch_rows idles.rows]; exact inv
  fact_idle _ known := tallies_any known
  fact_change _ known := tallies_any known

-- The jobs that a transaction may write to, with all that it has written.
structure Footprint (own : Nat → Prop) (h : List MarketLock) (w : Writes Row) (db : Database) : Prop where
  held : ∀ j, own j → .row .deliveryJob j ∈ h
  job : ∀ j, w.rows .deliveryJob j ≠ none → own j
  stop : ∀ s, w.rows .deliveryDropOff s ≠ none → (∀ stop, (dispatch db).stop s = some stop → own stop.jobId) ∧
    ∀ stop, (dispatch (db.apply w)).stop s = some stop → own stop.jobId
  order : ∀ i, w.rows .order i ≠ none → (∀ o j, (dispatch db).order i = some o → o.deliveryJobId = some j → own j) ∧
    ∀ o j, (dispatch (db.apply w)).order i = some o → o.deliveryJobId = some j → own j

-- The same of one statement on the rows that it finds.
structure Within (own : Nat → Prop) (v : Database) (e : Effect Row Key) : Prop where
  job : ∀ j, e.writes.rows .deliveryJob j ≠ none → own j
  stop : ∀ s, e.writes.rows .deliveryDropOff s ≠ none → (∀ stop, (dispatch v).stop s = some stop → own stop.jobId) ∧
    ∀ stop, (dispatch (v.apply e.writes)).stop s = some stop → own stop.jobId
  order : ∀ i, e.writes.rows .order i ≠ none → (∀ o j, (dispatch v).order i = some o → o.deliveryJobId = some j → own j) ∧
    ∀ o j, (dispatch (v.apply e.writes)).order i = some o → o.deliveryJobId = some j → own j

section Footprints
variable {own wider : Nat → Prop} {h : List MarketLock} {w : Writes Row} {db later : Database} {x : Proc}

theorem footprint_start : Footprint (fun _ => False) [] .none db :=
  ⟨fun _ no => no.elim,fun _ no => absurd rfl no,fun _ no => absurd rfl no,fun _ no => absurd rfl no⟩

theorem unwritten_rows {t : Tab} (unwritten : w.rows t i = none) : (db.apply w).rows t i = db.rows t i := by
  simp [unwritten]

theorem footprint_stable : locking.Stable x (Footprint own) := by
  intro T h w db later foot sees
  have kept : ∀ t i, w.rows t i ≠ none → later.rows t i = db.rows t i ∧ (later.apply w).rows t i = (db.apply w).rows t i := by
    intro t i written
    cases merged sees.locked sees.changed t i with
    | own _ after before => exact ⟨before,after⟩
    | others after before =>
      have same := sees.changed.rows t i (not_not.mpr (sees.locked t i written))
      exact ⟨same,after.trans (same.trans before.symm)⟩
  refine ⟨foot.held,foot.job,?_,?_⟩
  · intro s written
    obtain ⟨before,after⟩ := kept .deliveryDropOff s written
    obtain ⟨committed,view⟩ := foot.stop s written
    exact ⟨fun stop found => committed stop (before.symm.trans found),fun stop found => view stop (after.symm.trans found)⟩
  · intro i written
    obtain ⟨before,after⟩ := kept .order i written
    obtain ⟨committed,view⟩ := foot.order i written
    exact ⟨fun o j found => committed o j (before.symm.trans found),fun o j found => view o j (after.symm.trans found)⟩

theorem footprint_next {e : Effect Row Key} (foot : Footprint own h w db) (more : ∀ j, own j → wider j)
    (held : ∀ j, wider j → .row .deliveryJob j ∈ h ++ e.locks) (within : Within wider (db.apply w) e) :
    Footprint wider (h ++ e.locks) (w.over e.writes) (db.reserve e.writes) := by
  have written : ∀ {t i}, (w.over e.writes).rows t i ≠ none → w.rows t i ≠ none ∨ e.writes.rows t i ≠ none := by
    intro t i both
    by_cases mine : w.rows t i = none
    · refine .inr fun no => both ?_
      simp [Writes.over,no,mine]
    · exact .inl mine
  have still : ∀ {t i}, e.writes.rows t i = none → ((db.apply w).apply e.writes).rows t i = (db.apply w).rows t i := by
    intro t i no
    exact unwritten_rows no
  refine ⟨held,?_,?_,?_⟩
  · intro j both
    rcases written both with mine | new
    · exact more j (foot.job j mine)
    · exact within.job j new
  · intro s both
    rw [dispatch_own]
    by_cases mine : w.rows .deliveryDropOff s = none
    · have new := (written both).resolve_left (not_not.mpr mine)
      obtain ⟨before,after⟩ := within.stop s new
      exact ⟨fun stop found => before stop ((unwritten_rows mine).trans found),after⟩
    · obtain ⟨committed,view⟩ := foot.stop s mine
      refine ⟨fun stop found => more _ (committed stop found),?_⟩
      intro stop found
      by_cases new : e.writes.rows .deliveryDropOff s = none
      · exact more _ (view stop ((still new).symm.trans found))
      · exact (within.stop s new).2 stop found
  · intro i both
    rw [dispatch_own]
    by_cases mine : w.rows .order i = none
    · have new := (written both).resolve_left (not_not.mpr mine)
      obtain ⟨before,after⟩ := within.order i new
      exact ⟨fun o j found => before o j ((unwritten_rows mine).trans found),after⟩
    · obtain ⟨committed,view⟩ := foot.order i mine
      refine ⟨fun o j found part => more _ (committed o j found part),?_⟩
      intro o j found part
      by_cases new : e.writes.rows .order i = none
      · exact more _ (view o j ((still new).symm.trans found) part)
      · exact (within.order i new).2 o j found part

-- What the transaction has written is its own, and the other jobs are as they were.
theorem footprint_apart (foot : Footprint own h w db) (other : ¬own j) :
    SameOwn j (dispatch db) (dispatch (db.apply w)) := by
  refine ⟨?_,?_,?_⟩
  · exact unwritten_rows (not_not.mp fun written => other (foot.job j written))
  · intro s stop part
    by_cases written : w.rows .deliveryDropOff s = none
    · exact iff_of_eq (congrArg (· = some stop) (unwritten_rows (t := .deliveryDropOff) written))
    · obtain ⟨committed,view⟩ := foot.stop s written
      exact ⟨fun found => absurd (view stop found) (by rw [part]; exact other),
        fun found => absurd (committed stop found) (by rw [part]; exact other)⟩
  · intro i o carries
    by_cases written : w.rows .order i = none
    · exact iff_of_eq (congrArg (· = some o) (unwritten_rows (t := .order) written))
    · obtain ⟨committed,view⟩ := foot.order i written
      exact ⟨fun found => absurd (view o j found carries) other,fun found => absurd (committed o j found carries) other⟩

end Footprints
abbrev completion : Protocol Row Key Proc := locking.over tallying

section Owners
variable {x y : Proc} {j b : Nat} {loose : Nat → Prop} {h : List MarketLock} {w : Writes Row} {db later : Database} {P : Dispatch → Dispatch → Prop}

theorem own_sees (foot : Footprint (· = j) h w db) (sees : completion.Sees x T h w db later) :
    SameOwn j (dispatch db) (dispatch later) ∧ SameOwn j (dispatch (db.apply w)) (dispatch (later.apply w)) := by
  have held := foot.held j rfl
  have committed : SameOwn j (dispatch db) (dispatch later) :=
    own_apart (sees.changed.1.rows .deliveryJob j (not_not.mpr held)) sees.changed.2 (not_not.mpr held)
  have mine : ∀ {t i version}, w.rows t i = some version → (later.apply w).rows t i = (db.apply w).rows t i := by
    intro t i version written
    simp [written]
  refine ⟨committed,?_,?_,?_⟩
  · show (later.apply w).rows .deliveryJob j = (db.apply w).rows .deliveryJob j
    cases written : w.rows .deliveryJob j with
    | some version => exact mine written
    | none => rw [unwritten_rows written,unwritten_rows written]; exact committed.job
  · intro s stop part
    show (later.apply w).rows .deliveryDropOff s = some stop ↔ (db.apply w).rows .deliveryDropOff s = some stop
    cases written : w.rows .deliveryDropOff s with
    | some version => rw [mine written]
    | none => rw [unwritten_rows written,unwritten_rows written]; exact committed.stop s stop part
  · intro i o carries
    show (later.apply w).rows .order i = some o ↔ (db.apply w).rows .order i = some o
    cases written : w.rows .order i with
    | some version => rw [mine written]
    | none => rw [unwritten_rows written,unwritten_rows written]; exact committed.order i o carries

-- What is said of the job, its stops and its orders only.
def Private (j : Nat) (P : Dispatch → Dispatch → Prop) : Prop :=
  ∀ a a' b b', SameOwn j a a' → SameOwn j b b' → P a b → P a' b'

-- The job of the batch `b` is `j`, also when the transaction is about to insert it.
def Sole (j b : Nat) (h : List MarketLock) (c : Dispatch) : Prop :=
  (∃ job, c.job j = some job ∧ job.batchId = b) ∨
    (c.job j = none ∧ .key (.jobOfBatch b) ∈ h ∧ ∀ i job, c.job i = some job → job.batchId ≠ b)

theorem sole_unique (linked : Linked loose c) (sole : Sole j b h c) (found : c.job i = some job) (same : job.batchId = b) :
    i = j := by
  rcases sole with ⟨own,at_j,own_batch⟩ | ⟨_,_,others⟩
  · exact linked.unique i j job own found at_j (same.trans own_batch.symm)
  · exact absurd same (others i job found)

theorem sole_sees (held : .row .deliveryJob j ∈ h) (others : Altering (· ∉ h) db later) (sole : Sole j b h (dispatch db)) :
    Sole j b h (dispatch later) := by
  have same := job_sees others held
  rcases sole with ⟨job,found,own⟩ | ⟨none,key,free⟩
  · exact .inl ⟨job,same.trans found,own⟩
  · refine .inr ⟨same.trans none,key,?_⟩
    intro i job found own
    cases before : (dispatch db).job i with
    | none => exact others.respects.fresh i job found before (by rw [own]; exact key)
    | some old =>
      obtain ⟨job',after,kept⟩ := others.respects.job i old before
      cases found.symm.trans after
      exact free i old before (kept.symm.trans own)

-- A transaction that has the job `j` of the batch `b` alone, with what it knows of the
-- committed rows and of its own view.
structure Owning (j b : Nat) (P : Dispatch → Dispatch → Prop) (h : List MarketLock) (w : Writes Row) (db : Database) : Prop where
  foot : Footprint (· = j) h w db
  sole : Sole j b h (dispatch db)
  known : P (dispatch db) (dispatch (db.apply w))

theorem owning_stable (about : Private j P) : completion.Stable x (Owning j b P) := by
  intro T h w db later owning sees
  obtain ⟨committed,view⟩ := own_sees owning.foot sees
  exact ⟨footprint_stable T h w db later owning.foot (sees_under sees),
    sole_sees (owning.foot.held j rfl) sees.changed.1 owning.sole,about _ _ _ _ committed view owning.known⟩

theorem owning_next {P' : Dispatch → Dispatch → Prop} {e : Effect Row Key} (owning : Owning j b P h w db)
    (within : Within (· = j) (db.apply w) e) (now : P' (dispatch db) (dispatch ((db.apply w).apply e.writes))) :
    Owning j b P' (h ++ e.locks) (w.over e.writes) (db.reserve e.writes) := by
  refine ⟨footprint_next owning.foot (fun _ same => same) (fun i same => List.mem_append_left _ (owning.foot.held i same)) within,
    ?_,?_⟩
  · rcases owning.sole with found | ⟨none,key,free⟩
    · exact .inl found
    · exact .inr ⟨none,List.mem_append_left _ key,free⟩
  · rw [dispatch_own]
    exact now

theorem within_quiet {own : Nat → Prop} {v : Database} {e : Effect Row Key} (job : ∀ i, e.writes.rows .deliveryJob i = none)
    (stop : ∀ i, e.writes.rows .deliveryDropOff i = none) (order : ∀ i, e.writes.rows .order i = none) : Within own v e :=
  ⟨fun j written => absurd (job j) written,fun s written => absurd (stop s) written,fun i written => absurd (order i) written⟩

theorem sameOwn_quiet {v : Database} {w : Writes Row} (job : ∀ i, w.rows .deliveryJob i = none)
    (stop : ∀ i, w.rows .deliveryDropOff i = none) (order : ∀ i, w.rows .order i = none) :
    SameOwn j (dispatch v) (dispatch (v.apply w)) :=
  sameOwn_rows (funext fun i => unwritten_rows (job i)) (funext fun i => unwritten_rows (stop i))
    (funext fun i => unwritten_rows (order i))

theorem sameOwn_refl (a : Dispatch) : SameOwn j a a := sameOwn_rows rfl rfl rfl

-- Statements that have to do with other tables.
theorem keeps_quiet {t : Transaction α} {W : Tab → Prop} (within : Confined W t) (job : ¬W .deliveryJob)
    (stop : ¬W .deliveryDropOff) (order : ¬W .order) (about : Private j P) (owning : Owning j b P h w db) :
    t.Keeps completion x (fun _ => Owning j b P) h w db := by
  refine keeps_confined within (owning_stable about) ?_ owning
  intro h w db e quiet owning
  refine owning_next owning (within_quiet (quiet _ job) (quiet _ stop) (quiet _ order)) ?_
  exact about _ _ _ _ (sameOwn_refl _) (sameOwn_quiet (quiet _ job) (quiet _ stop) (quiet _ order)) owning.known

theorem keeps_aloof {t : Transaction α} {W : Tab → Prop} (within : Confined W t) (job : ¬W .deliveryJob)
    (stop : ¬W .deliveryDropOff) (order : ¬W .order) (foot : Footprint (fun _ => False) h w db) :
    t.Keeps completion x (fun _ => Footprint fun _ => False) h w db := by
  refine keeps_confined within (stable_under footprint_stable) ?_ foot
  exact fun h w db e quiet foot => footprint_next foot (fun _ no => no) (fun _ no => no.elim)
    (within_quiet (quiet _ job) (quiet _ stop) (quiet _ order))

theorem tallies_carried (known : Tallies x now c) (carries : Carries x y) (plainly : y.Plainly) : Tallies y now' c' := by
  refine tallies_any ⟨facts_carried known.stocked carries,plainly.delivers,?_⟩
  have none := plainly.job
  cases y <;> first | rfl | cases none

-- What a transaction that has the job makes of it when it commits.
structure Leaves (x y : Proc) (j : Nat) (a b : Dispatch) : Prop where
  tallied : TalliedAt j b
  job : ∀ job, a.job j = some job → job.Begun → ∃ job', b.job j = some job' ∧ job.Onward job'
  reported : ∀ i, x.reports y = some i → i = j
  done : Once (jobDone a j) (jobDone b j) (x.reports y = some j)
  dropped : ∀ s, x.dropsOff = some s → ∃ stop, a.stop s = some stop ∧ stop.jobId = j
  stops : ∀ s, (∀ stop, a.stop s = some stop → stop.jobId = j) → (∀ stop, b.stop s = some stop → stop.jobId = j) →
    Once (stopDone a s) (stopDone b s) (x.dropsOff = some s)

theorem footprint_tends {own : Nat → Prop} (foot : Footprint own h w db)
    (job : ∀ j job, own j → (dispatch db).job j = some job → job.Begun →
      ∃ job', (dispatch (db.apply w)).job j = some job' ∧ job.Onward job') :
    Tends (· ∈ h) (dispatch db) (dispatch (db.apply w)) := by
  refine ⟨?_,?_,?_⟩
  · intro j row found begun
    by_cases mine : own j
    · exact job j row mine found begun
    · exact ⟨row,(footprint_apart foot mine).job.trans found,.refl row⟩
  · intro s
    by_cases written : w.rows .deliveryDropOff s = none
    · exact .inl (unwritten_rows written)
    · obtain ⟨committed,view⟩ := foot.stop s written
      exact .inr ⟨fun stop found => foot.held _ (committed stop found),fun stop found => foot.held _ (view stop found)⟩
  · intro i
    by_cases written : w.rows .order i = none
    · exact .inl (unwritten_rows written)
    · obtain ⟨committed,view⟩ := foot.order i written
      exact .inr ⟨fun o j found part => foot.held j (committed o j found part),
        fun o j found part => foot.held j (view o j found part)⟩

theorem owning_commits (about : Private j P) (owning : Owning j b P h w db) (carries : Carries x y) (plainly : y.Plainly)
    (leaves : ∀ a b, Linked Tight a → Tallied a → P a b → Leaves x y j a b) : tallying.Commits locking x y h w db := by
  refine overlay_commits (owning_stable about) owning ?_
  rintro T db ⟨foot,_,now⟩ sees
  have left := leaves _ _ sees.inv.1.1 sees.inv.2 now
  refine ⟨?_,?_,tallies_carried sees.fact.2 carries plainly,?_,?_⟩
  · intro i
    by_cases same : i = j
    · rw [same]; exact left.tallied
    · exact talliedAt_own (footprint_apart foot same) (sees.inv.2 i)
  · refine footprint_tends foot ?_
    rintro _ job rfl
    exact left.job job
  · intro i
    by_cases same : i = j
    · rw [same]; exact left.done
    · refine once_still ?_ (decide_eq_false fun hit => same (left.reported i hit))
      unfold jobDone
      rw [(footprint_apart foot same).job]
  · intro s
    by_cases written : w.rows .deliveryDropOff s = none
    · have still : (dispatch (db.apply w)).stop s = (dispatch db).stop s := unwritten_rows written
      by_cases part : ∀ stop, (dispatch db).stop s = some stop → stop.jobId = j
      · exact left.stops s part fun stop found => part stop (still.symm.trans found)
      · refine once_still (by unfold stopDone; rw [still]) (decide_eq_false fun hit => part ?_)
        obtain ⟨stop,found,own⟩ := left.dropped s hit
        intro stop' found'
        cases found.symm.trans found'
        exact own
    · obtain ⟨committed,view⟩ := foot.stop s written
      exact left.stops s committed view

theorem aloof_commits (foot : Footprint (fun _ => False) h w db) (carries : Carries x y) (plainly : y.Plainly)
    (undropped : x.dropsOff = none) : tallying.Commits locking x y h w db := by
  refine overlay_commits (stable_under footprint_stable) foot ?_
  intro T db foot sees
  have same : ∀ j, SameOwn j (dispatch db) (dispatch (db.apply w)) := fun j => footprint_apart foot id
  have unreported : x.reports y = none := by
    cases x <;> first | rfl | cases undropped
  refine ⟨fun j => talliedAt_own (same j) (sees.inv.2 j),footprint_tends foot fun _ _ no => no.elim,
    tallies_carried sees.fact.2 carries plainly,?_,?_⟩
  · intro j
    refine once_still ?_ (by simp [unreported])
    unfold jobDone
    rw [(same j).job]
  · intro s
    have written : w.rows .deliveryDropOff s = none ∨ ((dispatch db).stop s = none ∧ (dispatch (db.apply w)).stop s = none) := by
      by_cases none : w.rows .deliveryDropOff s = .none
      · exact .inl none
      · obtain ⟨committed,view⟩ := foot.stop s none
        exact .inr ⟨Option.eq_none_iff_forall_ne_some.mpr committed,Option.eq_none_iff_forall_ne_some.mpr view⟩
    refine once_still ?_ (by simp [undropped])
    unfold stopDone
    rcases written with none | ⟨before,after⟩
    · rw [show (dispatch (db.apply w)).stop s = (dispatch db).stop s from unwritten_rows none]
    · rw [before,after]

end Owners
end MesyafMarket
