import MesyafMarket.Process

namespace MesyafMarket
open Relational

-- The rows that dispatching is about: who may deliver, and how orders, batches,
-- jobs and stops hang together. Catalog, event log and timelines are left out.
structure Dispatch where
  user : Nat → Option User
  deliverer : Nat → Option DelivererProfile
  order : Nat → Option Order
  job : Nat → Option DeliveryJob
  batch : Nat → Option DeliveryBatch
  stop : Nat → Option DeliveryDropOff

def dispatch (db : Database) : Dispatch :=
  ⟨db.rows .user,db.rows .delivererProfile,db.rows .order,db.rows .deliveryJob,db.rows .deliveryBatch,
   db.rows .deliveryDropOff⟩

def rewritten (p : Nat → R → Bool) (f : R → R) (rows : Nat → Option R) (i : Nat) : Option R :=
  (rows i).map fun row => if p i row then f row else row

def removed (p : Nat → R → Bool) (rows : Nat → Option R) (i : Nat) : Option R :=
  (rows i).filter fun row => !p i row

def inserted (base : Nat) (new : List R) (rows : Nat → Option R) (i : Nat) : Option R :=
  if base ≤ i then new[i-base]? else rows i

theorem update_some {rows : Nat → Option R} (found : Function.update rows k (some new) i = some row) :
    (i = k ∧ row = new) ∨ (i ≠ k ∧ rows i = some row) := by
  by_cases same : i = k
  · subst i; rw [Function.update_self] at found; exact .inl ⟨rfl,(Option.some.inj found).symm⟩
  · rw [Function.update_of_ne same] at found; exact .inr ⟨same,found⟩

theorem update_kept {rows : Nat → Option R} {P : R → R → Prop} (at_k : rows k = some old) (found : rows i = some row)
    (new : R) (same : P row row) (changed : P old new) :
    ∃ after, Function.update rows k (some new) i = some after ∧ P row after := by
  by_cases hit : i = k
  · subst i
    obtain rfl := Option.some.inj (at_k.symm.trans found)
    exact ⟨new,Function.update_self ..,changed⟩
  · exact ⟨row,by rw [Function.update_of_ne hit]; exact found,same⟩

theorem rewritten_some {p : Nat → R → Bool} {f : R → R} {rows : Nat → Option R}
    (found : rewritten p f rows i = some row) :
    ∃ old, rows i = some old ∧ row = if p i old then f old else old := by
  obtain ⟨old,at_i,same⟩ := Option.map_eq_some_iff.mp found
  exact ⟨old,at_i,same.symm⟩

theorem rewritten_of {p : Nat → R → Bool} {f : R → R} {rows : Nat → Option R} (found : rows i = some old) :
    rewritten p f rows i = some (if p i old then f old else old) := by
  unfold rewritten; rw [found]; rfl

theorem rewritten_key {P : R → Prop} [DecidablePred P] {f : R → R} {rows : Nat → Option R}
    (found : rows k = some row) (hit : P row) :
    rewritten (fun i r => i = k ∧ P r) f rows = Function.update rows k (some (f row)) := by
  funext i
  by_cases same : i = k
  · subst i; rw [rewritten_of found,Function.update_self]; simp [hit]
  · rw [Function.update_of_ne same]
    unfold rewritten
    cases rows i <;> simp [same]

theorem rewritten_only {f : R → R} {rows : Nat → Option R} (found : rows k = some row) :
    rewritten (fun i _ => i = k) f rows = Function.update rows k (some (f row)) := by
  funext i
  by_cases same : i = k
  · subst i; rw [rewritten_of found,Function.update_self]; simp
  · rw [Function.update_of_ne same]
    unfold rewritten
    cases rows i <;> simp [same]

theorem removed_some {p : Nat → R → Bool} {rows : Nat → Option R} :
    removed p rows i = some row ↔ rows i = some row ∧ p i row = false := by
  unfold removed
  rw [Option.filter_eq_some_iff]
  simp

theorem inserted_one {rows : Nat → Option R} (fresh : ∀ i, base ≤ i → rows i = none) :
    inserted base [row] rows = Function.update rows base (some row) := by
  funext i
  unfold inserted
  by_cases same : i = base
  · subst i; simp
  · rw [Function.update_of_ne same]
    split
    · rename_i above
      rw [fresh i above,List.getElem?_eq_none (by simp only [List.length_singleton]; omega)]
    · rfl

section Statements
variable (db : Database)

@[simp] theorem dispatch_updates_user {p : Nat → User → Bool} :
    dispatch (db.apply (db.updates .user p f)) = {dispatch db with user := rewritten p f (dispatch db).user} := by
  simp [dispatch,Db.apply_updates]; rfl
@[simp] theorem dispatch_updates_deliverer {p : Nat → DelivererProfile → Bool} :
    dispatch (db.apply (db.updates .delivererProfile p f)) =
      {dispatch db with deliverer := rewritten p f (dispatch db).deliverer} := by
  simp [dispatch,Db.apply_updates]; rfl
@[simp] theorem dispatch_updates_order {p : Nat → Order → Bool} :
    dispatch (db.apply (db.updates .order p f)) =
      {dispatch db with order := rewritten p f (dispatch db).order} := by
  simp [dispatch,Db.apply_updates]; rfl
@[simp] theorem dispatch_updates_job {p : Nat → DeliveryJob → Bool} :
    dispatch (db.apply (db.updates .deliveryJob p f)) =
      {dispatch db with job := rewritten p f (dispatch db).job} := by
  simp [dispatch,Db.apply_updates]; rfl
@[simp] theorem dispatch_updates_batch {p : Nat → DeliveryBatch → Bool} :
    dispatch (db.apply (db.updates .deliveryBatch p f)) =
      {dispatch db with batch := rewritten p f (dispatch db).batch} := by
  simp [dispatch,Db.apply_updates]; rfl
@[simp] theorem dispatch_updates_stop {p : Nat → DeliveryDropOff → Bool} :
    dispatch (db.apply (db.updates .deliveryDropOff p f)) =
      {dispatch db with stop := rewritten p f (dispatch db).stop} := by
  simp [dispatch,Db.apply_updates]; rfl
@[simp] theorem dispatch_deletes_deliverer {p : Nat → DelivererProfile → Bool} :
    dispatch (db.apply (db.deletes .delivererProfile p)) =
      {dispatch db with deliverer := removed p (dispatch db).deliverer} := by
  simp [dispatch,Db.apply_deletes]; rfl
@[simp] theorem dispatch_deletes_stop {p : Nat → DeliveryDropOff → Bool} :
    dispatch (db.apply (db.deletes .deliveryDropOff p)) =
      {dispatch db with stop := removed p (dispatch db).stop} := by
  simp [dispatch,Db.apply_deletes]; rfl
@[simp] theorem dispatch_inserts_deliverer (new : List DelivererProfile) :
    dispatch (db.apply (db.inserts .delivererProfile new)) =
      {dispatch db with deliverer := inserted (db.seq .delivererProfile) new (dispatch db).deliverer} := by
  simp [dispatch,Db.apply_inserts]; rfl
@[simp] theorem dispatch_inserts_order (new : List Order) :
    dispatch (db.apply (db.inserts .order new)) =
      {dispatch db with order := inserted (db.seq .order) new (dispatch db).order} := by
  simp [dispatch,Db.apply_inserts]; rfl
@[simp] theorem dispatch_inserts_job (new : List DeliveryJob) :
    dispatch (db.apply (db.inserts .deliveryJob new)) =
      {dispatch db with job := inserted (db.seq .deliveryJob) new (dispatch db).job} := by
  simp [dispatch,Db.apply_inserts]; rfl
@[simp] theorem dispatch_inserts_batch (new : List DeliveryBatch) :
    dispatch (db.apply (db.inserts .deliveryBatch new)) =
      {dispatch db with batch := inserted (db.seq .deliveryBatch) new (dispatch db).batch} := by
  simp [dispatch,Db.apply_inserts]; rfl
@[simp] theorem dispatch_inserts_stop (new : List DeliveryDropOff) :
    dispatch (db.apply (db.inserts .deliveryDropOff new)) =
      {dispatch db with stop := inserted (db.seq .deliveryDropOff) new (dispatch db).stop} := by
  simp [dispatch,Db.apply_inserts]; rfl

-- Rows that dispatching does not look at.
inductive Aside : Tab → Prop where
  | orderItem : Aside .orderItem
  | eventLog : Aside .eventLog
  | orderTimeline : Aside .orderTimeline
  | jobTimeline : Aside .jobTimeline

theorem dispatch_inserts_aside (aside : Aside t) (new : List (Row t)) :
    dispatch (db.apply (db.inserts t new)) = dispatch db := by
  cases aside <;> simp [dispatch]

@[simp] theorem dispatch_tick : dispatch (db.tick ms) = dispatch db := rfl

end Statements

theorem matching_some {db : Database} {p : Nat → Row t → Bool} (some : db.matching t p ≠ []) :
    ∃ i row, db.rows t i = .some row ∧ p i row = true := by
  obtain ⟨entry,member⟩ := List.exists_mem_of_ne_nil _ some
  exact ⟨entry.1,entry.2,db.mem_matching.mp member⟩

theorem matching_length {db : Database} {p : Nat → Row t → Bool} (some : (db.matching t p).length ≠ 0) :
    ∃ i row, db.rows t i = .some row ∧ p i row = true :=
  matching_some fun empty => some (by rw [empty]; rfl)

theorem matching_empty {db : Database} {p : Nat → Row t → Bool} (none : (db.matching t p).length = 0) :
    ∀ i row, db.rows t i = some row → p i row = false :=
  db.matching_nil.mp (List.length_eq_zero_iff.mp none)

section Clock
variable {Tab Key Err : Type} {Row : Tab → Type}

theorem run_clock {x : Tx Row Key Err α} {db : Db Row} (ran : x.run db = .ok r) : r.2.clock = db.clock := by
  induction x generalizing db with
  | ret a => cases ran; rfl
  | throw e => cases ran
  | stmt effect next ih => exact (ih _ ran).trans (db.apply_clock _)

theorem run_seq {x : Tx Row Key Err α} {db : Db Row} (ran : x.run db = .ok r) : db.seq t ≤ r.2.seq t := by
  induction x generalizing db with
  | ret a => cases ran; exact Nat.le_refl _
  | throw e => cases ran
  | stmt effect next ih => exact Nat.le_trans (Nat.le_max_left _ _) (ih _ ran)

end Clock
end MesyafMarket
