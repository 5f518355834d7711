import Mathlib.Logic.Function.Basic
import Mathlib.Data.List.Nodup
import Mathlib.Data.List.Perm.Subperm

namespace Relational
variable {Tab : Type} {Row : Tab → Type}

-- Rows by table and primary key, each table's id sequence and the server clock.
-- No row lies at or beyond its sequence, so a scan up to the sequence sees the
-- whole table and the sequence's next value is a fresh key.
@[ext] structure Db (Row : Tab → Type) where
  rows : (t : Tab) → Nat → Option (Row t)
  seq : Tab → Nat
  clock : Nat
  bounded : ∀ t i, seq t ≤ i → rows t i = none

-- Row versions written and not yet committed. `some none` is a deleted row.
@[ext] structure Writes (Row : Tab → Type) where
  rows : (t : Tab) → Nat → Option (Option (Row t))
  top : Tab → Nat
  bounded : ∀ t i, top t ≤ i → rows t i = none

def Writes.none : Writes Row := ⟨fun _ _ => .none,fun _ => 0,fun _ _ _ => rfl⟩

-- Later versions win.
def Writes.over (earlier later : Writes Row) : Writes Row where
  rows t i := (later.rows t i).or (earlier.rows t i)
  top t := max (earlier.top t) (later.top t)
  bounded t i above := by
    rw [later.bounded t i (by omega),earlier.bounded t i (by omega)]; rfl

@[simp] theorem Writes.none_rows : (Writes.none : Writes Row).rows t i = .none := rfl
@[simp] theorem Writes.over_rows (earlier later : Writes Row) :
    (earlier.over later).rows t i = (later.rows t i).or (earlier.rows t i) := rfl
@[simp] theorem Writes.none_over (w : Writes Row) : Writes.none.over w = w := by
  ext t i <;> simp [Writes.over,Writes.none]
@[simp] theorem Writes.over_none (w : Writes Row) : w.over .none = w := by
  ext t i <;> simp [Writes.over,Writes.none]

-- What a reader that holds `w` sees, and what a commit of `w` leaves behind.
def Db.apply (db : Db Row) (w : Writes Row) : Db Row where
  rows t i := (w.rows t i).getD (db.rows t i)
  seq t := max (db.seq t) (w.top t)
  clock := db.clock
  bounded t i above := by
    rw [w.bounded t i (by omega)]; exact db.bounded t i (by omega)

-- A sequence keeps the values it has handed out, also for writes never committed.
def Db.reserve (db : Db Row) (w : Writes Row) : Db Row :=
  {db with seq := fun t => max (db.seq t) (w.top t)
           bounded := fun t i above => db.bounded t i (by omega)}

def Db.tick (db : Db Row) (ms : Nat) : Db Row := {db with clock := db.clock+ms}

def Db.dated (db : Db Row) (now : Nat) : Db Row := {db with clock := now}

@[simp] theorem Db.apply_rows (db : Db Row) (w : Writes Row) :
    (db.apply w).rows t i = (w.rows t i).getD (db.rows t i) := rfl
@[simp] theorem Db.apply_clock (db : Db Row) (w : Writes Row) : (db.apply w).clock = db.clock := rfl
@[simp] theorem Db.reserve_rows (db : Db Row) (w : Writes Row) : (db.reserve w).rows = db.rows := rfl
@[simp] theorem Db.reserve_clock (db : Db Row) (w : Writes Row) : (db.reserve w).clock = db.clock := rfl
@[simp] theorem Db.tick_rows (db : Db Row) : (db.tick ms).rows = db.rows := rfl
@[simp] theorem Db.tick_seq (db : Db Row) : (db.tick ms).seq = db.seq := rfl
@[simp] theorem Db.tick_clock (db : Db Row) : (db.tick ms).clock = db.clock+ms := rfl

@[simp] theorem Db.apply_none (db : Db Row) : db.apply .none = db := by
  ext t i <;> simp [Db.apply,Writes.none]

theorem Db.apply_over (db : Db Row) (w later : Writes Row) :
    db.apply (w.over later) = (db.apply w).apply later := by
  ext t i
  · cases found : later.rows t i <;> simp [found]
  · simp [Db.apply,Writes.over,Nat.max_assoc]
  · rfl

theorem Db.below (db : Db Row) (found : db.rows t i = some row) : i < db.seq t := by
  apply Nat.lt_of_not_le
  intro above
  rw [db.bounded t i above] at found
  cases found

-- The statements of a client, evaluated on the database `v` the session sees.
def Db.all (v : Db Row) (t : Tab) : List (Nat × Row t) :=
  (List.range (v.seq t)).filterMap fun i => (v.rows t i).map (Prod.mk i)

theorem Db.mem_all (v : Db Row) : (i,row) ∈ v.all t ↔ v.rows t i = some row := by
  constructor
  · intro member
    obtain ⟨k,_,found⟩ := List.mem_filterMap.mp member
    obtain ⟨r,at_k,equal⟩ := Option.map_eq_some_iff.mp found
    cases equal; exact at_k
  · intro found
    exact List.mem_filterMap.mpr ⟨i,List.mem_range.mpr (v.below found),by simp [found]⟩

theorem Db.all_keys_nodup (v : Db Row) (t : Tab) : ((v.all t).map Prod.fst).Nodup := by
  have keys : (v.all t).map Prod.fst = (List.range (v.seq t)).filter fun i => (v.rows t i).isSome := by
    unfold Db.all
    induction List.range (v.seq t) with
    | nil => rfl
    | cons k rest ih => cases found : v.rows t k <;> simp [found,ih]
  rw [keys]
  exact List.nodup_range.filter _

def Db.matching (v : Db Row) (t : Tab) (p : Nat → Row t → Bool) : List (Nat × Row t) :=
  (v.all t).filter fun entry => p entry.1 entry.2

theorem Db.mem_matching (v : Db Row) {p : Nat → Row t → Bool} :
    (i,row) ∈ v.matching t p ↔ v.rows t i = some row ∧ p i row = true := by
  simp [Db.matching,Db.mem_all]

theorem Db.matching_nil (v : Db Row) {p : Nat → Row t → Bool} :
    v.matching t p = [] ↔ ∀ i row, v.rows t i = some row → p i row = false := by
  simp only [Db.matching,List.filter_eq_nil_iff,Prod.forall,Db.mem_all,Bool.not_eq_true]

-- A primary key selects at most one row.
theorem Db.matching_key (v : Db Row) {p : Nat → Row t → Bool} (keyed : ∀ i row, p i row = true → i = k)
    (found : v.rows t k = some row) (hit : p k row = true) : v.matching t p = [(k,row)] := by
  have same : ∀ entry ∈ v.matching t p, entry = (k,row) := by
    intro entry member
    obtain ⟨at_i,chosen⟩ := v.mem_matching.mp member
    have key := keyed _ _ chosen
    rw [key,found] at at_i
    exact Prod.ext key (Option.some.inj at_i).symm
  have distinct : (v.matching t p).Nodup := (List.Nodup.of_map Prod.fst (v.all_keys_nodup t)).filter _
  rw [List.eq_replicate_of_mem same] at distinct ⊢
  have member : (k,row) ∈ v.matching t p := v.mem_matching.mpr ⟨found,hit⟩
  have short := List.nodup_replicate.mp distinct
  have long := List.length_pos_of_mem member
  rw [show (v.matching t p).length = 1 by omega]
  rfl

-- Rows are counted by key: every row that satisfies `p'` now is one of the keys
-- `extra` or satisfied `p` before.
theorem Db.matching_length_le (v v' : Db Row) {p p' : Nat → Row t → Bool} (extra : List Nat)
    (origin : ∀ i row', v'.rows t i = some row' → p' i row' = true →
      i ∈ extra ∨ ∃ row, v.rows t i = some row ∧ p i row = true) :
    (v'.matching t p').length ≤ extra.length+(v.matching t p).length := by
  have keys : ((v'.matching t p').map Prod.fst).Nodup :=
    (v'.all_keys_nodup t).sublist (List.filter_sublist.map _)
  have within : (v'.matching t p').map Prod.fst ⊆ extra ++ (v.matching t p).map Prod.fst := by
    intro i member
    obtain ⟨entry,found,rfl⟩ := List.mem_map.mp member
    obtain ⟨at_i,hit⟩ := v'.mem_matching.mp found
    rcases origin _ _ at_i hit with new | ⟨row,before,held⟩
    · exact List.mem_append_left _ new
    · exact List.mem_append_right _ (List.mem_map.mpr ⟨(entry.1,row),v.mem_matching.mpr ⟨before,held⟩,rfl⟩)
  have bound := (keys.subperm within).length_le
  simpa only [List.length_map,List.length_append] using bound

section TableWrites
variable [DecidableEq Tab]

def Writes.onTable (t : Tab) (versions : Nat → Option (Option (Row t))) (limit : Nat)
    (within : ∀ i, limit ≤ i → versions i = .none) : Writes Row where
  rows := Function.update (fun _ _ => .none) t versions
  top := Function.update (fun _ => 0) t limit
  bounded t' i above := by
    by_cases same : t' = t
    · subst t'; rw [Function.update_self] at above ⊢; exact within i above
    · rw [Function.update_of_ne same]

@[simp] theorem Writes.onTable_rows {versions : Nat → Option (Option (Row t))}
    {within : ∀ i, limit ≤ i → versions i = .none} :
    (Writes.onTable t versions limit within).rows t = versions := by
  simp only [Writes.onTable,Function.update_self]

@[simp] theorem Writes.onTable_other {versions : Nat → Option (Option (Row t))}
    {within : ∀ i, limit ≤ i → versions i = .none} (other : t' ≠ t) :
    (Writes.onTable t versions limit within).rows t' = fun _ => .none := by
  simp only [Writes.onTable,Function.update_of_ne other]

def Db.updates (v : Db Row) (t : Tab) (p : Nat → Row t → Bool) (f : Row t → Row t) : Writes Row :=
  .onTable t (fun i => match v.rows t i with
      | some row => if p i row then some (some (f row)) else none
      | none => none) (v.seq t) fun i above => by rw [v.bounded t i above]

def Db.deletes (v : Db Row) (t : Tab) (p : Nat → Row t → Bool) : Writes Row :=
  .onTable t (fun i => match v.rows t i with
      | some row => if p i row then some none else none
      | none => none) (v.seq t) fun i above => by rw [v.bounded t i above]

def Db.inserts (v : Db Row) (t : Tab) (new : List (Row t)) : Writes Row :=
  .onTable t (fun i => if v.seq t ≤ i then new[i-v.seq t]?.map some else none) (v.seq t+new.length)
    fun i above => by
      rw [if_pos (by omega),List.getElem?_eq_none (by omega)]; rfl

theorem Db.updates_rows (v : Db Row) {p : Nat → Row t → Bool} :
    (v.updates t p f).rows t i = match v.rows t i with
      | some row => if p i row then some (some (f row)) else none
      | none => none := by simp [Db.updates]

theorem Db.deletes_rows (v : Db Row) {p : Nat → Row t → Bool} :
    (v.deletes t p).rows t i = match v.rows t i with
      | some row => if p i row then some none else none
      | none => none := by simp [Db.deletes]

theorem Db.inserts_rows (v : Db Row) (new : List (Row t)) :
    (v.inserts t new).rows t i = if v.seq t ≤ i then new[i-v.seq t]?.map some else none := by
  simp [Db.inserts]

@[simp] theorem Db.updates_other (v : Db Row) {p : Nat → Row t → Bool} (other : t' ≠ t) :
    (v.updates t p f).rows t' = fun _ => none := by simp [Db.updates,other]
@[simp] theorem Db.deletes_other (v : Db Row) {p : Nat → Row t → Bool} (other : t' ≠ t) :
    (v.deletes t p).rows t' = fun _ => none := by simp [Db.deletes,other]
@[simp] theorem Db.inserts_other (v : Db Row) (new : List (Row t)) (other : t' ≠ t) :
    (v.inserts t new).rows t' = fun _ => none := by simp [Db.inserts,other]

theorem Db.apply_updates (db : Db Row) {p : Nat → Row t → Bool} :
    (db.apply (db.updates t p f)).rows t =
      fun i => (db.rows t i).map fun row => if p i row then f row else row := by
  funext i
  rw [Db.apply_rows,Db.updates_rows]
  cases db.rows t i with
  | none => rfl
  | some row => cases hit : p i row <;> simp [hit]

theorem Db.apply_deletes (db : Db Row) {p : Nat → Row t → Bool} :
    (db.apply (db.deletes t p)).rows t = fun i => (db.rows t i).filter fun row => !p i row := by
  funext i
  rw [Db.apply_rows,Db.deletes_rows]
  cases found : db.rows t i with
  | none => rfl
  | some row => cases hit : p i row <;> simp [hit,Option.filter]

theorem Db.apply_inserts (db : Db Row) (new : List (Row t)) :
    (db.apply (db.inserts t new)).rows t =
      fun i => if db.seq t ≤ i then new[i-db.seq t]? else db.rows t i := by
  funext i
  rw [Db.apply_rows,Db.inserts_rows]
  split
  · rename_i above
    rw [db.bounded t i above]
    cases new[i-db.seq t]? <;> rfl
  · rfl

theorem Db.apply_insert (db : Db Row) (row : Row t) :
    (db.apply (db.inserts t [row])).rows t = Function.update (db.rows t) (db.seq t) (some row) := by
  rw [Db.apply_inserts]
  funext i
  by_cases same : i = db.seq t
  · subst i; simp
  · rw [Function.update_of_ne same]
    split
    · rename_i above
      rw [db.bounded t i above,List.getElem?_eq_none (by simp only [List.length_singleton]; omega)]
    · rfl

@[simp] theorem Db.apply_updates_other (db : Db Row) {p : Nat → Row t → Bool} (other : t' ≠ t) :
    (db.apply (db.updates t p f)).rows t' = db.rows t' := by
  funext i; simp [other]
@[simp] theorem Db.apply_deletes_other (db : Db Row) {p : Nat → Row t → Bool} (other : t' ≠ t) :
    (db.apply (db.deletes t p)).rows t' = db.rows t' := by
  funext i; simp [other]
@[simp] theorem Db.apply_inserts_other (db : Db Row) (new : List (Row t)) (other : t' ≠ t) :
    (db.apply (db.inserts t new)).rows t' = db.rows t' := by
  funext i; simp [other]

end TableWrites
end Relational
