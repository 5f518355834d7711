import MesyafMarket.Relational.Db

namespace Relational
variable {Tab : Type} {Row : Tab → Type} {Key Err : Type}

-- A lock on a row, or on a key that names no row (an advisory lock, an entry of
-- a unique index).
inductive Lock (Tab Key : Type) where
  | row (t : Tab) (i : Nat)
  | key (k : Key)
  deriving DecidableEq

-- What one statement writes and locks. A written row is locked.
structure Effect (Row : Tab → Type) (Key : Type) where
  writes : Writes Row
  locks : List (Lock Tab Key)
  locked : ∀ t i, writes.rows t i ≠ none → Lock.row t i ∈ locks

theorem none_locked (t : Tab) (i : Nat) (written : (Writes.none : Writes Row).rows t i ≠ none) :
    Lock.row t i ∈ ([] : List (Lock Tab Key)) := absurd rfl written

def Effect.none : Effect Row Key := ⟨.none,[],none_locked⟩

-- The body of an interactive transaction, one constructor a statement. Each
-- statement is evaluated on the database its session sees when it runs: the rows
-- committed by then under the session's own writes.
inductive Tx (Row : Tab → Type) (Key Err α : Type) where
  | ret (a : α)
  | throw (e : Err)
  | stmt (effect : Db Row → Effect Row Key) (next : Db Row → Tx Row Key Err α)

namespace Tx

def bind : Tx Row Key Err α → (α → Tx Row Key Err β) → Tx Row Key Err β
  | ret a,f => f a
  | throw e,_ => .throw e
  | stmt effect next,f => .stmt effect fun v => (next v).bind f

instance : Monad (Tx Row Key Err) where
  pure := .ret
  bind := .bind

@[simp] theorem pure_eq (a : α) : (pure a : Tx Row Key Err α) = .ret a := rfl
@[simp] theorem ret_bind (a : α) (f : α → Tx Row Key Err β) : (Tx.ret a >>= f) = f a := rfl
@[simp] theorem throw_bind (e : Err) (f : α → Tx Row Key Err β) :
    ((.throw e : Tx Row Key Err α) >>= f) = .throw e := rfl
@[simp] theorem stmt_bind (effect : Db Row → Effect Row Key) (next : Db Row → Tx Row Key Err α)
    (f : α → Tx Row Key Err β) : (Tx.stmt effect next >>= f) = .stmt effect fun v => next v >>= f := rfl

-- The transaction with nothing in between: its statements one after another,
-- then the commit, or no change at all.
def run : Tx Row Key Err α → Db Row → Except Err (α × Db Row)
  | ret a,db => .ok (a,db)
  | throw e,_ => .error e
  | stmt effect next,db => (next db).run (db.apply (effect db).writes)

@[simp] theorem run_ret (a : α) (db : Db Row) :
    (.ret a : Tx Row Key Err α).run db = .ok (a,db) := rfl
@[simp] theorem run_throw (e : Err) (db : Db Row) :
    (.throw e : Tx Row Key Err α).run db = .error e := rfl

@[simp] theorem run_bind (x : Tx Row Key Err α) (f : α → Tx Row Key Err β) (db : Db Row) :
    (x >>= f).run db = (x.run db).bind fun r => (f r.1).run r.2 := by
  induction x generalizing db with
  | ret a => rfl
  | throw e => rfl
  | stmt effect next ih => exact ih db _

theorem run_bind_ok {x : Tx Row Key Err α} {f : α → Tx Row Key Err β} :
    (x >>= f).run db = .ok r ↔ ∃ a middle, x.run db = .ok (a,middle) ∧ (f a).run middle = .ok r := by
  rw [run_bind]
  cases x.run db with
  | error e => simp [Except.bind]
  | ok found => obtain ⟨a,middle⟩ := found; simp [Except.bind]

theorem run_bind_error {x : Tx Row Key Err α} {f : α → Tx Row Key Err β} :
    (x >>= f).run db = .error e ↔
      x.run db = .error e ∨ ∃ a middle, x.run db = .ok (a,middle) ∧ (f a).run middle = .error e := by
  rw [run_bind]
  cases x.run db with
  | error thrown => simp [Except.bind]
  | ok found => obtain ⟨a,middle⟩ := found; simp [Except.bind]

def select (query : Db Row → α) : Tx Row Key Err α := .stmt (fun _ => .none) fun v => .ret (query v)

-- A query that also takes locks.
def selectLocking (query : Db Row → α) (locks : Db Row → List (Lock Tab Key)) : Tx Row Key Err α :=
  .stmt (fun v => ⟨.none,locks v,fun _ _ written => absurd rfl written⟩) fun v => .ret (query v)

-- Row or key locks taken without a write (`FOR UPDATE`, an advisory lock).
def lock (locks : Db Row → List (Lock Tab Key)) : Tx Row Key Err Unit := selectLocking (fun _ => ()) locks

@[simp] theorem run_select (query : Db Row → α) (db : Db Row) :
    (select query : Tx Row Key Err α).run db = .ok (query db,db) := by
  simp [select,run,Effect.none]

@[simp] theorem run_selectLocking (query : Db Row → α) (locks : Db Row → List (Lock Tab Key))
    (db : Db Row) : (selectLocking query locks : Tx Row Key Err α).run db = .ok (query db,db) := by
  simp [selectLocking,run]

@[simp] theorem run_lock (locks : Db Row → List (Lock Tab Key)) (db : Db Row) :
    (lock locks : Tx Row Key Err Unit).run db = .ok ((),db) := by
  simp [lock]

def locksOf (v : Db Row) (t : Tab) (p : Nat → Row t → Bool) : List (Lock Tab Key) :=
  (v.matching t p).map fun entry => .row t entry.1

theorem mem_locksOf {v : Db Row} {p : Nat → Row t → Bool} :
    (Lock.row t i : Lock Tab Key) ∈ locksOf v t p ↔ ∃ row, v.rows t i = some row ∧ p i row = true := by
  simp [locksOf,Db.mem_matching]

def findUnique (t : Tab) (i : Nat) : Tx Row Key Err (Option (Row t)) := select fun v => v.rows t i

def findUniqueOrThrow (t : Tab) (i : Nat) (missing : Err) : Tx Row Key Err (Row t) :=
  .stmt (fun _ => .none) fun v => match v.rows t i with
    | some row => .ret row
    | none => .throw missing

def count (t : Tab) (p : Nat → Row t → Bool) : Tx Row Key Err Nat :=
  select fun v => (v.matching t p).length

@[simp] theorem run_findUnique (db : Db Row) :
    (findUnique t i : Tx Row Key Err (Option (Row t))).run db = .ok (db.rows t i,db) := by
  simp [findUnique]

theorem run_findUniqueOrThrow_ok {db : Db Row}
    (accepted : (findUniqueOrThrow t i missing : Tx Row Key Err (Row t)).run db = .ok (row,after)) :
    db.rows t i = some row ∧ after = db := by
  simp only [findUniqueOrThrow,run,Effect.none,Db.apply_none] at accepted
  split at accepted
  · rename_i found
    cases accepted; exact ⟨found,rfl⟩
  · cases accepted

@[simp] theorem run_count (db : Db Row) {p : Nat → Row t → Bool} :
    (count t p : Tx Row Key Err Nat).run db = .ok ((db.matching t p).length,db) := by
  simp [count]

section Statements
variable [DecidableEq Tab]

-- `extra` are the index entries and other keys that the statement locks as well.
def updatesEffect (v : Db Row) (t : Tab) (p : Nat → Row t → Bool) (f : Row t → Row t)
    (extra : List (Lock Tab Key)) : Effect Row Key where
  writes := v.updates t p f
  locks := locksOf v t p ++ extra
  locked t' i written := by
    by_cases same : t' = t
    · subst t'
      rw [Db.updates_rows] at written
      apply List.mem_append_left
      cases found : v.rows t i with
      | none => simp [found] at written
      | some row =>
        cases hit : p i row with
        | false => simp [found,hit] at written
        | true => exact mem_locksOf.mpr ⟨row,found,hit⟩
    · simp [same] at written

def deletesEffect (v : Db Row) (t : Tab) (p : Nat → Row t → Bool) : Effect Row Key where
  writes := v.deletes t p
  locks := locksOf v t p
  locked t' i written := by
    by_cases same : t' = t
    · subst t'
      rw [Db.deletes_rows] at written
      cases found : v.rows t i with
      | none => simp [found] at written
      | some row =>
        cases hit : p i row with
        | false => simp [found,hit] at written
        | true => exact mem_locksOf.mpr ⟨row,found,hit⟩
    · simp [same] at written

def insertsEffect (v : Db Row) (t : Tab) (new : List (Row t)) (extra : List (Lock Tab Key)) :
    Effect Row Key where
  writes := v.inserts t new
  locks := (List.range new.length).map (fun k => .row t (v.seq t+k)) ++ extra
  locked t' i written := by
    by_cases same : t' = t
    · subst t'
      rw [Db.inserts_rows] at written
      split at written
      · rename_i above
        have inside : i-v.seq t < new.length := by
          apply Nat.lt_of_not_le
          intro beyond
          rw [List.getElem?_eq_none beyond] at written
          exact written rfl
        apply List.mem_append_left
        exact List.mem_map.mpr ⟨i-v.seq t,List.mem_range.mpr inside,by
          rw [Nat.add_sub_of_le above]⟩
      · exact absurd rfl written
    · simp [same] at written

-- Prisma's model operations. `f` receives the clock for `new Date()`.
def updateMany (t : Tab) (p : Nat → Row t → Bool) (f : Nat → Row t → Row t) : Tx Row Key Err Nat :=
  .stmt (fun v => updatesEffect v t p (f v.clock) []) fun v => .ret (v.matching t p).length

def deleteMany (t : Tab) (p : Nat → Row t → Bool) : Tx Row Key Err Nat :=
  .stmt (fun v => deletesEffect v t p) fun v => .ret (v.matching t p).length

def createMany (t : Tab) (new : Nat → List (Row t)) : Tx Row Key Err Unit :=
  .stmt (fun v => insertsEffect v t (new v.clock) []) fun _ => .ret ()

def create (t : Tab) (new : Nat → Row t) : Tx Row Key Err (Nat × Row t) :=
  .stmt (fun v => insertsEffect v t [new v.clock] []) fun v => .ret (v.seq t,new v.clock)

-- `createMany` with `skipDuplicates`: no row where a unique column holds the value already.
def createUnlessPresent (t : Tab) (p : Nat → Row t → Bool) (new : Row t) : Tx Row Key Err Nat :=
  .stmt (fun v => if (v.matching t p).isEmpty then insertsEffect v t [new] [] else .none)
    fun v => .ret (if (v.matching t p).isEmpty then 1 else 0)

-- `update` throws when no row satisfies its `where`.
def update (t : Tab) (p : Nat → Row t → Bool) (f : Nat → Row t → Row t) (missing : Err) :
    Tx Row Key Err Unit :=
  .stmt (fun v => updatesEffect v t p (f v.clock) []) fun v =>
    if (v.matching t p).isEmpty then .throw missing else .ret ()

@[simp] theorem run_updateMany (db : Db Row) {p : Nat → Row t → Bool} :
    (updateMany t p f : Tx Row Key Err Nat).run db =
      .ok ((db.matching t p).length,db.apply (db.updates t p (f db.clock))) := rfl

@[simp] theorem run_deleteMany (db : Db Row) {p : Nat → Row t → Bool} :
    (deleteMany t p : Tx Row Key Err Nat).run db =
      .ok ((db.matching t p).length,db.apply (db.deletes t p)) := rfl

@[simp] theorem run_createMany (db : Db Row) (new : Nat → List (Row t)) :
    (createMany t new : Tx Row Key Err Unit).run db =
      .ok ((),db.apply (db.inserts t (new db.clock))) := rfl

@[simp] theorem run_create (db : Db Row) (new : Nat → Row t) :
    (create t new : Tx Row Key Err (Nat × Row t)).run db =
      .ok ((db.seq t,new db.clock),db.apply (db.inserts t [new db.clock])) := rfl

theorem run_createUnlessPresent (db : Db Row) {p : Nat → Row t → Bool} (absent : db.matching t p = []) :
    (createUnlessPresent t p new : Tx Row Key Err Nat).run db =
      .ok (1,db.apply (db.inserts t [new])) := by
  simp [createUnlessPresent,run,absent,insertsEffect]

theorem run_update {db : Db Row} {p : Nat → Row t → Bool} (found : db.rows t i = some row) (hit : p i row = true) :
    (update t p f missing : Tx Row Key Err Unit).run db = .ok ((),db.apply (db.updates t p (f db.clock))) := by
  simp only [update,run]
  split
  · rename_i empty
    have member := db.mem_matching.mpr ⟨found,hit⟩
    rw [List.isEmpty_iff.mp empty] at member
    cases member
  · rfl

theorem run_update_ok {db : Db Row} {p : Nat → Row t → Bool}
    (accepted : (update t p f missing : Tx Row Key Err Unit).run db = .ok r) :
    db.matching t p ≠ [] ∧ r = ((),db.apply (db.updates t p (f db.clock))) := by
  simp only [update,run] at accepted
  split at accepted
  · cases accepted
  · rename_i some
    cases accepted
    exact ⟨fun empty => some (by simp [empty]),rfl⟩

end Statements
end Tx
end Relational
