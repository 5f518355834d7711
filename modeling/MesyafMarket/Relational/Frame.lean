import MesyafMarket.Relational.Tx

namespace Relational
variable {Tab : Type} {Row : Tab → Type} {Key Err : Type}

-- A transaction that writes no table outside `T`, whatever it reads.
def Confined (T : Tab → Prop) : Tx Row Key Err α → Prop
  | .ret _ => True
  | .throw _ => True
  | .stmt effect next => ∀ v, (∀ t, ¬T t → (∀ i, (effect v).writes.rows t i = none) ∧ (effect v).writes.top t = 0) ∧
      Confined T (next v)

section Rules
variable {T : Tab → Prop}

theorem confined_bind {x : Tx Row Key Err α} {f : α → Tx Row Key Err β} (first : Confined T x)
    (rest : ∀ a, Confined T (f a)) : Confined T (x >>= f) := by
  induction x with
  | ret a => exact rest a
  | throw e => trivial
  | stmt effect next ih => exact fun v => ⟨(first v).1,ih v (first v).2⟩

theorem confined_selectLocking {query : Db Row → α} {locks : Db Row → List (Lock Tab Key)} :
    Confined T (Tx.selectLocking query locks : Tx Row Key Err α) :=
  fun _ => ⟨fun _ _ => ⟨fun _ => rfl,rfl⟩,trivial⟩

theorem confined_select {query : Db Row → α} : Confined T (Tx.select query : Tx Row Key Err α) :=
  fun _ => ⟨fun _ _ => ⟨fun _ => rfl,rfl⟩,trivial⟩

theorem confined_findUniqueOrThrow : Confined T (Tx.findUniqueOrThrow t i missing : Tx Row Key Err (Row t)) := by
  intro v
  refine ⟨fun _ _ => ⟨fun _ => rfl,rfl⟩,?_⟩
  beta_reduce
  split <;> trivial

variable [DecidableEq Tab]

theorem apart_of {t t' : Tab} (mine : T t) (other : ¬T t') : t' ≠ t := by
  intro same
  rw [same] at other; exact other mine

theorem updates_outside (v : Db Row) {p : Nat → Row t → Bool} (apart : t' ≠ t) :
    (∀ i, (v.updates t p f).rows t' i = none) ∧ (v.updates t p f).top t' = 0 :=
  ⟨fun i => by rw [v.updates_other apart],by simp only [Db.updates,Writes.onTable,Function.update_of_ne apart]⟩

theorem deletes_outside (v : Db Row) {p : Nat → Row t → Bool} (apart : t' ≠ t) :
    (∀ i, (v.deletes t p).rows t' i = none) ∧ (v.deletes t p).top t' = 0 :=
  ⟨fun i => by rw [v.deletes_other apart],by simp only [Db.deletes,Writes.onTable,Function.update_of_ne apart]⟩

theorem inserts_outside (v : Db Row) (new : List (Row t)) (apart : t' ≠ t) :
    (∀ i, (v.inserts t new).rows t' i = none) ∧ (v.inserts t new).top t' = 0 :=
  ⟨fun i => by rw [v.inserts_other new apart],by simp only [Db.inserts,Writes.onTable,Function.update_of_ne apart]⟩

theorem confined_updates {p : Db Row → Nat → Row t → Bool} {f : Db Row → Row t → Row t}
    {extra : Db Row → List (Lock Tab Key)} {next : Db Row → Tx Row Key Err α} (mine : T t)
    (rest : ∀ v, Confined T (next v)) :
    Confined T (.stmt (fun v => Tx.updatesEffect v t (p v) (f v) (extra v)) next) :=
  fun v => ⟨fun _ other => updates_outside v (apart_of mine other),rest v⟩

theorem confined_inserts {new : Db Row → List (Row t)} {extra : Db Row → List (Lock Tab Key)}
    {next : Db Row → Tx Row Key Err α} (mine : T t) (rest : ∀ v, Confined T (next v)) :
    Confined T (.stmt (fun v => Tx.insertsEffect v t (new v) (extra v)) next) :=
  fun v => ⟨fun _ other => inserts_outside v (new v) (apart_of mine other),rest v⟩

theorem confined_updateMany {p : Nat → Row t → Bool} {f : Nat → Row t → Row t} (mine : T t) :
    Confined T (Tx.updateMany t p f : Tx Row Key Err Nat) := confined_updates mine fun _ => trivial

theorem confined_update {p : Nat → Row t → Bool} {f : Nat → Row t → Row t} (mine : T t) :
    Confined T (Tx.update t p f missing : Tx Row Key Err Unit) := by
  refine confined_updates mine ?_
  intro v
  split <;> trivial

theorem confined_deleteMany {p : Nat → Row t → Bool} (mine : T t) :
    Confined T (Tx.deleteMany t p : Tx Row Key Err Nat) :=
  fun v => ⟨fun _ other => deletes_outside v (apart_of mine other),trivial⟩

theorem confined_createMany {new : Nat → List (Row t)} (mine : T t) :
    Confined T (Tx.createMany t new : Tx Row Key Err Unit) := confined_inserts mine fun _ => trivial

theorem confined_create {new : Nat → Row t} (mine : T t) :
    Confined T (Tx.create t new : Tx Row Key Err (Nat × Row t)) := confined_inserts mine fun _ => trivial

theorem confined_createUnlessPresent {p : Nat → Row t → Bool} (mine : T t) (new : Row t) :
    Confined T (Tx.createUnlessPresent t p new : Tx Row Key Err Nat) := by
  intro v
  refine ⟨?_,trivial⟩
  intro t' other
  beta_reduce
  split
  · exact inserts_outside v _ (apart_of mine other)
  · exact ⟨fun _ => rfl,rfl⟩

end Rules

-- What such a transaction leaves as it was.
theorem confined_run {T : Tab → Prop} {x : Tx Row Key Err α} {db : Db Row} (within : Confined T x)
    (ran : x.run db = .ok r) (other : ¬T t) : r.2.rows t = db.rows t ∧ r.2.seq t = db.seq t := by
  induction x generalizing db with
  | ret a => cases ran; exact ⟨rfl,rfl⟩
  | throw e => cases ran
  | stmt effect next ih =>
    obtain ⟨quiet,rest⟩ := within db
    obtain ⟨rows,top⟩ := quiet t other
    obtain ⟨sameRows,sameSeq⟩ := ih db rest ran
    refine ⟨sameRows.trans ?_,sameSeq.trans ?_⟩
    · funext i
      rw [Db.apply_rows,rows i]; rfl
    · simp only [Db.apply,top,Nat.max_zero]

-- A transaction that takes the rows to rows related to them.
def Follows (R : Db Row → Db Row → Prop) (x : Tx Row Key Err α) : Prop := ∀ v r, x.run v = .ok r → R v r.2

section Following
variable {R : Db Row → Db Row → Prop}

theorem follows_ret (refl : ∀ v, R v v) (a : α) : Follows R (.ret a : Tx Row Key Err α) := by
  intro v r ran
  cases ran
  exact refl v

theorem follows_throw (e : Err) : Follows R (.throw e : Tx Row Key Err α) := by
  intro v r ran
  cases ran

theorem follows_bind {x : Tx Row Key Err α} {f : α → Tx Row Key Err β} (trans : ∀ a b c, R a b → R b c → R a c)
    (first : Follows R x) (rest : ∀ a, Follows R (f a)) : Follows R (x >>= f) := by
  intro v r ran
  obtain ⟨a,middle,one,two⟩ := Tx.run_bind_ok.mp ran
  exact trans _ _ _ (first v _ one) (rest a middle r two)

end Following
end Relational
