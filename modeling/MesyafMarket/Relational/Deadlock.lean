import Mathlib.Logic.Relation
import Mathlib.Data.Fintype.EquivFin
import Mathlib.Order.WellFounded
import MesyafMarket.Relational.Sessions

namespace Relational
variable {Tab : Type} {Row : Tab → Type} {Key Err P : Type}

namespace System

-- The locks that the next statement of a transaction needs.
def asked (s : System Row Key Err P) (p : Nat) : List (Lock Tab Key) :=
  match s.threads p with
  | some (.busy _ txn) => match txn.prog with
    | .stmt effect _ => (effect (s.db.apply txn.writes)).locks
    | _ => []
  | _ => []

-- A transaction waits for another that holds one of them.
def WaitsFor (s : System Row Key Err P) (p q : Nat) : Prop := q ≠ p ∧ ∃ k ∈ s.asked p, k ∈ s.heldBy q

instance [DecidableEq Tab] [DecidableEq Key] (s : System Row Key Err P) (p q : Nat) : Decidable (s.WaitsFor p q) :=
  inferInstanceAs (Decidable (q ≠ p ∧ ∃ k ∈ s.asked p, k ∈ s.heldBy q))

variable {s : System Row Key Err P}

theorem asked_parts (asks : k ∈ s.asked p) : ∃ x txn effect next, s.threads p = some (.busy x txn) ∧
    txn.prog = .stmt effect next ∧ k ∈ (effect (s.db.apply txn.writes)).locks := by
  unfold asked at asks
  split at asks
  · rename_i x txn found
    split at asks
    · rename_i effect next at_stmt
      exact ⟨x,txn,effect,next,found,at_stmt,asks⟩
    · cases asks
  · cases asks

theorem asked_stmt (found : s.threads p = some (.busy x txn)) (at_stmt : txn.prog = .stmt effect next) :
    s.asked p = (effect (s.db.apply txn.writes)).locks := by
  simp only [asked,found,at_stmt]

theorem held_some (held : k ∈ s.heldBy p) : ∃ a, s.threads p = some a ∧ k ∈ a.held := by
  unfold heldBy at held
  split at held
  · rename_i a found
    exact ⟨a,found,held⟩
  · cases held

theorem held_apart (apart : q ≠ p) (held : k ∈ s.heldBy p) : k ∉ s.heldBy q := by
  intro again
  obtain ⟨a,at_p,inside⟩ := held_some held
  obtain ⟨b,at_q,too⟩ := held_some again
  exact s.exclusive p q a b (Ne.symm apart) at_p at_q k inside too

-- Waiting is what keeps a statement from running.
theorem waits_iff [DecidableEq Tab] [DecidableEq Key] {caught : P → Err → P} (found : s.threads p = some (.busy x txn)) :
    s.advance? caught p = none ↔ ∃ q, s.WaitsFor p q := by
  have waits : (∃ q, s.WaitsFor p q) ↔ ¬s.Free p (s.asked p) := by
    simp only [Free,WaitsFor,not_forall,not_not,exists_prop]
    constructor
    · rintro ⟨q,apart,k,asks,held⟩
      obtain ⟨a,at_q,_⟩ := held_some held
      exact ⟨q,s.below at_q,apart,k,asks,held⟩
    · rintro ⟨q,_,apart,k,asks,held⟩
      exact ⟨q,apart,k,asks,held⟩
  rw [waits]
  unfold advance?
  split
  · rename_i y other same
    cases found.symm.trans same
    split <;> rename_i at_prog
    · rw [asked_stmt found at_prog,dite_eq_right_iff]
      simp only [reduceCtorEq,imp_false]
    · simp [asked,found,at_prog,Free]
    · simp [asked,found,at_prog,Free]
  · rename_i none
    exact absurd found (none _ _)

theorem waited_holds (path : Relation.TransGen s.WaitsFor p q) : s.heldBy q ≠ [] := by
  have holds : ∀ {b c}, s.WaitsFor b c → s.heldBy c ≠ [] := by
    rintro b c ⟨_,k,_,held⟩ empty
    rw [empty] at held; cases held
  cases path with
  | single waits => exact holds waits
  | tail _ waits => exact holds waits

-- Locks are ranked so that a transaction which others wait for waits, if it does,
-- for one of lower rank: then none waits for itself.
section Ranks
variable (rank : Lock Tab Key → Nat)
  (falls : ∀ p q r k k', s.heldBy p ≠ [] → k ∈ s.asked p → k ∈ s.heldBy q → q ≠ p → k' ∈ s.asked q → k' ∈ s.heldBy r → r ≠ q →
    rank k' < rank k)
include falls

theorem chain_falls (path : Relation.TransGen s.WaitsFor p q) (holds : s.heldBy p ≠ []) : ∃ k ∈ s.asked p,
    (∃ r, r ≠ p ∧ k ∈ s.heldBy r) ∧ ∀ k' ∈ s.asked q, ∀ r, r ≠ q → k' ∈ s.heldBy r → rank k' < rank k := by
  induction path with
  | single waits =>
    obtain ⟨apart,k,asks,held⟩ := waits
    exact ⟨k,asks,⟨_,apart,held⟩,fun k' asks' r apart' held' => falls _ _ r k k' holds asks held apart asks' held' apart'⟩
  | tail path waits ih =>
    obtain ⟨k,asks,held,below⟩ := ih
    obtain ⟨apart,k₁,asks₁,held₁⟩ := waits
    have first := below k₁ asks₁ _ apart held₁
    refine ⟨k,asks,held,fun k' asks' r apart' held' => ?_⟩
    have second := falls _ _ r k₁ k' (waited_holds path) asks₁ held₁ apart asks' held' apart'
    omega

theorem acyclic (p : Nat) : ¬Relation.TransGen s.WaitsFor p p := by
  intro cycle
  obtain ⟨k,asks,⟨r,apart,held⟩,below⟩ := chain_falls rank falls cycle (waited_holds cycle)
  exact Nat.lt_irrefl _ (below k asks r apart held)

end Ranks

-- Without a cycle somebody can go on: from every open transaction the waiting leads
-- to one that waits for nobody.
theorem unblocked (none : ∀ p, ¬Relation.TransGen s.WaitsFor p p) (p : Nat) :
    ∃ q, Relation.ReflTransGen s.WaitsFor p q ∧ ∀ r, ¬s.WaitsFor q r := by
  have bounded : ∀ {a b}, s.WaitsFor a b → b < s.spawned := by
    rintro a b ⟨_,k,_,held⟩
    obtain ⟨thread,at_b,_⟩ := held_some held
    exact s.below at_b
  let later : Fin s.spawned → Fin s.spawned → Prop := fun a b => Relation.TransGen s.WaitsFor b a
  have trans : IsTrans _ later := ⟨fun _ _ _ first second => second.trans first⟩
  have irrefl : Std.Irrefl later := ⟨fun a => none a⟩
  have ends : WellFounded later := Finite.wellFounded_of_trans_of_irrefl later
  have from_inside : ∀ a : Fin s.spawned, ∃ q, Relation.ReflTransGen s.WaitsFor a q ∧ ∀ r, ¬s.WaitsFor q r := by
    intro a
    induction a using ends.induction with
    | h a ih =>
      by_cases waits : ∃ b, s.WaitsFor a b
      · obtain ⟨b,waits⟩ := waits
        obtain ⟨q,path,free⟩ := ih ⟨b,bounded waits⟩ (.single waits)
        exact ⟨q,.head waits path,free⟩
      · exact ⟨a,.refl,fun r waits' => waits ⟨r,waits'⟩⟩
  by_cases waits : ∃ b, s.WaitsFor p b
  · obtain ⟨b,waits⟩ := waits
    obtain ⟨q,path,free⟩ := from_inside ⟨b,bounded waits⟩
    exact ⟨q,.head waits path,free⟩
  · exact ⟨p,.refl,fun r waits' => waits ⟨r,waits'⟩⟩

end System

-- What a transaction asks for in a disciplined system is what its protocol lets it ask for.
theorem asked_takes {C : Protocol Row Key P} {s : System Row Key Err P} (valid : s.Disciplined C) (asks : k ∈ s.asked p) :
    ∃ e : Effect Row Key, C.takes (s.heldBy p) s.db e ∧ k ∈ e.locks := by
  obtain ⟨x,txn,effect,next,found,at_stmt,needs⟩ := System.asked_parts asks
  have safe := valid.safe p x txn found
  rw [at_stmt] at safe
  have held : s.heldBy p = txn.held := by simp only [System.heldBy,found,Thread.held]
  rw [held]
  exact ⟨_,(safe s.taken s.db (sees_own valid found)).1,needs⟩

end Relational
