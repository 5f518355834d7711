namespace Relational

-- A service call as its statements outside a transaction, each committed by itself.
inductive Script (S E α : Type) where
  | done (a : α)
  | throw (e : E)
  | read (next : S → Script S E α)
  | write (body : S → Except E S) (next : Script S E α)

namespace Script
variable {S E α : Type}

def run : Script S E α → S → S × Except E α
  | done a,s => (s,.ok a)
  | throw e,s => (s,.error e)
  | read next,s => (next s).run s
  | write body next,s => match body s with
    | .ok s' => next.run s'
    | .error e => (s,.error e)

-- What the call leaves when its write number `fault` fails, or none of them.
def left : Script S E α → Option Nat → S → S
  | done _,_,s => s
  | throw _,_,s => s
  | read next,fault,s => (next s).left fault s
  | write _ _,some 0,s => s
  | write body next,fault,s => match body s with
    | .ok s' => next.left (fault.map (· - 1)) s'
    | .error _ => s

-- How many of its writes are committed then.
def writes : Script S E α → Option Nat → S → Nat
  | done _,_,_ => 0
  | throw _,_,_ => 0
  | read next,fault,s => (next s).writes fault s
  | write _ _,some 0,_ => 0
  | write body next,fault,s => match body s with
    | .ok s' => next.writes (fault.map (· - 1)) s' + 1
    | .error _ => 0

-- `Q` holds of whatever the call leaves.
def Always (Q : S → Prop) : Script S E α → S → Prop
  | done _,s => Q s
  | throw _,s => Q s
  | read next,s => (next s).Always Q s
  | write body next,s => Q s ∧ ∀ s', body s = .ok s' → next.Always Q s'

variable {x : Script S E α} {s : S} {Q : S → Prop}

-- The first write fails, or the rest goes on from what it has written.
theorem write_cases (body : S → Except E S) (next : Script S E α) (fault : Option Nat) (s : S) :
    ((fault = some 0 ∨ ∃ e, body s = .error e) ∧
      (write body next).left fault s = s ∧ (write body next).writes fault s = 0) ∨
    ∃ s', fault ≠ some 0 ∧ body s = .ok s' ∧ (write body next).left fault s = next.left (fault.map (· - 1)) s' ∧
      (write body next).writes fault s = next.writes (fault.map (· - 1)) s' + 1 := by
  by_cases first : fault = some 0
  · subst fault
    exact .inl ⟨.inl rfl,rfl,rfl⟩
  cases ran : body s with
  | error e =>
    refine .inl ⟨.inr ⟨e,rfl⟩,?_⟩
    cases fault with
    | none => simp only [left,writes,ran,and_self]
    | some n => cases n with
      | zero => exact absurd rfl first
      | succ n => simp only [left,writes,ran,and_self]
  | ok s' =>
    refine .inr ⟨s',first,rfl,?_⟩
    cases fault with
    | none => simp only [left,writes,ran,and_self]
    | some n => cases n with
      | zero => exact absurd rfl first
      | succ n => simp only [left,writes,ran,and_self]

theorem left_write {body : S → Except E S} {next : Script S E α} {fault : Option Nat}
    (fails : (fault = some 0 ∨ ∃ e, body s = .error e) → Q s)
    (writes : ∀ s', fault ≠ some 0 → body s = .ok s' → Q (next.left (fault.map (· - 1)) s')) :
    Q ((write body next).left fault s) := by
  rcases write_cases body next fault s with ⟨failed,left,_⟩ | ⟨s',first,ran,left,_⟩
  · rw [left]; exact fails failed
  · rw [left]; exact writes s' first ran

theorem left_unwritten {fault : Option Nat} (none : x.writes fault s = 0) : x.left fault s = s := by
  induction x generalizing s fault with
  | done | throw => rfl
  | read next ih => exact ih s none
  | write body next ih =>
    rcases write_cases body next fault s with ⟨_,left,_⟩ | ⟨s',_,_,_,count⟩
    · exact left
    · rw [count] at none; cases none

theorem first_written {fault : Option Nat} (wrote : 0 < x.writes fault s) : fault ≠ some 0 := by
  induction x generalizing s with
  | done | throw => exact absurd wrote (Nat.lt_irrefl 0)
  | read next ih => exact ih s wrote
  | write body next _ =>
    rintro rfl
    exact absurd wrote (Nat.lt_irrefl 0)

theorem second_write {fault : Option Nat} (first : fault ≠ some 0) (second : fault.map (· - 1) = some 0) : fault = some 1 := by
  cases fault with
  | none => cases second
  | some n =>
    have positive : n ≠ 0 := fun same => first (by rw [same])
    have below : n - 1 = 0 := Option.some.inj second
    rw [show n = 1 by omega]

theorem always_iff : x.Always Q s ↔ ∀ fault, Q (x.left fault s) := by
  induction x generalizing s with
  | done | throw => exact ⟨fun holds _ => holds,fun holds => holds none⟩
  | read next ih => exact ih s
  | write body next ih =>
    constructor
    · rintro ⟨now,later⟩ fault
      exact left_write (fun _ => now) fun s' _ ran => ih.mp (later s' ran) _
    · intro holds
      refine ⟨holds (some 0),fun s' ran => ih.mpr fun fault => ?_⟩
      have after := holds (fault.map (· + 1))
      cases fault <;> simpa only [left,ran,Option.map_none,Option.map_some,Nat.add_sub_cancel] using after

end Script

-- One call after another.
inductive Reaches (step : S → A → S) (may : S → A → Prop) (start : S) : S → Prop where
  | start : Reaches step may start start
  | next (path : Reaches step may start s) (allowed : may s a) : Reaches step may start (step s a)

section Runs
variable {S : Type u} {A : Type v} {step : S → A → S} {may : S → A → Prop} {start s : S} {P : S → Prop}

theorem reaches_keeps (initial : P start) (keeps : ∀ s a, P s → may s a → P (step s a))
    (path : Reaches step may start s) : P s := by
  induction path with
  | start => exact initial
  | next _ allowed ih => exact keeps _ _ ih allowed

end Runs
end Relational
