import Mathlib.Logic.Function.Basic

namespace Redis
variable {K V : Type}

structure Entry (V : Type) where
  value : V
  expiresAt : Option Nat
  deriving DecidableEq

-- Keys with the time at which they expire, in milliseconds of the server's clock.
structure Store (K V : Type) where
  entries : K → Option (Entry V)
  clock : Nat

def Entry.Alive (e : Entry V) (now : Nat) : Prop := ∀ t, e.expiresAt = some t → now ≤ t

def Entry.alive (e : Entry V) (now : Nat) : Bool := e.expiresAt.all fun t => now ≤ t

@[simp] theorem Entry.alive_iff {e : Entry V} : e.alive now = true ↔ e.Alive now := by
  unfold Entry.alive Entry.Alive
  cases e.expiresAt <;> simp

namespace Store

def empty (now : Nat) : Store K V := ⟨fun _ => none,now⟩

-- A key whose time is over is gone, whenever the server gets to delete it.
def find (s : Store K V) (k : K) : Option (Entry V) := (s.entries k).filter fun e => e.alive s.clock

def keyExists (s : Store K V) (k : K) : Bool := (s.find k).isSome

def get (s : Store K V) (k : K) : Option V := (s.find k).map Entry.value

-- TTL in seconds, rounded as the server rounds it; -1 for a key that stays, -2 for no key.
def ttl (s : Store K V) (k : K) : Int :=
  match s.find k with
  | none => -2
  | some e => match e.expiresAt with
    | none => -1
    | some t => (t-s.clock+500)/1000

def pass (s : Store K V) (ms : Nat) : Store K V := {s with clock := s.clock+ms}

theorem find_some {s : Store K V} : s.find k = some e ↔ s.entries k = some e ∧ e.Alive s.clock := by
  unfold find
  rw [Option.filter_eq_some_iff,Entry.alive_iff]

theorem find_pass {s : Store K V} (found : (s.pass ms).find k = some e) : s.find k = some e := by
  obtain ⟨at_k,alive⟩ := find_some.mp found
  refine find_some.mpr ⟨at_k,?_⟩
  intro t due
  have later := alive t due
  simp only [Store.pass] at later
  omega

-- Once the clock is past its expiry a key is not found any more.
theorem find_over {s : Store K V} (bound : ∀ e, s.find k = some e → ∃ t, e.expiresAt = some t ∧ t < s.clock+ms) :
    (s.pass ms).find k = none := by
  cases found : (s.pass ms).find k with
  | none => rfl
  | some e =>
    obtain ⟨t,due,late⟩ := bound e (find_pass found)
    have alive := (find_some.mp found).2 t due
    simp only [Store.pass] at alive
    omega

theorem get_pass {s : Store K V} (found : (s.pass ms).get k = some v) : s.get k = some v := by
  obtain ⟨e,live,value⟩ := Option.map_eq_some_iff.mp found
  exact Option.map_eq_some_iff.mpr ⟨e,find_pass live,value⟩

-- DEL of every key that `p` picks.
def drop (s : Store K V) (p : K → Bool) : Store K V := {s with entries := fun k => if p k then none else s.entries k}

theorem get_drop {s : Store K V} : (s.drop p).get k = some v ↔ p k = false ∧ s.get k = some v := by
  cases hit : p k <;> simp [get,find,drop,hit]

section Writes
variable [DecidableEq K]

def put (s : Store K V) (k : K) (e : Entry V) : Store K V := {s with entries := Function.update s.entries k (some e)}

def del (s : Store K V) (k : K) : Store K V := {s with entries := Function.update s.entries k none}

-- SET, with EX where a time to live is given.
def set (s : Store K V) (k : K) (v : V) (seconds : Option Nat) : Store K V :=
  s.put k ⟨v,seconds.map fun seconds => s.clock+seconds*1000⟩

def expire (s : Store K V) (k : K) (seconds : Nat) : Store K V :=
  match s.find k with
  | none => s
  | some e => if seconds = 0 then s.del k else s.put k {e with expiresAt := some (s.clock+seconds*1000)}

-- INCR of a value that `number` reads: no reply where the value is no number. A key
-- that is there keeps its expiry, a new one has none.
def incr (s : Store K V) (k : K) (number : V → Option Int) (ofNumber : Int → V) : Store K V × Option Int :=
  match s.find k with
  | none => (s.put k ⟨ofNumber 1,none⟩,some 1)
  | some e => match number e.value with
    | none => (s,none)
    | some n => (s.put k {e with value := ofNumber (n+1)},some (n+1))

@[simp] theorem put_clock {s : Store K V} : (s.put k e).clock = s.clock := rfl
@[simp] theorem del_clock {s : Store K V} : (s.del k).clock = s.clock := rfl
@[simp] theorem set_clock {s : Store K V} : (s.set k v seconds).clock = s.clock := rfl

@[simp] theorem find_put_other {s : Store K V} (other : k' ≠ k) : (s.put k e).find k' = s.find k' := by
  simp [find,put,Function.update_of_ne other]

@[simp] theorem find_del {s : Store K V} : (s.del k).find k = none := by
  simp [find,del]

@[simp] theorem find_del_other {s : Store K V} (other : k' ≠ k) : (s.del k).find k' = s.find k' := by
  simp [find,del,Function.update_of_ne other]

theorem put_some {s : Store K V} (found : (s.put k e).find k' = some e') :
    (k' = k ∧ e' = e) ∨ (k' ≠ k ∧ s.find k' = some e') := by
  by_cases same : k' = k
  · subst same
    have here := (find_some.mp found).1
    simp only [put,Function.update_self,Option.some.injEq] at here
    exact .inl ⟨rfl,here.symm⟩
  · rw [find_put_other same] at found
    exact .inr ⟨same,found⟩

theorem set_some {s : Store K V} (found : (s.set k v seconds).find k' = some e') :
    (k' = k ∧ e' = ⟨v,seconds.map fun seconds => s.clock+seconds*1000⟩) ∨ (k' ≠ k ∧ s.find k' = some e') :=
  put_some found

theorem get_set {s : Store K V} (found : (s.set k v seconds).get k' = some v') :
    (k' = k ∧ v' = v) ∨ (k' ≠ k ∧ s.get k' = some v') := by
  obtain ⟨e,live,value⟩ := Option.map_eq_some_iff.mp found
  rcases set_some live with ⟨same,row⟩ | ⟨other,before⟩
  · exact .inl ⟨same,by rw [← value,row]⟩
  · exact .inr ⟨other,Option.map_eq_some_iff.mpr ⟨e,before,value⟩⟩

-- What a key holds after EXPIRE, and when it expires.
theorem expire_some {s : Store K V} (found : (s.expire k seconds).find k' = some e') :
    ∃ e, s.find k' = some e ∧ e'.value = e.value ∧
      ((k' = k ∧ e'.expiresAt = some (s.clock+seconds*1000)) ∨ (k' ≠ k ∧ e' = e)) := by
  unfold expire at found
  split at found
  · rename_i none
    have other : k' ≠ k := by
      intro same
      rw [same,none] at found
      cases found
    exact ⟨e',found,rfl,.inr ⟨other,rfl⟩⟩
  · rename_i e at_k
    split at found
    · by_cases same : k' = k
      · subst same
        rw [find_del] at found
        cases found
      · rw [find_del_other same] at found
        exact ⟨e',found,rfl,.inr ⟨same,rfl⟩⟩
    · rcases put_some found with ⟨same,row⟩ | ⟨other,before⟩
      · subst same row
        exact ⟨e,at_k,rfl,.inl ⟨rfl,rfl⟩⟩
      · exact ⟨e',before,rfl,.inr ⟨other,rfl⟩⟩

@[simp] theorem expire_clock {s : Store K V} : (s.expire k seconds).clock = s.clock := by
  unfold expire
  split
  · rfl
  · split <;> rfl

-- How INCR ends.
inductive Incremented (s : Store K V) (k : K) (number : V → Option Int) (ofNumber : Int → V) :
    Store K V × Option Int → Prop where
  | first (absent : s.find k = none) : Incremented s k number ofNumber (s.put k ⟨ofNumber 1,none⟩,some 1)
  | next (found : s.find k = some e) (read : number e.value = some n) :
      Incremented s k number ofNumber (s.put k {e with value := ofNumber (n+1)},some (n+1))
  | refused (found : s.find k = some e) (read : number e.value = none) : Incremented s k number ofNumber (s,none)

theorem incr_parts (s : Store K V) (k : K) (number : V → Option Int) (ofNumber : Int → V) :
    Incremented s k number ofNumber (s.incr k number ofNumber) := by
  unfold incr
  split
  · rename_i absent; exact .first absent
  · rename_i e found
    split
    · rename_i read; exact .refused found read
    · rename_i n read; exact .next found read

end Writes

-- Every value that a cache holds is one that its key may stand for.
def Coherent (s : Store K V) (fresh : K → V → Prop) : Prop := ∀ k v, s.get k = some v → fresh k v

section Coherence
variable {s : Store K V} {fresh : K → V → Prop}

theorem coherent_empty : (empty now : Store K V).Coherent fresh := nofun

theorem coherent_pass (valid : s.Coherent fresh) : (s.pass ms).Coherent fresh := fun k v found => valid k v (get_pass found)

theorem coherent_set [DecidableEq K] (valid : s.Coherent fresh) (new : fresh k v) : (s.set k v seconds).Coherent fresh := by
  intro k' v' found
  rcases get_set found with ⟨rfl,rfl⟩ | ⟨_,before⟩
  · exact new
  · exact valid k' v' before

-- What the keys stand for changes, and of those that stay none is out of date.
theorem coherent_drop {fresh' : K → V → Prop} (valid : s.Coherent fresh)
    (kept : ∀ k v, p k = false → s.get k = some v → fresh k v → fresh' k v) : (s.drop p).Coherent fresh' := by
  intro k v found
  obtain ⟨stays,before⟩ := get_drop.mp found
  exact kept k v stays before (valid k v before)

end Coherence
end Store
end Redis
