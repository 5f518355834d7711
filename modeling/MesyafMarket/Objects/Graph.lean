import Mathlib.Data.Fintype.Card
import Mathlib.Data.List.Nodup

namespace Objects

-- A value of a graph with `n` objects. `P` are the primitive values other than texts.
inductive Val (P : Type) (n : Nat) where
  | prim (p : P)
  | str (s : String)
  | ref (a : Fin n)
  deriving DecidableEq

structure ErrorTexts where
  name : String
  message : String
  code : Option String
  stack : String

-- The own fields of a plain object in the sequence of Object.entries.
inductive Cell (P : Type) (n : Nat) where
  | obj (fields : List (String × Val P n))
  | arr (items : List (Val P n))
  | error (e : ErrorTexts)

abbrev Heap (P : Type) (n : Nat) := Fin n → Cell P n

-- A value without references.
inductive Printout (P : Type) where
  | prim (p : P)
  | str (s : String)
  | arr (items : List (Printout P))
  | obj (fields : List (String × Printout P))

-- A primitive value or a text somewhere in a tree; keys are none of them.
inductive Appears (x : Printout P) : Printout P → Prop where
  | here : Appears x x
  | item (member : t ∈ items) (inner : Appears x t) : Appears x (.arr items)
  | field (member : (key,t) ∈ fields) (inner : Appears x t) : Appears x (.obj fields)

-- A record as JavaScript keeps it: a key that is there already is overwritten.
abbrev Fields (V : Type) := List (String × V)

namespace Fields
variable {V W : Type}

def get (fields : Fields V) (key : String) : Option V := (fields.find? fun entry => entry.1 == key).map Prod.snd

def put : Fields V → String → V → Fields V
  | [],key,v => [(key,v)]
  | entry::rest,key,v => if entry.1 = key then (key,v)::rest else entry::put rest key v

-- `{...fields, ...more}`
def merge (fields more : Fields V) : Fields V := more.foldl (fun all entry => all.put entry.1 entry.2) fields

@[simp] theorem get_nil (key : String) : get ([] : Fields V) key = none := rfl

theorem get_cons (entry : String × V) (rest : Fields V) (key : String) :
    get (entry::rest) key = if entry.1 = key then some entry.2 else rest.get key := by
  unfold get
  rw [List.find?_cons]
  by_cases same : entry.1 = key
  · simp [same]
  · have other : (entry.1 == key) = false := by simpa using same
    simp [other,same]

theorem get_put (fields : Fields V) (key other : String) (v : V) :
    (fields.put key v).get other = if key = other then some v else fields.get other := by
  induction fields with
  | nil => rw [put,get_cons]
  | cons entry rest ih =>
    unfold put
    by_cases same : entry.1 = key
    · rw [if_pos same,get_cons,get_cons,same]
      split <;> rfl
    · rw [if_neg same,get_cons,get_cons,ih]
      by_cases hit : entry.1 = other
      · rw [if_pos hit,if_pos hit,if_neg fun equal => same (hit.trans equal.symm)]
      · rw [if_neg hit,if_neg hit]

theorem get_mem {fields : Fields V} (found : fields.get key = some v) : (key,v) ∈ fields := by
  obtain ⟨entry,first,rfl⟩ := Option.map_eq_some_iff.mp found
  have same := List.find?_some first
  rw [beq_iff_eq] at same
  rw [← same]
  exact List.mem_of_find?_eq_some first

theorem get_none {fields : Fields V} : fields.get key = none ↔ key ∉ fields.map Prod.fst := by
  induction fields with
  | nil => simp
  | cons entry rest ih =>
    rw [get_cons,List.map_cons,List.mem_cons]
    by_cases same : entry.1 = key
    · simp [same]
    · simp [same,ih,Ne.symm same]

theorem get_of_mem {fields : Fields V} (distinct : (fields.map Prod.fst).Nodup) (member : (key,v) ∈ fields) :
    fields.get key = some v := by
  induction fields with
  | nil => cases member
  | cons entry rest ih =>
    rw [List.map_cons,List.nodup_cons] at distinct
    rw [get_cons]
    rcases List.mem_cons.mp member with rfl | later
    · rw [if_pos rfl]
    · rw [if_neg,ih distinct.2 later]
      rintro rfl
      exact distinct.1 (List.mem_map.mpr ⟨_,later,rfl⟩)

theorem mem_put {fields : Fields V} (member : entry ∈ fields.put key v) : entry ∈ fields ∨ entry = (key,v) := by
  induction fields with
  | nil => exact .inr (List.mem_singleton.mp member)
  | cons first rest ih =>
    unfold put at member
    split at member
    · rcases List.mem_cons.mp member with rfl | later
      · exact .inr rfl
      · exact .inl (List.mem_cons_of_mem _ later)
    · rcases List.mem_cons.mp member with rfl | later
      · exact .inl List.mem_cons_self
      · rcases ih later with before | new
        · exact .inl (List.mem_cons_of_mem _ before)
        · exact .inr new

theorem mem_merge {fields more : Fields V} (member : entry ∈ fields.merge more) : entry ∈ fields ∨ entry ∈ more := by
  induction more generalizing fields with
  | nil => exact .inl member
  | cons first rest ih =>
    have later : entry ∈ (fields.put first.1 first.2).merge rest := member
    rcases ih later with before | new
    · rcases mem_put before with old | rfl
      · exact .inl old
      · exact .inr List.mem_cons_self
    · exact .inr (List.mem_cons_of_mem _ new)

theorem merge_append (fields more later : Fields V) : fields.merge (more ++ later) = (fields.merge more).merge later :=
  List.foldl_append ..

theorem put_keys (fields : Fields V) (key : String) (v : V) :
    (fields.put key v).map Prod.fst = if key ∈ fields.map Prod.fst then fields.map Prod.fst else fields.map Prod.fst ++ [key] := by
  induction fields with
  | nil => simp [put]
  | cons entry rest ih =>
    unfold put
    by_cases same : entry.1 = key
    · simp [same]
    · rw [if_neg same,List.map_cons,ih,List.map_cons]
      by_cases hit : key ∈ rest.map Prod.fst
      · rw [if_pos hit,if_pos (List.mem_cons_of_mem _ hit)]
      · rw [if_neg hit,if_neg (by simpa [Ne.symm same] using hit)]
        rfl

theorem put_nodup {fields : Fields V} (distinct : (fields.map Prod.fst).Nodup) (key : String) (v : V) :
    ((fields.put key v).map Prod.fst).Nodup := by
  rw [put_keys]
  split
  · exact distinct
  · rename_i fresh
    exact List.nodup_append.mpr ⟨distinct,by simp,fun a member b last => by
      rw [List.mem_singleton.mp last]
      rintro rfl
      exact fresh member⟩

theorem merge_nodup {fields : Fields V} (distinct : (fields.map Prod.fst).Nodup) (more : Fields V) :
    ((fields.merge more).map Prod.fst).Nodup := by
  induction more generalizing fields with
  | nil => exact distinct
  | cons entry rest ih => exact ih (put_nodup distinct _ _)

theorem get_merge_other {fields more : Fields V} (absent : key ∉ more.map Prod.fst) :
    (fields.merge more).get key = fields.get key := by
  induction more generalizing fields with
  | nil => rfl
  | cons entry rest ih =>
    rw [List.map_cons,List.mem_cons,not_or] at absent
    have later : ((fields.put entry.1 entry.2).merge rest).get key = (fields.put entry.1 entry.2).get key := ih absent.2
    rw [get_put,if_neg (Ne.symm absent.1)] at later
    exact later

-- One of the values given for a key is the value of the key.
theorem get_merge {fields more : Fields V} (given : key ∈ more.map Prod.fst) :
    ∃ v, (key,v) ∈ more ∧ (fields.merge more).get key = some v := by
  induction more generalizing fields with
  | nil => cases given
  | cons entry rest ih =>
    by_cases again : key ∈ rest.map Prod.fst
    · obtain ⟨v,member,found⟩ : ∃ v, (key,v) ∈ rest ∧ ((fields.put entry.1 entry.2).merge rest).get key = some v := ih again
      exact ⟨v,List.mem_cons_of_mem _ member,found⟩
    · rw [List.map_cons,List.mem_cons,or_iff_left again] at given
      refine ⟨entry.2,by rw [given]; exact List.mem_cons_self,?_⟩
      have later : ((fields.put entry.1 entry.2).merge rest).get key = (fields.put entry.1 entry.2).get key := get_merge_other again
      rw [get_put,if_pos given.symm] at later
      exact later

end Fields

-- A list is worked through with a state, and any element may stop it.
def thread (f : α → S → Option (β × S)) : List α → S → Option (List β × S)
  | [],s => some ([],s)
  | a::rest,s => (f a s).bind fun one => (thread f rest one.2).map fun all => (one.1::all.1,all.2)

theorem map_first (f : β → γ) (r : Option (β × S)) :
    (r.map fun all => (f all.1,all.2)).map Prod.fst = (r.map Prod.fst).map f := by
  cases r <;> rfl

section Threads
variable {f g : α → S → Option (β × S)} {inv : S → Prop}

theorem thread_cons (found : f a s = some (b,s')) (later : thread f rest s' = some (bs,s'')) :
    thread f (a::rest) s = some (b::bs,s'') := by
  unfold thread
  rw [found,Option.bind_some,later]
  rfl

-- Every element is worked through from every state that holds.
theorem thread_total (all : ∀ a ∈ xs, ∀ s, inv s → ∃ b s', f a s = some (b,s') ∧ inv s') (holds : inv s) :
    ∃ bs s', thread f xs s = some (bs,s') ∧ inv s' := by
  induction xs generalizing s with
  | nil => exact ⟨[],s,rfl,holds⟩
  | cons a rest ih =>
    obtain ⟨b,s',found,after⟩ := all a List.mem_cons_self s holds
    obtain ⟨bs,s'',later,last⟩ := ih (fun a member => all a (List.mem_cons_of_mem _ member)) after
    exact ⟨b::bs,s'',thread_cons found later,last⟩

-- A fact about each element worked through is one about the whole list.
theorem thread_all {P : α → β → Prop} (each : ∀ a ∈ xs, ∀ s b s', f a s = some (b,s') → P a b)
    (ran : thread f xs s = some (bs,s')) : List.Forall₂ P xs bs := by
  induction xs generalizing s bs with
  | nil =>
    cases ran
    exact .nil
  | cons a rest ih =>
    obtain ⟨one,found,later⟩ := Option.bind_eq_some_iff.mp ran
    obtain ⟨all,rest_ran,same⟩ := Option.map_eq_some_iff.mp later
    cases same
    exact .cons (each a List.mem_cons_self _ _ _ found) (ih (fun a member => each a (List.mem_cons_of_mem _ member)) rest_ran)

theorem thread_start (each : ∀ a ∈ xs, ∀ s s', (f a s).map Prod.fst = (f a s').map Prod.fst) (s s' : S) :
    (thread f xs s).map Prod.fst = (thread f xs s').map Prod.fst := by
  induction xs generalizing s s' with
  | nil => rfl
  | cons a rest ih =>
    have first := each a List.mem_cons_self s s'
    have later := ih fun b member => each b (List.mem_cons_of_mem _ member)
    unfold thread
    cases left : f a s with
    | none =>
      rw [left] at first
      rw [Option.map_eq_none_iff.mp first.symm]
    | some one =>
      rw [left] at first
      obtain ⟨other,right,same⟩ := Option.map_eq_some_iff.mp first.symm
      rw [right,Option.bind_some,Option.bind_some]
      rw [map_first,map_first,later one.2 other.2,same]

end Threads

-- How a graph is shown: the keys whose values are hidden, what stands for these, for
-- an object inside itself, and for an error.
structure Marks (P : Type) where
  hides : String → Bool
  hidden : Printout P
  circular : Printout P
  error : ErrorTexts → Printout P

section Images
variable {P : Type} {n : Nat} (M : Marks P) (h : Heap P n)

def Marks.field (go : Val P n → S → Option (Printout P × S)) (entry : String × Val P n) (s : S) :
    Option ((String × Printout P) × S) :=
  if M.hides entry.1 then some ((entry.1,M.hidden),s) else (go entry.2 s).map fun shown => ((entry.1,shown.1),shown.2)

-- The tree of a value below the objects of `path`. `laid` collects the objects that
-- are laid out, each as often as it is.
def image : Nat → List (Fin n) → Val P n → List (Fin n) → Option (Printout P × List (Fin n))
  | _,_,.prim p,laid => some (.prim p,laid)
  | _,_,.str s,laid => some (.str s,laid)
  | 0,_,.ref _,_ => none
  | d+1,path,.ref a,laid => match h a with
    | .error e => some (M.error e,laid)
    | .arr items => if a ∈ path then some (M.circular,laid)
      else (thread (image d (a::path)) items (a::laid)).map fun all => (.arr all.1,all.2)
    | .obj fields => if a ∈ path then some (M.circular,laid)
      else (thread (M.field (image d (a::path))) fields (a::laid)).map fun all => (.obj all.1,all.2)

variable {M h}

theorem field_total {go : Val P n → S → Option (Printout P × S)} {inv : S → Prop} {entry : String × Val P n}
    (total : ∀ s, inv s → ∃ t s', go entry.2 s = some (t,s') ∧ inv s') (s : S) (holds : inv s) :
    ∃ shown s', M.field go entry s = some (shown,s') ∧ inv s' := by
  unfold Marks.field
  split
  · exact ⟨_,s,rfl,holds⟩
  · obtain ⟨t,s',found,after⟩ := total s holds
    exact ⟨(entry.1,t),s',by rw [found]; rfl,after⟩

theorem field_start {go : Val P n → S → Option (Printout P × S)} {entry : String × Val P n}
    (each : ∀ s s', (go entry.2 s).map Prod.fst = (go entry.2 s').map Prod.fst) (s s' : S) :
    (M.field go entry s).map Prod.fst = (M.field go entry s').map Prod.fst := by
  unfold Marks.field
  split
  · rfl
  · rw [map_first,map_first,each s s']

-- The tree does not depend on what has been laid out before.
theorem image_start (path : List (Fin n)) (v : Val P n) (laid laid' : List (Fin n)) :
    (image M h d path v laid).map Prod.fst = (image M h d path v laid').map Prod.fst := by
  induction d generalizing path v laid laid' with
  | zero => cases v <;> rfl
  | succ d ih =>
    cases v with
    | prim | str => rfl
    | ref a =>
      unfold image
      cases h a with
      | error e => rfl
      | arr items =>
        dsimp only
        split
        · rfl
        · rw [map_first,map_first,thread_start fun v _ => ih (a::path) v]
      | obj fields =>
        dsimp only
        split
        · rfl
        · rw [map_first,map_first,thread_start fun (entry : String × Val P n) _ => field_start (ih (a::path) entry.2)]

theorem path_bounded {path : List (Fin n)} (distinct : path.Nodup) : path.length ≤ n := by
  simpa using List.Nodup.length_le_card distinct

-- No object is laid out below itself, so that a graph of `n` objects has no more than
-- `n` of them on a way, and what is laid out stays laid out.
theorem image_total {path base laid : List (Fin n)} (distinct : path.Nodup) (deep : n < d+path.length) (v : Val P n)
    (begun : base <:+ laid) : ∃ t laid', image M h d path v laid = some (t,laid') ∧ base <:+ laid' := by
  induction d generalizing path base laid v with
  | zero =>
    cases v with
    | prim p => exact ⟨_,laid,rfl,begun⟩
    | str s => exact ⟨_,laid,rfl,begun⟩
    | ref a =>
      have bound := path_bounded distinct
      omega
  | succ d ih =>
    cases v with
    | prim p => exact ⟨_,laid,rfl,begun⟩
    | str s => exact ⟨_,laid,rfl,begun⟩
    | ref a =>
      unfold image
      cases h a with
      | error e => exact ⟨_,laid,rfl,begun⟩
      | arr items =>
        dsimp only
        by_cases inside : a ∈ path
        · rw [if_pos inside]; exact ⟨_,laid,rfl,begun⟩
        · rw [if_neg inside]
          have below : ∀ v ∈ items, ∀ s, base <:+ s → ∃ t s', image M h d (a::path) v s = some (t,s') ∧ base <:+ s' :=
            fun v _ s => ih (List.nodup_cons.mpr ⟨inside,distinct⟩) (by rw [List.length_cons]; omega) v
          obtain ⟨ts,laid',ran,after⟩ := thread_total below (begun.trans (List.suffix_cons a laid))
          exact ⟨.arr ts,laid',by rw [ran]; rfl,after⟩
      | obj fields =>
        dsimp only
        by_cases inside : a ∈ path
        · rw [if_pos inside]; exact ⟨_,laid,rfl,begun⟩
        · rw [if_neg inside]
          have below : ∀ entry ∈ fields, ∀ s, base <:+ s → ∃ t s', M.field (image M h d (a::path)) entry s = some (t,s') ∧ base <:+ s' :=
            fun entry _ => field_total fun s =>
              ih (List.nodup_cons.mpr ⟨inside,distinct⟩) (by rw [List.length_cons]; omega) entry.2
          obtain ⟨ts,laid',ran,after⟩ := thread_total below (begun.trans (List.suffix_cons a laid))
          exact ⟨.obj ts,laid',by rw [ran]; rfl,after⟩

end Images
end Objects
