import Mathlib.Data.List.Sort
import MesyafMarket.Objects.Graph

namespace MesyafMarket
open Objects

namespace AppLogger

def REDACTED_KEYS : List String :=
  ["password","token","access_token","authorization","refreshToken","refresh_token","secret","jwt"]

def errorTree (P : Type) (e : ErrorTexts) : Printout P :=
  .obj ([("name",.str e.name),("message",.str e.message)] ++
    (match e.code with
      | some code => if code = "" then [] else [("code",.str code)]
      | none => []) ++ [("stack",.str e.stack)])

-- `out[key] = ..` makes no field of the key `__proto__`.
def assigned (out : Fields (Printout P)) : Fields (Printout P) := out.filter fun entry => entry.1 ≠ "__proto__"

section Sanitize
variable {P : Type} {n : Nat}

def sanitizeField (go : Val P n → S → Option (Printout P × S)) (entry : String × Val P n) (seen : S) :
    Option ((String × Printout P) × S) :=
  if entry.1 ∈ REDACTED_KEYS then some ((entry.1,.str "[REDACTED]"),seen)
  else (go entry.2 seen).map fun shown => ((entry.1,shown.1),shown.2)

-- One set of seen objects is shared by all the calls below the first.
def sanitize (h : Heap P n) : Nat → Val P n → List (Fin n) → Option (Printout P × List (Fin n))
  | _,.prim p,seen => some (.prim p,seen)
  | _,.str s,seen => some (.str s,seen)
  | 0,.ref _,_ => none
  | d+1,.ref a,seen => match h a with
    | .error e => some (errorTree P e,seen)
    | .arr items => if a ∈ seen then some (.str "[Circular]",seen)
      else (thread (sanitize h d) items (a::seen)).map fun all => (.arr all.1,all.2)
    | .obj fields => if a ∈ seen then some (.str "[Circular]",seen)
      else (thread (sanitizeField (sanitize h d)) fields (a::seen)).map fun all => (.obj (assigned all.1),all.2)

inductive Method where
  | log | error | warn | debug | verbose
  deriving DecidableEq

def Method.level : Method → String
  | log => "info"
  | error => "error"
  | warn => "warn"
  | debug | verbose => "debug"

-- What the entry takes from the process.
structure Process (P : Type) where
  pid : P
  NODE_ENV : Option String
  timestamp : String

structure Call (P : Type) (n : Nat) where
  method : Method
  message : Val P n
  params : List (Val P n)

def strings (params : List (Val P n)) : List String :=
  params.filterMap fun p => match p with
    | .str s => some s
    | _ => none

def contextOf (context : String) (params : List (Val P n)) : String := (strings params).getLast?.getD context

def stackOf (params : List (Val P n)) : Fields (Val P n) :=
  match strings params with
  | first::_::_ => [("stack",.str first)]
  | _ => []

-- What a parameter adds to `meta`.
def given (h : Heap P n) (p : Val P n) : Fields (Val P n) :=
  match p with
  | .ref a => match h a with
    | .error _ => [("error",p)]
    | .obj fields => fields
    | .arr items => items.zipIdx.map fun item => (toString item.2,item.1)
  | _ => []

def metadata (h : Heap P n) (params : List (Val P n)) : Fields (Val P n) :=
  params.foldl (fun fields p => fields.merge (given h p)) (stackOf params)

-- The index that a key is, written as JavaScript writes it.
def arrayIndex (key : String) : Option Nat :=
  (key.toList.foldlM (fun (i : Nat) (c : Char) => if c.isDigit then some (10*i+(c.toNat - '0'.toNat)) else none) 0).filter fun i =>
    toString i = key && i < 4294967295

-- Object.entries: the array indices in ascending order, then the other keys.
def entries (fields : Fields V) : Fields V :=
  ((fields.filter fun entry => (arrayIndex entry.1).isSome).insertionSort fun a b => (arrayIndex a.1).getD 0 ≤ (arrayIndex b.1).getD 0) ++
    fields.filter fun entry => !(arrayIndex entry.1).isSome

def print (h : Heap P n) (depth : Nat) (context : String) (process : Process P) (call : Call P n) :
    Option (Fields (Printout P)) := do
  let message ← match call.message with
    | .str s => some (.str s)
    | v => (sanitize h depth v []).map Prod.fst
  let out ← thread (sanitizeField (sanitize h depth)) (entries (metadata h call.params)) []
  let entry : Fields (Printout P) := [("level",.str call.method.level),("context",.str (contextOf context call.params)),("message",message)]
  return (entry.merge (assigned out.1)).merge [("pid",.prim process.pid),("env",.str (process.NODE_ENV.getD "development")),
    ("timestamp",.str process.timestamp)]

end Sanitize

-- What the graph should be shown as.
def redacting (P : Type) : Marks P := ⟨fun key => key ∈ REDACTED_KEYS,.str "[REDACTED]",.str "[Circular]",errorTree P⟩

section Walks
variable {P : Type} {n : Nat} {h : Heap P n}

theorem sanitizeField_marks (go : Val P n → S → Option (Printout P × S)) : sanitizeField go = (redacting P).field go := by
  funext entry s
  simp [sanitizeField,Marks.field,redacting]

-- No object is laid out twice, and none has a field `__proto__`.
structure Clean (h : Heap P n) (laid : List (Fin n)) : Prop where
  distinct : laid.Nodup
  plain : ∀ a ∈ laid, ∀ fields, h a = .obj fields → "__proto__" ∉ fields.map Prod.fst

theorem clean_suffix (clean : Clean h laid') (suffix : laid <:+ laid') : Clean h laid :=
  ⟨clean.distinct.sublist suffix.sublist,fun a member => clean.plain a (suffix.mem member)⟩

section Cells
variable {a : Fin n} {seen : List (Fin n)}

theorem sanitize_error (at_a : h a = .error e) : sanitize h (d+1) (.ref a) seen = some (errorTree P e,seen) := by
  conv_lhs => whnf
  rw [at_a]

theorem sanitize_arr (at_a : h a = .arr items) : sanitize h (d+1) (.ref a) seen =
    if a ∈ seen then some (.str "[Circular]",seen)
    else (thread (sanitize h d) items (a::seen)).map fun all => (.arr all.1,all.2) := by
  conv_lhs => whnf
  rw [at_a]

theorem sanitize_obj (at_a : h a = .obj fields) : sanitize h (d+1) (.ref a) seen =
    if a ∈ seen then some (.str "[Circular]",seen)
    else (thread (sanitizeField (sanitize h d)) fields (a::seen)).map fun all => (.obj (assigned all.1),all.2) := by
  conv_lhs => whnf
  rw [at_a]

end Cells

-- What has been seen only grows, and a walk comes to an end.
theorem sanitize_total {path seen : List (Fin n)} (distinct : path.Nodup) (deep : n < d+path.length) (v : Val P n)
    (within : path ⊆ seen) : ∃ t seen', sanitize h d v seen = some (t,seen') ∧ path ⊆ seen' := by
  induction d generalizing path seen v with
  | zero =>
    cases v with
    | prim p => exact ⟨_,seen,rfl,within⟩
    | str s => exact ⟨_,seen,rfl,within⟩
    | ref a =>
      have bound := path_bounded distinct
      omega
  | succ d ih =>
    cases v with
    | prim p => exact ⟨_,seen,rfl,within⟩
    | str s => exact ⟨_,seen,rfl,within⟩
    | ref a =>
      have below : a ∉ seen → ∀ v s, a::path ⊆ s → ∃ t s', sanitize h d v s = some (t,s') ∧ a::path ⊆ s' := fun fresh v s =>
        ih (List.nodup_cons.mpr ⟨fun inside => fresh (within inside),distinct⟩) (by rw [List.length_cons]; omega) v
      cases at_a : h a with
      | error e => exact ⟨_,seen,sanitize_error at_a,within⟩
      | arr items =>
        rw [sanitize_arr at_a]
        by_cases again : a ∈ seen
        · rw [if_pos again]; exact ⟨_,seen,rfl,within⟩
        · rw [if_neg again]
          obtain ⟨ts,seen',ran,after⟩ := thread_total (fun v _ s => below again v s) (List.cons_subset_cons a within)
          exact ⟨.arr ts,seen',by rw [ran]; rfl,fun x member => after (List.mem_cons_of_mem _ member)⟩
      | obj fields =>
        rw [sanitize_obj at_a]
        by_cases again : a ∈ seen
        · rw [if_pos again]; exact ⟨_,seen,rfl,within⟩
        · rw [if_neg again,sanitizeField_marks]
          obtain ⟨ts,seen',ran,after⟩ := thread_total
            (fun (entry : String × Val P n) _ => field_total (M := redacting P) fun s => below again entry.2 s)
            (List.cons_subset_cons a within)
          exact ⟨.obj (assigned ts),seen',by rw [ran]; rfl,fun x member => after (List.mem_cons_of_mem _ member)⟩

-- Two walks from one state, the one as the code makes it and the one that shows the
-- graph: they come to the same, or the second has laid out something it must not.
def Compared (h : Heap P n) (x y : Option (β × List (Fin n))) : Prop :=
  ∃ t s₁ u s₂, x = some (t,s₁) ∧ y = some (u,s₂) ∧ ((t = u ∧ s₁ = s₂ ∧ Clean h s₂) ∨ (t ≠ u ∧ ¬Clean h s₂))

theorem compared_map {f : β → γ} (inj : ∀ t u, f t = f u → t = u) (compared : Compared h x y) :
    Compared h (x.map fun all => (f all.1,all.2)) (y.map fun all => (f all.1,all.2)) := by
  obtain ⟨t,s₁,u,s₂,rfl,rfl,⟨rfl,rfl,clean⟩ | ⟨differ,dirty⟩⟩ := compared
  · exact ⟨_,_,_,_,rfl,rfl,.inl ⟨rfl,rfl,clean⟩⟩
  · exact ⟨_,_,_,_,rfl,rfl,.inr ⟨fun same => differ (inj _ _ same),dirty⟩⟩

theorem compared_thread {f g : α → List (Fin n) → Option (β × List (Fin n))} {path : List (Fin n)}
    (each : ∀ a ∈ xs, ∀ s, Clean h s → path ⊆ s → Compared h (f a s) (g a s))
    (first : ∀ a ∈ xs, ∀ s, path ⊆ s → ∃ t s', f a s = some (t,s') ∧ path ⊆ s')
    (second : ∀ a ∈ xs, ∀ base s, base <:+ s → ∃ t s', g a s = some (t,s') ∧ base <:+ s')
    (clean : Clean h s) (within : path ⊆ s) : Compared h (thread f xs s) (thread g xs s) := by
  induction xs generalizing s with
  | nil => exact ⟨[],s,[],s,rfl,rfl,.inl ⟨rfl,rfl,clean⟩⟩
  | cons a rest ih =>
    obtain ⟨t,s₁,u,s₂,left,right,outcome⟩ := each a List.mem_cons_self s clean within
    obtain ⟨_,_,right',grown⟩ := second a List.mem_cons_self s s List.suffix_rfl
    cases right.symm.trans right'
    have within₂ : path ⊆ s₂ := fun x member => grown.mem (within member)
    have later : ∀ b ∈ rest, b ∈ a::rest := fun b member => List.mem_cons_of_mem _ member
    rcases outcome with ⟨rfl,rfl,clean₂⟩ | ⟨differ,dirty⟩
    · obtain ⟨ts,s₃,us,s₄,left_rest,right_rest,outcome⟩ := ih (fun b member => each b (later b member))
        (fun b member => first b (later b member)) (fun b member => second b (later b member)) clean₂ within₂
      refine ⟨t::ts,s₃,t::us,s₄,thread_cons left left_rest,thread_cons right right_rest,?_⟩
      rcases outcome with ⟨rfl,rfl,clean₄⟩ | ⟨differ,dirty⟩
      · exact .inl ⟨rfl,rfl,clean₄⟩
      · exact .inr ⟨fun same => differ (List.cons.inj same).2,dirty⟩
    · -- The rest is walked from other states, and the trees differ already.
      obtain ⟨_,_,left',within₁⟩ := first a List.mem_cons_self s within
      cases left.symm.trans left'
      obtain ⟨ts,s₃,left_rest,_⟩ := thread_total (fun b member => first b (later b member)) within₁
      obtain ⟨us,s₄,right_rest,longer⟩ := thread_total (fun b member s held => second b (later b member) s₂ s held) List.suffix_rfl
      refine ⟨t::ts,s₃,u::us,s₄,thread_cons left left_rest,thread_cons right right_rest,.inr ⟨?_,?_⟩⟩
      · exact fun same => differ (List.cons.inj same).1
      · exact fun clean₄ => dirty (clean_suffix clean₄ longer)

theorem compared_field {f g : Val P n → List (Fin n) → Option (Printout P × List (Fin n))} {entry : String × Val P n}
    (clean : Clean h s) (compared : Compared h (f entry.2 s) (g entry.2 s)) :
    Compared h ((redacting P).field f entry s) ((redacting P).field g entry s) := by
  unfold Marks.field
  split
  · exact ⟨_,s,_,s,rfl,rfl,.inl ⟨rfl,rfl,clean⟩⟩
  · exact compared_map (f := fun t => (entry.1,t)) (fun t u same => (Prod.mk.inj same).2) compared

theorem thread_keys {go : Val P n → S → Option (Printout P × S)} {fields : List (String × Val P n)}
    (ran : thread ((redacting P).field go) fields s = some (ts,s')) : ts.map Prod.fst = fields.map Prod.fst := by
  have keys := thread_all (P := fun (entry : String × Val P n) (shown : String × Printout P) => entry.1 = shown.1)
    (fun entry _ s b s' found => by
      unfold Marks.field at found
      split at found
      · cases found; rfl
      · obtain ⟨_,_,same⟩ := Option.map_eq_some_iff.mp found
        cases same; rfl) ran
  exact (List.forall₂_eq_eq_eq ▸ (List.forall₂_map_left_iff.mpr (List.forall₂_map_right_iff.mpr keys)) :
    fields.map Prod.fst = ts.map Prod.fst).symm

theorem assigned_plain {out : Fields (Printout P)} (plain : "__proto__" ∉ out.map Prod.fst) : assigned out = out := by
  unfold assigned
  rw [List.filter_eq_self]
  intro entry member
  refine decide_eq_true ?_
  intro same
  exact plain (List.mem_map.mpr ⟨entry,member,same⟩)

theorem compared_sanitize {path laid : List (Fin n)} (distinct : path.Nodup) (deep : n < d+path.length) (v : Val P n)
    (clean : Clean h laid) (within : path ⊆ laid) :
    Compared h (sanitize h d v laid) (image (redacting P) h d path v laid) := by
  induction d generalizing path laid v with
  | zero =>
    cases v with
    | prim p => exact ⟨_,_,_,_,rfl,rfl,.inl ⟨rfl,rfl,clean⟩⟩
    | str s => exact ⟨_,_,_,_,rfl,rfl,.inl ⟨rfl,rfl,clean⟩⟩
    | ref a =>
      have bound := path_bounded distinct
      omega
  | succ d ih =>
    cases v with
    | prim p => exact ⟨_,_,_,_,rfl,rfl,.inl ⟨rfl,rfl,clean⟩⟩
    | str s => exact ⟨_,_,_,_,rfl,rfl,.inl ⟨rfl,rfl,clean⟩⟩
    | ref a =>
      have bounded : a ∉ path → (a::path).Nodup ∧ n < d+(a::path).length := fun outside =>
        ⟨List.nodup_cons.mpr ⟨outside,distinct⟩,by rw [List.length_cons]; omega⟩
      have each : a ∉ path → ∀ v s, Clean h s → a::path ⊆ s →
          Compared h (sanitize h d v s) (image (redacting P) h d (a::path) v s) :=
        fun outside v s => ih (bounded outside).1 (bounded outside).2 v
      have first : a ∉ path → ∀ v s, a::path ⊆ s → ∃ t s', sanitize h d v s = some (t,s') ∧ a::path ⊆ s' :=
        fun outside v s => sanitize_total (bounded outside).1 (bounded outside).2 v
      have second : a ∉ path → ∀ v base s, base <:+ s →
          ∃ t s', image (redacting P) h d (a::path) v s = some (t,s') ∧ base <:+ s' :=
        fun outside v base s => image_total (bounded outside).1 (bounded outside).2 v
      have still : a ∈ path → a ∈ laid := fun inside => within inside
      have longer := List.cons_subset_cons a within
      unfold image
      cases at_a : h a with
      | error e => exact ⟨_,_,_,_,sanitize_error at_a,rfl,.inl ⟨rfl,rfl,clean⟩⟩
      | arr items =>
        rw [sanitize_arr at_a]
        dsimp only
        by_cases inside : a ∈ path
        · rw [if_pos inside,if_pos (still inside)]
          exact ⟨_,_,_,_,rfl,rfl,.inl ⟨rfl,rfl,clean⟩⟩
        rw [if_neg inside]
        by_cases again : a ∈ laid
        · rw [if_pos again]
          obtain ⟨us,s₂,right,grown⟩ := thread_total (fun v _ s held => second inside v (a::laid) s held) List.suffix_rfl
          refine ⟨_,_,.arr us,s₂,rfl,by rw [right]; rfl,.inr ⟨(fun no => by cases no),fun clean₂ => ?_⟩⟩
          exact (List.nodup_cons.mp (clean_suffix clean₂ grown).distinct).1 again
        · rw [if_neg again]
          have opened : Clean h (a::laid) := by
            refine ⟨List.nodup_cons.mpr ⟨again,clean.distinct⟩,fun x member fields at_x => ?_⟩
            rcases List.mem_cons.mp member with rfl | earlier
            · rw [at_a] at at_x; cases at_x
            · exact clean.plain x earlier fields at_x
          exact compared_map (f := Printout.arr) (fun _ _ same => Printout.arr.inj same) (compared_thread (fun v _ => each inside v)
            (fun v _ => first inside v) (fun v _ => second inside v) opened longer)
      | obj fields =>
        rw [sanitize_obj at_a]
        dsimp only
        by_cases inside : a ∈ path
        · rw [if_pos inside,if_pos (still inside)]
          exact ⟨_,_,_,_,rfl,rfl,.inl ⟨rfl,rfl,clean⟩⟩
        rw [if_neg inside,sanitizeField_marks]
        have second_fields : ∀ (entry : String × Val P n) base s, base <:+ s →
            ∃ t s', (redacting P).field (image (redacting P) h d (a::path)) entry s = some (t,s') ∧ base <:+ s' :=
          fun entry base => field_total fun s => second inside entry.2 base s
        by_cases again : a ∈ laid
        · rw [if_pos again]
          obtain ⟨us,s₂,right,grown⟩ := thread_total (fun (entry : String × Val P n) _ s held => second_fields entry (a::laid) s held)
            (List.suffix_rfl : a::laid <:+ a::laid)
          refine ⟨_,_,.obj us,s₂,rfl,by rw [right]; rfl,.inr ⟨(fun no => by cases no),fun clean₂ => ?_⟩⟩
          exact (List.nodup_cons.mp (clean_suffix clean₂ grown).distinct).1 again
        · rw [if_neg again]
          have first_fields : ∀ (entry : String × Val P n) s, a::path ⊆ s →
              ∃ t s', (redacting P).field (sanitize h d) entry s = some (t,s') ∧ a::path ⊆ s' :=
            fun entry => field_total (first inside entry.2)
          by_cases named : "__proto__" ∈ fields.map Prod.fst
          · obtain ⟨ts,s₁,left,_⟩ := thread_total (fun entry (_ : entry ∈ fields) => first_fields entry) longer
            obtain ⟨us,s₂,right,grown⟩ := thread_total
              (fun (entry : String × Val P n) (_ : entry ∈ fields) s held => second_fields entry (a::laid) s held) List.suffix_rfl
            refine ⟨.obj (assigned ts),s₁,.obj us,s₂,by rw [left]; rfl,by rw [right]; rfl,.inr ⟨?_,?_⟩⟩
            · intro same
              rw [← thread_keys right,← Printout.obj.inj same] at named
              obtain ⟨entry,kept,key⟩ := List.mem_map.mp named
              exact of_decide_eq_true (List.mem_filter.mp kept).2 key
            · exact fun clean₂ => clean₂.plain a (grown.mem List.mem_cons_self) fields at_a named
          · have opened : Clean h (a::laid) := by
              refine ⟨List.nodup_cons.mpr ⟨again,clean.distinct⟩,fun x member others at_x => ?_⟩
              rcases List.mem_cons.mp member with rfl | earlier
              · cases at_a.symm.trans at_x
                exact named
              · exact clean.plain x earlier others at_x
            obtain ⟨ts,s₁,us,s₂,left,right,outcome⟩ := compared_thread
              (fun (entry : String × Val P n) (_ : entry ∈ fields) s clean held => compared_field clean (each inside entry.2 s clean held))
              (fun entry _ => first_fields entry) (fun entry _ => second_fields entry) opened longer
            have plain : assigned ts = ts := assigned_plain (by rw [thread_keys left]; exact named)
            refine ⟨.obj (assigned ts),s₁,.obj us,s₂,by rw [left]; rfl,by rw [right]; rfl,?_⟩
            rw [plain]
            rcases outcome with ⟨rfl,rfl,clean₂⟩ | ⟨differ,dirty⟩
            · exact .inl ⟨rfl,rfl,clean₂⟩
            · exact .inr ⟨fun same => differ (Printout.obj.inj same),dirty⟩

end Walks
end AppLogger
end MesyafMarket
