import MesyafMarket.AppLogger

namespace MesyafMarket
open Objects

namespace AppLogger
variable {P : Type} {n : Nat}

-- Where the walk from a value comes without passing a redacted key.
inductive Open (h : Heap P n) : Val P n → Val P n → Prop where
  | here : Open h v v
  | item (at_a : h a = .arr items) (member : v ∈ items) (path : Open h v w) : Open h (.ref a) w
  | field (at_a : h a = .obj fields) (member : (key,v) ∈ fields) (kept : key ∉ REDACTED_KEYS) (path : Open h v w) :
      Open h (.ref a) w

-- What a value shows by itself.
inductive Leaf (h : Heap P n) : Val P n → Printout P → Prop where
  | prim : Leaf h (.prim p) (.prim p)
  | str : Leaf h (.str s) (.str s)
  | error (at_a : h a = .error e) (part : text ∈ [e.name,e.message,e.stack] ∨ e.code = some text) : Leaf h (.ref a) (.str text)

def Atom (x : Printout P) : Prop := (∃ p, x = .prim p) ∨ ∃ s, x = .str s

def Marker (x : Printout P) : Prop := x = .str "[REDACTED]" ∨ x = .str "[Circular]"

section Redaction
variable {h : Heap P n}

theorem atom_str {x : Printout P} (appears : Appears x (.str s)) : x = .str s := by
  cases appears
  rfl

theorem errorTree_leaf {e : ErrorTexts} {x : Printout P} (at_a : h a = .error e) (atom : Atom x) (appears : Appears x (errorTree P e)) :
    Leaf h (.ref a) x := by
  unfold errorTree at appears
  cases appears with
  | here => rcases atom with ⟨p,same⟩ | ⟨s,same⟩ <;> cases same
  | @field t fields key member inner =>
    rcases List.mem_append.mp member with member | stack
    · rcases List.mem_append.mp member with texts | code
      · simp only [List.mem_cons,Prod.mk.injEq,List.not_mem_nil,or_false] at texts
        rcases texts with ⟨_,rfl⟩ | ⟨_,rfl⟩
        · rw [atom_str inner]; exact .error at_a (.inl (by simp))
        · rw [atom_str inner]; exact .error at_a (.inl (by simp))
      · cases at_code : e.code with
        | none => rw [at_code] at code; cases code
        | some text =>
          rw [at_code] at code
          dsimp only at code
          split at code
          · cases code
          · cases List.mem_singleton.mp code
            rw [atom_str inner]; exact .error at_a (.inr at_code)
    · cases List.mem_singleton.mp stack
      rw [atom_str inner]; exact .error at_a (.inl (by simp))

-- A redacted field shows its marker, and any other what its value shows.
theorem sanitizeField_shows {go : Val P n → S → Option (Printout P × S)} {Q : Val P n → Printout P → Prop}
    (each : ∀ v s t s', go v s = some (t,s') → Q v t) (entry : String × Val P n) (s : S) (shown : String × Printout P) (s' : S)
    (found : sanitizeField go entry s = some (shown,s')) :
    shown.2 = .str "[REDACTED]" ∨ (entry.1 ∉ REDACTED_KEYS ∧ Q entry.2 shown.2) := by
  unfold sanitizeField at found
  split at found
  · cases found
    exact .inl rfl
  · rename_i kept
    obtain ⟨r,ran,same⟩ := Option.map_eq_some_iff.mp found
    cases same
    exact .inr ⟨kept,each _ _ _ _ ran⟩

theorem forall₂_right {R : α → β → Prop} (all : List.Forall₂ R xs ys) (member : y ∈ ys) : ∃ x ∈ xs, R x y := by
  induction all with
  | nil => cases member
  | cons here _ ih =>
    rcases List.mem_cons.mp member with rfl | later
    · exact ⟨_,List.mem_cons_self,here⟩
    · obtain ⟨x,listed,related⟩ := ih later
      exact ⟨x,List.mem_cons_of_mem _ listed,related⟩

-- Whatever a sanitized value shows is a marker or is reached past no redacted key.
theorem sanitize_open (atom : Atom x) {v : Val P n} (ran : sanitize h d v seen = some (t,seen')) (appears : Appears x t) :
    Marker x ∨ ∃ w, Open h v w ∧ Leaf h w x := by
  induction d generalizing v seen seen' t with
  | zero =>
    cases v with
    | prim p => cases ran; cases appears; exact .inr ⟨_,.here,.prim⟩
    | str s => cases ran; cases appears; exact .inr ⟨_,.here,.str⟩
    | ref a => cases ran
  | succ d ih =>
    cases v with
    | prim p => cases ran; cases appears; exact .inr ⟨_,.here,.prim⟩
    | str s => cases ran; cases appears; exact .inr ⟨_,.here,.str⟩
    | ref a =>
      cases at_a : h a with
      | error e =>
        rw [sanitize_error at_a] at ran
        cases ran
        exact .inr ⟨_,.here,errorTree_leaf at_a atom appears⟩
      | arr items =>
        rw [sanitize_arr at_a] at ran
        split at ran
        · cases ran
          exact .inl (.inr (atom_str appears))
        · obtain ⟨all,walked,same⟩ := Option.map_eq_some_iff.mp ran
          cases same
          cases appears with
          | here => rcases atom with ⟨p,same⟩ | ⟨s,same⟩ <;> cases same
          | item member inner =>
            have each := thread_all (P := fun v t => Appears x t → Marker x ∨ ∃ w, Open h v w ∧ Leaf h w x)
              (fun v _ s t s' found shows => ih found shows) walked
            obtain ⟨v,listed,shows⟩ := forall₂_right each member
            rcases shows inner with marker | ⟨w,path,leaf⟩
            · exact .inl marker
            · exact .inr ⟨w,.item at_a listed path,leaf⟩
      | obj fields =>
        rw [sanitize_obj at_a] at ran
        split at ran
        · cases ran
          exact .inl (.inr (atom_str appears))
        · obtain ⟨all,walked,same⟩ := Option.map_eq_some_iff.mp ran
          cases same
          cases appears with
          | here => rcases atom with ⟨p,same⟩ | ⟨s,same⟩ <;> cases same
          | field member inner =>
            have each := thread_all (fun entry _ => sanitizeField_shows
              (Q := fun v t => Appears x t → Marker x ∨ ∃ w, Open h v w ∧ Leaf h w x) (fun v s t s' found shows => ih found shows) entry) walked
            obtain ⟨entry,listed,shown⟩ := forall₂_right each (List.mem_filter.mp member).1
            rcases shown with redacted | ⟨kept,shows⟩
            · dsimp only at redacted
              rw [redacted] at inner
              exact .inl (.inl (atom_str inner))
            · rcases shows inner with marker | ⟨w,path,leaf⟩
              · exact .inl marker
              · exact .inr ⟨w,.field at_a listed kept path,leaf⟩

end Redaction

section Metadata
variable {h : Heap P n}

theorem metadata_merge (params : List (Val P n)) (fields : Fields (Val P n)) :
    params.foldl (fun fields p => fields.merge (given h p)) fields = fields.merge (params.flatMap (given h)) := by
  induction params generalizing fields with
  | nil => rfl
  | cons p rest ih => rw [List.foldl_cons,ih,List.flatMap_cons,Fields.merge_append]

theorem stackOf_nodup (params : List (Val P n)) : ((stackOf params).map Prod.fst).Nodup := by
  unfold stackOf
  split <;> simp

theorem metadata_nodup (params : List (Val P n)) : ((metadata h params).map Prod.fst).Nodup := by
  unfold metadata
  rw [metadata_merge]
  exact Fields.merge_nodup (stackOf_nodup params) _

theorem entries_perm (fields : Fields V) : (entries fields).Perm fields := by
  unfold entries
  refine ((List.perm_insertionSort _ _).append_right _).trans ?_
  exact List.filter_append_perm (fun entry : String × V => (arrayIndex entry.1).isSome) fields

theorem stackOf_str {params : List (Val P n)} (member : (key,v) ∈ stackOf params) : key = "stack" ∧ ∃ s, v = .str s ∧ .str s ∈ params := by
  unfold stackOf at member
  split at member
  · rename_i first second rest texts
    cases List.mem_singleton.mp member
    have listed : first ∈ strings params := by rw [texts]; exact List.mem_cons_self
    obtain ⟨p,listed,same⟩ := List.mem_filterMap.mp listed
    refine ⟨rfl,first,rfl,?_⟩
    split at same
    · cases same; exact listed
    · cases same
  · cases member

-- What `meta` holds is the first text, or comes from one of the parameters.
theorem mem_metadata {params : List (Val P n)} (member : entry ∈ metadata h params) :
    entry ∈ stackOf params ∨ entry ∈ params.flatMap (given h) := by
  unfold metadata at member
  rw [metadata_merge] at member
  exact Fields.mem_merge member

theorem metadata_given {params : List (Val P n)} (listed : key ∈ (params.flatMap (given h)).map Prod.fst) :
    ∃ v, (key,v) ∈ params.flatMap (given h) ∧ (key,v) ∈ metadata h params := by
  unfold metadata
  rw [metadata_merge]
  obtain ⟨v,member,found⟩ : ∃ v, (key,v) ∈ params.flatMap (given h) ∧
      ((stackOf params).merge (params.flatMap (given h))).get key = some v := Fields.get_merge listed
  exact ⟨v,member,Fields.get_mem found⟩

theorem open_given {p : Val P n} (member : (key,v) ∈ given h p) (kept : key ∉ REDACTED_KEYS) (path : Open h v w) : Open h p w := by
  unfold given at member
  split at member
  · split at member
    · cases List.mem_singleton.mp member
      exact path
    · rename_i at_a
      exact .field at_a member kept path
    · rename_i at_a
      obtain ⟨item,listed,same⟩ := List.mem_map.mp member
      cases same
      exact .item at_a (List.fst_mem_of_mem_zipIdx listed) path
  · cases member

end Metadata

-- The tree that a field is to be shown as.
def fieldImage (h : Heap P n) (depth : Nat) (entry : String × Val P n) : Option (Printout P) :=
  ((redacting P).field (image (redacting P) h depth []) entry []).map fun shown => shown.1.2

-- What the entry says besides the metadata.
def fixed (context : String) (process : Process P) (call : Call P n) (text : String) : Fields (Val P n) :=
  [("level",.str call.method.level),("context",.str (contextOf context call.params)),("message",.str text),
   ("pid",.prim process.pid),("env",.str (process.NODE_ENV.getD "development")),("timestamp",.str process.timestamp)]

-- The entry is of the call, and shows every field of every metadata object.
structure Faithful (h : Heap P n) (depth : Nat) (context : String) (call : Call P n) (text : String) (entry : Fields (Printout P)) : Prop where
  level : entry.get "level" = some (.str call.method.level)
  context : entry.get "context" = some (.str (contextOf context call.params))
  message : entry.get "message" = some (.str text)
  shown : ∀ p ∈ call.params, ∀ field ∈ given h p, entry.get field.1 = fieldImage h depth field

-- Every value in the entry is its own or is reached past no redacted key.
def Unredacted (h : Heap P n) (context : String) (process : Process P) (call : Call P n) (text : String) (entry : Fields (Printout P)) : Prop :=
  ∀ key t x, (key,t) ∈ entry → Atom x → Appears x t → Marker x ∨ (∃ own, (key,own) ∈ fixed context process call text ∧ Leaf h own x) ∨
    ∃ p ∈ call.params, ∃ w, Open h p w ∧ Leaf h w x

-- The metadata has no key of the entry with another value, no key with two values and
-- no key `__proto__`, and reaches no object in two ways.
structure Clear (h : Heap P n) (depth : Nat) (context : String) (process : Process P) (call : Call P n) (text : String) : Prop where
  fixed : ∀ key f v, (key,f) ∈ fixed context process call text → (key,v) ∈ call.params.flatMap (given h) → v = f
  agree : ∀ key v w, (key,v) ∈ call.params.flatMap (given h) → (key,w) ∈ call.params.flatMap (given h) →
    fieldImage h depth (key,v) = fieldImage h depth (key,w)
  plain : "__proto__" ∉ (call.params.flatMap (given h)).map Prod.fst
  clean : ∀ out laid, thread ((redacting P).field (image (redacting P) h depth [])) (entries (metadata h call.params)) [] = some (out,laid) →
    Clean h laid

section Entries
variable {h : Heap P n} {context : String} {process : Process P} {call : Call P n} {text : String} {depth : Nat}

theorem fieldImage_of {entry : String × Val P n} {shown : String × Printout P}
    (ran : (redacting P).field (image (redacting P) h depth []) entry laid = some (shown,laid')) :
    fieldImage h depth entry = some shown.2 := by
  have same : ((redacting P).field (image (redacting P) h depth []) entry laid).map Prod.fst =
      ((redacting P).field (image (redacting P) h depth []) entry []).map Prod.fst := field_start (image_start [] entry.2) laid []
  rw [ran] at same
  obtain ⟨r,found,first⟩ := Option.map_eq_some_iff.mp same.symm
  unfold fieldImage
  rw [found,Option.map_some,first]

def leafTree : Val P n → Option (Printout P)
  | .prim p => some (.prim p)
  | .str s => some (.str s)
  | .ref _ => none

theorem leafTree_inj {v f : Val P n} (left : leafTree v = some x) (right : leafTree f = some x) : v = f := by
  cases v <;> cases left <;> cases f <;> cases right <;> rfl

theorem leaf_shows {v : Val P n} (leaf : leafTree v = some t) (appears : Appears x t) : Leaf h v x := by
  cases v with
  | prim p => cases leaf; cases appears; exact .prim
  | str s => cases leaf; cases appears; exact .str
  | ref => cases leaf

theorem sanitize_leaf {v : Val P n} (leaf : leafTree v = some x) (seen : List (Fin n)) : sanitize h depth v seen = some (x,seen) := by
  cases v with
  | prim | str => cases leaf; cases depth <;> rfl
  | ref => cases leaf

theorem image_leaf (h : Heap P n) (depth : Nat) (laid : List (Fin n)) {v f : Val P n} (leaf : leafTree f = some x) :
    (image (redacting P) h depth [] v laid).map Prod.fst = some x ↔ v = f := by
  have shown : ∀ y, (image (redacting P) h depth [] v laid).map Prod.fst = some y → leafTree v = some y ∨
      ∃ a, v = .ref a ∧ leafTree f ≠ some y := by
    intro y found
    cases v with
    | prim p => left; cases depth <;> exact found
    | str s => left; cases depth <;> exact found
    | ref a =>
      refine .inr ⟨a,rfl,fun same => ?_⟩
      cases depth with
      | zero => cases found
      | succ d =>
        unfold image at found
        cases at_a : h a with
        | error e =>
          rw [at_a] at found
          cases found
          cases f <;> cases same
        | arr items =>
          rw [at_a] at found
          dsimp only at found
          rw [if_neg List.not_mem_nil,map_first] at found
          obtain ⟨ts,_,rfl⟩ := Option.map_eq_some_iff.mp found
          cases f <;> cases same
        | obj fields =>
          rw [at_a] at found
          dsimp only at found
          rw [if_neg List.not_mem_nil,map_first] at found
          obtain ⟨ts,_,rfl⟩ := Option.map_eq_some_iff.mp found
          cases f <;> cases same
  constructor
  · intro found
    rcases shown x found with same | ⟨a,_,other⟩
    · exact leafTree_inj same leaf
    · exact absurd leaf other
  · rintro rfl
    cases v with
    | prim | str => cases depth <;> exact leaf
    | ref => cases leaf

theorem fieldImage_leaf {v f : Val P n} (kept : key ∉ REDACTED_KEYS) (leaf : leafTree f = some x) :
    fieldImage h depth (key,v) = some x ↔ v = f := by
  rw [← image_leaf h depth [] leaf]
  unfold fieldImage Marks.field
  rw [if_neg (by simpa [redacting] using kept),Option.map_map]
  rfl

-- The parts of an entry: the fields that `out` overwrites, `out`, and those that
-- overwrite `out`.
def leading (context : String) (call : Call P n) (text : String) : Fields (Printout P) :=
  [("level",.str call.method.level),("context",.str (contextOf context call.params)),("message",.str text)]

def closing (process : Process P) : Fields (Printout P) :=
  [("pid",.prim process.pid),("env",.str (process.NODE_ENV.getD "development")),("timestamp",.str process.timestamp)]

theorem fixed_leaf (member : (key,f) ∈ fixed context process call text) :
    ∃ x, leafTree f = some x ∧ ((key,x) ∈ leading context call text ∨ (key,x) ∈ closing process) ∧ key ∉ REDACTED_KEYS ∧ key ≠ "__proto__" ∧
      key ≠ "stack" := by
  simp only [fixed,List.mem_cons,Prod.mk.injEq,List.not_mem_nil,or_false] at member
  rcases member with ⟨rfl,rfl⟩ | ⟨rfl,rfl⟩ | ⟨rfl,rfl⟩ | ⟨rfl,rfl⟩ | ⟨rfl,rfl⟩ | ⟨rfl,rfl⟩ <;>
    exact ⟨_,rfl,by simp [leading,closing],by simp [REDACTED_KEYS],by simp,by simp⟩

theorem closing_fixed (member : (key,x) ∈ closing process) : ∃ f : Val P n, (key,f) ∈ fixed context process call text ∧ leafTree f = some x := by
  simp only [closing,List.mem_cons,Prod.mk.injEq,List.not_mem_nil,or_false] at member
  rcases member with ⟨rfl,rfl⟩ | ⟨rfl,rfl⟩ | ⟨rfl,rfl⟩
  · exact ⟨.prim process.pid,by simp [fixed],rfl⟩
  · exact ⟨.str (process.NODE_ENV.getD "development"),by simp [fixed],rfl⟩
  · exact ⟨.str process.timestamp,by simp [fixed],rfl⟩

theorem leading_fixed (member : (key,x) ∈ leading context call text) : ∃ f : Val P n, (key,f) ∈ fixed context process call text ∧ leafTree f = some x := by
  simp only [leading,List.mem_cons,Prod.mk.injEq,List.not_mem_nil,or_false] at member
  rcases member with ⟨rfl,rfl⟩ | ⟨rfl,rfl⟩ | ⟨rfl,rfl⟩
  · exact ⟨.str call.method.level,by simp [fixed],rfl⟩
  · exact ⟨.str (contextOf context call.params),by simp [fixed],rfl⟩
  · exact ⟨.str text,by simp [fixed],rfl⟩

def entryOf (context : String) (process : Process P) (call : Call P n) (text : String) (out : Fields (Printout P)) : Fields (Printout P) :=
  ((leading context call text).merge (assigned out)).merge (closing process)

theorem key_mem {fields : Fields V} (member : (key,v) ∈ fields) : key ∈ fields.map Prod.fst := List.mem_map.mpr ⟨_,member,rfl⟩

theorem closing_get {out : Fields (Printout P)} (member : (key,x) ∈ closing process) :
    (entryOf context process call text out).get key = some x := by
  obtain ⟨v,given,found⟩ : ∃ v, (key,v) ∈ closing process ∧ (entryOf context process call text out).get key = some v :=
    Fields.get_merge (key_mem member)
  have distinct : ((closing process).map Prod.fst).Nodup := by simp [closing]
  rw [found,← Fields.get_of_mem distinct given,Fields.get_of_mem distinct member]

theorem out_get {out : Fields (Printout P)} (distinct : (out.map Prod.fst).Nodup) (member : (key,t) ∈ out)
    (plain : key ≠ "__proto__") (last : key ∉ (closing process).map Prod.fst) :
    (entryOf context process call text out).get key = some t := by
  have kept : (key,t) ∈ assigned out := List.mem_filter.mpr ⟨member,decide_eq_true plain⟩
  obtain ⟨v,given,found⟩ : ∃ v, (key,v) ∈ assigned out ∧ ((leading context call text).merge (assigned out)).get key = some v :=
    Fields.get_merge (key_mem kept)
  unfold entryOf
  rw [Fields.get_merge_other last,found,← Fields.get_of_mem distinct (List.mem_filter.mp given).1,Fields.get_of_mem distinct member]

theorem leading_get {out : Fields (Printout P)} (absent : key ∉ (assigned out).map Prod.fst) (last : key ∉ (closing process).map Prod.fst) :
    (entryOf context process call text out).get key = (leading context call text).get key := by
  unfold entryOf
  rw [Fields.get_merge_other last,Fields.get_merge_other absent]

theorem assigned_keys {out : Fields (Printout P)} : "__proto__" ∉ (assigned out).map Prod.fst := by
  intro named
  obtain ⟨entry,kept,key⟩ := List.mem_map.mp named
  exact of_decide_eq_true (List.mem_filter.mp kept).2 key

theorem print_text (ran : thread (sanitizeField (sanitize h depth)) (entries (metadata h call.params)) [] = some (out,seen))
    (message : call.message = .str text) : print h depth context process call = some (entryOf context process call text out) := by
  unfold print
  rw [message]
  dsimp only
  rw [ran]
  rfl

-- The fields as the code sanitizes them and as they are to be shown.
structure Walked (h : Heap P n) (depth : Nat) (params : List (Val P n)) (out shown : Fields (Printout P)) (laid : List (Fin n)) : Prop where
  ran : ∃ seen, thread (sanitizeField (sanitize h depth)) (entries (metadata h params)) [] = some (out,seen)
  spec : thread ((redacting P).field (image (redacting P) h depth [])) (entries (metadata h params)) [] = some (shown,laid)
  outcome : (out = shown ∧ Clean h laid) ∨ (out ≠ shown ∧ ¬Clean h laid)

theorem walked (deep : n < depth) (params : List (Val P n)) : ∃ out shown laid, Walked h depth params out shown laid := by
  have compared : Compared h (thread (sanitizeField (sanitize h depth)) (entries (metadata h params)) [])
      (thread ((redacting P).field (image (redacting P) h depth [])) (entries (metadata h params)) []) := by
    rw [sanitizeField_marks]
    refine compared_thread ?_ ?_ ?_ ⟨.nil,nofun⟩ (List.nil_subset [])
    · exact fun entry _ s clean within => compared_field clean (compared_sanitize .nil (by simpa using deep) entry.2 clean within)
    · exact fun entry _ s within => field_total (fun s => sanitize_total .nil (by simpa using deep) entry.2) s within
    · exact fun entry _ base s held => field_total (fun s => image_total .nil (by simpa using deep) entry.2) s held
  obtain ⟨out,seen,shown,laid,left,right,outcome⟩ := compared
  refine ⟨out,shown,laid,⟨seen,left⟩,right,?_⟩
  rcases outcome with ⟨same,_,clean⟩ | ⟨differ,dirty⟩
  · exact .inl ⟨same,clean⟩
  · exact .inr ⟨differ,dirty⟩

theorem forall₂_same {R : α → β → Prop} {Q : α → β → Prop} (left : List.Forall₂ R xs ys) (right : List.Forall₂ Q xs zs)
    (same : ∀ x ∈ xs, ∀ y ∈ ys, ∀ z, R x y → Q x z → y = z) : ys = zs := by
  induction left generalizing zs with
  | nil => cases right; rfl
  | cons here _ ih =>
    cases right with
    | cons there later =>
      rw [same _ List.mem_cons_self _ List.mem_cons_self _ here there]
      rw [ih later fun x member y listed => same x (List.mem_cons_of_mem _ member) y (List.mem_cons_of_mem _ listed)]

section Walks
variable {out shown : Fields (Printout P)} {laid : List (Fin n)}

theorem walked_out (w : Walked h depth call.params out shown laid) :
    List.Forall₂ (fun (entry : String × Val P n) o => entry.1 = o.1 ∧
      ∀ x, entry.1 ∉ REDACTED_KEYS → leafTree entry.2 = some x → o.2 = x) (entries (metadata h call.params)) out := by
  obtain ⟨seen,ran⟩ := w.ran
  refine thread_all (fun entry _ s b s' found => ?_) ran
  unfold sanitizeField at found
  split at found
  · rename_i redacted
    cases found
    exact ⟨rfl,fun x kept => absurd redacted kept⟩
  · obtain ⟨r,walk,same⟩ := Option.map_eq_some_iff.mp found
    cases same
    refine ⟨rfl,fun x _ leaf => ?_⟩
    rw [sanitize_leaf leaf] at walk
    cases walk
    rfl

theorem walked_shown (w : Walked h depth call.params out shown laid) :
    List.Forall₂ (fun (entry : String × Val P n) u => entry.1 = u.1 ∧ fieldImage h depth entry = some u.2)
      (entries (metadata h call.params)) shown := by
  refine thread_all (fun entry _ s b s' found => ⟨?_,fieldImage_of found⟩) w.spec
  unfold Marks.field at found
  split at found
  · cases found; rfl
  · obtain ⟨r,_,same⟩ := Option.map_eq_some_iff.mp found
    cases same; rfl

theorem walked_distinct (w : Walked h depth call.params out shown laid) : (out.map Prod.fst).Nodup := by
  obtain ⟨seen,ran⟩ := w.ran
  rw [sanitizeField_marks] at ran
  rw [thread_keys ran,((entries_perm _).map Prod.fst).nodup_iff]
  exact metadata_nodup call.params

theorem faithful_fixed (faithful : Faithful h depth context call text (entryOf context process call text out))
    (own : (key,f) ∈ fixed context process call text) (member : (key,v) ∈ call.params.flatMap (given h)) : v = f := by
  obtain ⟨x,leaf,part,kept,_⟩ := fixed_leaf own
  obtain ⟨p,listed,field⟩ := List.mem_flatMap.mp member
  have found : (entryOf context process call text out).get key = some x := by
    rcases part with leads | closes
    · simp only [leading,List.mem_cons,Prod.mk.injEq,List.not_mem_nil,or_false] at leads
      rcases leads with ⟨rfl,rfl⟩ | ⟨rfl,rfl⟩ | ⟨rfl,rfl⟩
      · exact faithful.level
      · exact faithful.context
      · exact faithful.message
    · exact closing_get closes
  have shown := faithful.shown p listed _ field
  rw [found] at shown
  exact (fieldImage_leaf kept leaf).mp shown.symm

theorem faithful_clear (w : Walked h depth call.params out shown laid)
    (faithful : Faithful h depth context call text (entryOf context process call text out)) : Clear h depth context process call text := by
  have reached : ∀ key v, (key,v) ∈ call.params.flatMap (given h) →
      (entryOf context process call text out).get key = fieldImage h depth (key,v) := by
    intro key v member
    obtain ⟨p,listed,field⟩ := List.mem_flatMap.mp member
    exact faithful.shown p listed _ field
  have plain : "__proto__" ∉ (call.params.flatMap (given h)).map Prod.fst := by
    intro named
    obtain ⟨v,member,kept⟩ := metadata_given named
    obtain ⟨u,_,_,image⟩ := forall₂_right (walked_shown w).flip ((entries_perm _).mem_iff.mpr kept)
    have absent : (entryOf context process call text out).get "__proto__" = none :=
      (leading_get assigned_keys (by simp [closing])).trans (Fields.get_none.mpr (by simp [leading]))
    rw [reached _ v member,image] at absent
    cases absent
  refine ⟨fun key f v own member => faithful_fixed faithful own member,
    fun key v w left right => (reached key v left).symm.trans (reached key w right),plain,?_⟩
  have same : out = shown := by
    refine forall₂_same (walked_out w) (walked_shown w) fun entry member o listed u ⟨key_o,leaf_o⟩ ⟨key_u,image⟩ => ?_
    have values : o.2 = u.2 := by
      rcases mem_metadata ((entries_perm _).mem_iff.mp member) with stack | member
      · obtain ⟨key,s,text,_⟩ := stackOf_str stack
        have leaf : leafTree entry.2 = some (.str s : Printout P) := by rw [text]; rfl
        have kept : entry.1 ∉ REDACTED_KEYS := by rw [key]; decide
        rw [leaf_o _ kept leaf]
        exact Option.some.inj (((fieldImage_leaf kept leaf).mpr rfl).symm.trans image)
      · by_cases last : entry.1 ∈ (closing process).map Prod.fst
        · obtain ⟨c,closes,key_c⟩ := List.mem_map.mp last
          have closes : (entry.1,c.2) ∈ closing process := key_c ▸ closes
          obtain ⟨f,own,leaf⟩ : ∃ f, (entry.1,f) ∈ fixed context process call text ∧ leafTree f = some c.2 := closing_fixed closes
          obtain ⟨_,_,_,kept,_⟩ := fixed_leaf own
          have equal : entry.2 = f := faithful_fixed faithful own member
          rw [leaf_o _ kept (equal ▸ leaf)]
          exact Option.some.inj (((fieldImage_leaf kept leaf).mpr equal).symm.trans image)
        · have other : o.1 ≠ "__proto__" := by
            rw [← key_o]
            rintro named
            exact plain (named ▸ List.mem_map.mpr ⟨entry,member,rfl⟩)
          have found : (entryOf context process call text out).get o.1 = some o.2 :=
            out_get (walked_distinct w) listed other (by rw [← key_o]; exact last)
          rw [← key_o,reached _ _ member,image] at found
          exact (Option.some.inj found).symm
    exact Prod.ext (key_o.symm.trans key_u) values
  intro again laid' ran
  cases w.spec.symm.trans ran
  rcases w.outcome with ⟨_,clean⟩ | ⟨differ,_⟩
  · exact clean
  · exact absurd same differ

theorem clear_faithful (w : Walked h depth call.params out shown laid) (clear : Clear h depth context process call text) :
    Faithful h depth context call text (entryOf context process call text out) := by
  obtain rfl : out = shown := by
    rcases w.outcome with ⟨same,_⟩ | ⟨_,dirty⟩
    · exact same
    · exact absurd (clear.clean _ _ w.spec) dirty
  have leads : ∀ key x, (key,x) ∈ leading context call text → key ∉ (closing process).map Prod.fst →
      (leading context call text).get key = some x → (entryOf context process call text out).get key = some x := by
    intro key x member last own
    by_cases present : key ∈ (assigned out).map Prod.fst
    · obtain ⟨o,kept,rfl⟩ := List.mem_map.mp present
      obtain ⟨listed,plain⟩ := List.mem_filter.mp kept
      obtain ⟨entry,member_e,key_e,image⟩ := forall₂_right (walked_shown w) listed
      obtain ⟨f,fix,leaf⟩ : ∃ f, (o.1,f) ∈ fixed context process call text ∧ leafTree f = some x := leading_fixed member
      obtain ⟨_,_,_,unredacted,_,other⟩ := fixed_leaf fix
      rcases mem_metadata ((entries_perm _).mem_iff.mp member_e) with stack | member_e
      · exact absurd (key_e.symm.trans (stackOf_str stack).1) other
      · have equal : entry.2 = f := clear.fixed o.1 f entry.2 fix (key_e ▸ member_e)
        have shows : fieldImage h depth (entry.1,entry.2) = some x := (fieldImage_leaf (key_e ▸ unredacted) leaf).mpr equal
        have same : o.2 = x := Option.some.inj (image.symm.trans shows)
        rw [← same]
        exact out_get (walked_distinct w) listed (of_decide_eq_true plain) last
    · rw [leading_get present last,own]
  refine ⟨leads _ _ (by simp [leading]) (by simp [closing]) (by simp [leading,Fields.get_cons]),
    leads _ _ (by simp [leading]) (by simp [closing]) (by simp [leading,Fields.get_cons]),
    leads _ _ (by simp [leading]) (by simp [closing]) (by simp [leading,Fields.get_cons]),?_⟩
  intro p param field member
  have member : (field.1,field.2) ∈ call.params.flatMap (given h) := List.mem_flatMap.mpr ⟨p,param,member⟩
  by_cases last : field.1 ∈ (closing process).map Prod.fst
  · obtain ⟨c,closes,key_c⟩ := List.mem_map.mp last
    have closes : (field.1,c.2) ∈ closing process := key_c ▸ closes
    obtain ⟨f,own,leaf⟩ : ∃ f, (field.1,f) ∈ fixed context process call text ∧ leafTree f = some c.2 := closing_fixed closes
    obtain ⟨_,_,_,kept,_⟩ := fixed_leaf own
    rw [closing_get closes]
    exact ((fieldImage_leaf kept leaf).mpr (clear.fixed _ _ _ own member)).symm
  · obtain ⟨v,given_v,kept⟩ := metadata_given (key_mem member)
    obtain ⟨o,listed,key_o,image⟩ := forall₂_right (walked_shown w).flip ((entries_perm _).mem_iff.mpr kept)
    dsimp only at key_o
    have agree : fieldImage h depth field = some o.2 := (clear.agree _ _ _ member given_v).trans image
    rw [agree,key_o]
    refine out_get (walked_distinct w) listed ?_ (key_o ▸ last)
    rw [← key_o]
    rintro named
    exact clear.plain (named ▸ key_mem member)

theorem entry_unredacted (w : Walked h depth call.params out shown laid) :
    Unredacted h context process call text (entryOf context process call text out) := by
  intro key t x member atom appears
  have own : ∀ f, (key,f) ∈ fixed context process call text → leafTree f = some t →
      ∃ own, (key,own) ∈ fixed context process call text ∧ Leaf h own x := fun f fix leaf => ⟨f,fix,leaf_shows leaf appears⟩
  rcases Fields.mem_merge member with member | closes
  · rcases Fields.mem_merge member with leads | member
    · obtain ⟨f,fix,leaf⟩ : ∃ f, (key,f) ∈ fixed context process call text ∧ leafTree f = some t := leading_fixed leads
      exact .inr (.inl (own f fix leaf))
    · obtain ⟨seen,ran⟩ := w.ran
      have each := thread_all (fun entry _ => sanitizeField_shows
        (Q := fun v t => Appears x t → Marker x ∨ ∃ w, Open h v w ∧ Leaf h w x) (fun v s t s' found shows => sanitize_open atom found shows) entry) ran
      obtain ⟨entry,listed,shown⟩ := forall₂_right each (List.mem_filter.mp member).1
      rcases shown with redacted | ⟨kept,shows⟩
      · dsimp only at redacted
        rw [redacted] at appears
        exact .inl (.inl (atom_str appears))
      · rcases shows appears with marker | ⟨w,path,leaf⟩
        · exact .inl marker
        · refine .inr (.inr ?_)
          rcases mem_metadata ((entries_perm _).mem_iff.mp listed) with stack | given_p
          · obtain ⟨_,s,same,param⟩ := stackOf_str stack
            exact ⟨.str s,param,w,same ▸ path,leaf⟩
          · obtain ⟨p,param,field⟩ := List.mem_flatMap.mp given_p
            exact ⟨p,param,w,open_given field kept path,leaf⟩
  · obtain ⟨f,fix,leaf⟩ : ∃ f, (key,f) ∈ fixed context process call text ∧ leafTree f = some t := closing_fixed closes
    exact .inr (.inl (own f fix leaf))

end Walks

-- A call prints one entry. No value in it is reached past a redacted key only, and it
-- is faithful to the call and its metadata if and only if these are clear.
theorem entry_faithful (h : Heap P n) (d : Nat) (context : String) (process : Process P) (method : Method) (text : String)
    (params : List (Val P n)) : ∃ entry, print h (n+1+d) context process ⟨method,.str text,params⟩ = some entry ∧
      Unredacted h context process ⟨method,.str text,params⟩ text entry ∧
      (Faithful h (n+1+d) context ⟨method,.str text,params⟩ text entry ↔
        Clear h (n+1+d) context process ⟨method,.str text,params⟩ text) := by
  obtain ⟨out,shown,laid,w⟩ := walked (h := h) (show n < n+1+d by omega) params
  obtain ⟨seen,ran⟩ := w.ran
  exact ⟨_,print_text ran rfl,entry_unredacted w,faithful_clear w,clear_faithful w⟩

end Entries

-- What GlobalExceptionFilter.catch logs for an exception of status 404. Numbers and
-- null are the primitive values.
def notFound : Heap (Option Nat) 2 := fun a =>
  if a = 0 then .obj [("requestId",.prim none),("path",.str "/orders/7/timeline"),("method",.str "GET"),("status",.prim (some 404)),
    ("code",.str "NOT_FOUND"),("userId",.prim (some 1)),("message",.ref 1)]
  else .obj [("message",.str "Order not found"),("error",.str "Not Found"),("statusCode",.prim (some 404))]

def server : Process (Option Nat) := ⟨some 1,none,"2025-01-01T00:00:00.000Z"⟩

def Printout.text : Printout P → Option String
  | .str s => some s
  | _ => none

-- The message of the entry is the exception's response instead of the text of the call.
theorem entry_misnamed : ¬∀ (P : Type) (n d : Nat) (h : Heap P n) (context : String) (process : Process P) (method : Method)
    (text : String) (params : List (Val P n)), ∃ entry, print h (n+1+d) context process ⟨method,.str text,params⟩ = some entry ∧
      Faithful h (n+1+d) context ⟨method,.str text,params⟩ text entry := by
  intro claim
  obtain ⟨entry,printed,faithful⟩ := claim _ 2 0 notFound "GlobalExceptionFilter" server .warn "HttpException" [.ref 0]
  have message : ((print notFound 3 "GlobalExceptionFilter" server ⟨.warn,.str "HttpException",[.ref 0]⟩).bind fun entry =>
      (entry.get "message").bind Printout.text) = none := by decide +kernel
  rw [printed,Option.bind_some,faithful.message] at message
  cases message

end AppLogger
end MesyafMarket
