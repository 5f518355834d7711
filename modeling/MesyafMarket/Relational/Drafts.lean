import MesyafMarket.Relational.Overlay

namespace Relational
variable {Tab : Type} {Row : Tab → Type} {Key Err P V α : Type} {t : Tab}

-- What somebody who looks at the rows of a table through `obs` sees of them.
def Db.seen (db : Db Row) (obs : Row t → V) (i : Nat) : Option V := (db.rows t i).map obs

-- New entries over those that are there, the last one first.
def posted (posts : List (Nat × V)) (seen : Nat → Option V) : Nat → Option V :=
  posts.foldl (fun seen entry => Function.update seen entry.1 (some entry.2)) seen

@[simp] theorem posted_nil (seen : Nat → Option V) : posted [] seen = seen := rfl

@[simp] theorem posted_one (seen : Nat → Option V) : posted [(i,v)] seen = Function.update seen i (some v) := rfl

theorem posted_append (posts : List (Nat × V)) (seen : Nat → Option V) :
    posted (posts ++ [(i,v)]) seen = Function.update (posted posts seen) i (some v) := by
  simp [posted]

theorem posted_congr {seen seen' : Nat → Option V} (posts : List (Nat × V)) (same : seen' i = seen i) :
    posted posts seen' i = posted posts seen i := by
  induction posts generalizing seen seen' with
  | nil => exact same
  | cons entry rest ih => exact ih (by simp [Function.update_apply,same])

theorem posted_other {seen : Nat → Option V} {posts : List (Nat × V)} (other : ∀ entry ∈ posts, entry.1 ≠ i) :
    posted posts seen i = seen i := by
  induction posts generalizing seen with
  | nil => rfl
  | cons entry rest ih =>
    refine (ih fun later member => other later (List.mem_cons_of_mem _ member)).trans ?_
    exact Function.update_of_ne (Ne.symm (other entry List.mem_cons_self)) ..

-- A transaction's dealings with a table: what it has read there and what it has
-- written, all of it under locks on the rows.
structure Slip (V : Type) where
  reads : List (Nat × Option V)
  posts : List (Nat × V)

def Slip.blank : Slip V := ⟨[],[]⟩

-- It reads a row and writes it.
def Slip.take (s : Slip V) (i : Nat) (v : Option V) (new : V) : Slip V := ⟨s.reads ++ [(i,v)],s.posts ++ [(i,new)]⟩

def Slip.read (s : Slip V) (i : Nat) (v : Option V) : Slip V := {s with reads := s.reads ++ [(i,v)]}

def Slip.post (s : Slip V) (i : Nat) (v : V) : Slip V := {s with posts := s.posts ++ [(i,v)]}

structure Drafted (obs : Row t → V) (s : Slip V) (h : List (Lock Tab Key)) (w : Writes Row) (db : Db Row) : Prop where
  read : ∀ entry ∈ s.reads, .row t entry.1 ∈ h ∧ db.seen obs entry.1 = entry.2
  posted : ∀ entry ∈ s.posts, .row t entry.1 ∈ h
  view : (db.apply w).seen obs = Relational.posted s.posts (db.seen obs)

-- The rows change under their locks only.
def Protocol.Framed (C : Protocol Row Key P) : Prop :=
  ∀ L a b, C.change L a b → ∀ t i, ¬L (.row t i) → b.rows t i = a.rows t i

section Rules
variable {C : Protocol Row Key P} {x : P} {obs : Row t → V} {s : Slip V} {h : List (Lock Tab Key)} {w : Writes Row} {db : Db Row}

-- Others leave alone what the transaction has read and written.
theorem drafted_stable (framed : C.Framed) : C.Stable x (Drafted obs s) := by
  intro T h w db later drafted sees
  have kept : ∀ i, Lock.row t i ∈ h → later.seen obs i = db.seen obs i := by
    intro i held
    simp [Db.seen,framed _ _ _ sees.changed t i (not_not.mpr held)]
  refine ⟨?_,drafted.posted,?_⟩
  · intro entry member
    obtain ⟨held,found⟩ := drafted.read entry member
    exact ⟨held,(kept entry.1 held).trans found⟩
  funext i
  have before := congrFun drafted.view i
  cases written : w.rows t i with
  | some version =>
    have same : (later.apply w).seen obs i = (db.apply w).seen obs i := by simp [Db.seen,written]
    rw [same,before]
    exact (posted_congr _ (kept i (sees.locked t i (by simp [written])))).symm
  | none =>
    have unwritten : ∀ v : Db Row, (v.apply w).seen obs i = v.seen obs i := by simp [Db.seen,written]
    rw [unwritten] at before ⊢
    by_cases mine : ∃ entry ∈ s.posts, entry.1 = i
    · obtain ⟨entry,member,same⟩ := mine
      have still := kept i (same ▸ drafted.posted entry member)
      exact (still.trans before).trans (posted_congr _ still).symm
    · exact (posted_other fun entry member same => mine ⟨entry,member,same⟩).symm

theorem drafted_start : Drafted obs .blank ([] : List (Lock Tab Key)) .none db :=
  ⟨fun entry no => (by cases no),fun entry no => (by cases no),by rw [Db.apply_none]; rfl⟩

theorem seen_own (e : Effect Row Key) :
    ((db.reserve e.writes).apply (w.over e.writes)).seen obs = ((db.apply w).apply e.writes).seen obs := by
  funext i
  rw [← Db.apply_over]
  rfl

-- A statement, by what it makes of the rows in view.
theorem drafted_next {e : Effect Row Key} {posts : List (Nat × V)} (drafted : Drafted obs s h w db)
    (posts_held : ∀ entry ∈ posts, Lock.row t entry.1 ∈ h ++ e.locks)
    (view : ((db.apply w).apply e.writes).seen obs = posted posts (db.seen obs)) :
    Drafted obs ⟨s.reads,posts⟩ (h ++ e.locks) (w.over e.writes) (db.reserve e.writes) := by
  refine ⟨?_,posts_held,?_⟩
  · intro entry member
    obtain ⟨held,found⟩ := drafted.read entry member
    exact ⟨List.mem_append_left _ held,found⟩
  · rw [seen_own]
    exact view

theorem drafted_same {e : Effect Row Key} (drafted : Drafted obs s h w db)
    (same : ((db.apply w).apply e.writes).seen obs = (db.apply w).seen obs) :
    Drafted obs s (h ++ e.locks) (w.over e.writes) (db.reserve e.writes) :=
  drafted_next drafted (fun entry member => List.mem_append_left _ (drafted.posted entry member)) (same.trans drafted.view)

theorem drafted_quiet {e : Effect Row Key} (drafted : Drafted obs s h w db) (quiet : ∀ i, e.writes.rows t i = none) :
    Drafted obs s (h ++ e.locks) (w.over e.writes) (db.reserve e.writes) := by
  refine drafted_same drafted ?_
  funext i
  simp [Db.seen,quiet i]

theorem drafted_read (drafted : Drafted obs s h w db) (held : Lock.row t i ∈ h) (found : db.seen obs i = v) :
    Drafted obs (s.read i v) h w db := by
  refine ⟨?_,drafted.posted,drafted.view⟩
  intro entry member
  rcases List.mem_append.mp member with before | last
  · exact drafted.read entry before
  · rw [List.mem_singleton.mp last]
    exact ⟨held,found⟩

-- A row that it has not written is in view as it was committed.
theorem drafted_committed (drafted : Drafted obs s h w db) (other : ∀ entry ∈ s.posts, entry.1 ≠ i) :
    (db.apply w).seen obs i = db.seen obs i := by
  rw [drafted.view]
  exact posted_other other

theorem drafted_post {e : Effect Row Key} (drafted : Drafted obs s h w db) (held : Lock.row t i ∈ e.locks)
    (view : ((db.apply w).apply e.writes).seen obs = Function.update ((db.apply w).seen obs) i (some v)) :
    Drafted obs (s.post i v) (h ++ e.locks) (w.over e.writes) (db.reserve e.writes) := by
  refine drafted_next drafted ?_ ?_
  · intro entry member
    rcases List.mem_append.mp member with before | last
    · exact List.mem_append_left _ (drafted.posted entry before)
    · rw [List.mem_singleton.mp last]
      exact List.mem_append_right _ held
  · rw [view,drafted.view,posted_append]

section Statements
variable [DecidableEq Tab]

theorem seen_updates {v : Db Row} {p : Nat → Row t → Bool} {f : Row t → Row t} (obs : Row t → V) :
    (v.apply (v.updates t p f)).seen obs = fun i => (v.rows t i).map fun row => obs (if p i row then f row else row) := by
  funext i
  simp only [Db.seen,v.apply_updates]
  cases v.rows t i <;> rfl

-- An update of what is not looked at.
theorem drafted_overlooked {p : Nat → Row t → Bool} {f : Row t → Row t} {extra : List (Lock Tab Key)} (drafted : Drafted obs s h w db)
    (same : ∀ row, obs (f row) = obs row) :
    Drafted obs s (h ++ (Tx.updatesEffect (db.apply w) t p f extra).locks) (w.over (Tx.updatesEffect (db.apply w) t p f extra).writes)
      (db.reserve (Tx.updatesEffect (db.apply w) t p f extra).writes) := by
  refine drafted_same drafted ?_
  show ((db.apply w).apply ((db.apply w).updates t p f)).seen obs = _
  rw [seen_updates]
  funext i
  simp only [Db.seen]
  congr 1
  funext row
  split
  · exact same row
  · rfl

theorem drafted_missed {p : Nat → Row t → Bool} {f : Row t → Row t} {extra : List (Lock Tab Key)} (drafted : Drafted obs s h w db)
    (missed : (db.apply w).matching t p = []) :
    Drafted obs s (h ++ (Tx.updatesEffect (db.apply w) t p f extra).locks) (w.over (Tx.updatesEffect (db.apply w) t p f extra).writes)
      (db.reserve (Tx.updatesEffect (db.apply w) t p f extra).writes) := by
  refine drafted_same drafted ?_
  show ((db.apply w).apply ((db.apply w).updates t p f)).seen obs = _
  rw [seen_updates]
  funext i
  simp only [Db.seen]
  cases found : (db.apply w).rows t i with
  | none => rfl
  | some row => simp [(db.apply w).matching_nil.mp missed i row found]

-- An update of one row by its key. The first write to a table shows what was committed there.
theorem drafted_take {p : Nat → Row t → Bool} {f : Row t → Row t} {extra : List (Lock Tab Key)} (drafted : Drafted obs s h w db)
    (first : s.posts = []) (keyed : ∀ k row, p k row = true → k = i) (found : (db.apply w).rows t i = some row) (hit : p i row = true) :
    Drafted obs (s.take i (some (obs row)) (obs (f row))) (h ++ (Tx.updatesEffect (db.apply w) t p f extra).locks)
      (w.over (Tx.updatesEffect (db.apply w) t p f extra).writes) (db.reserve (Tx.updatesEffect (db.apply w) t p f extra).writes) := by
  have locked : Lock.row t i ∈ (Tx.updatesEffect (db.apply w) t p f extra).locks :=
    List.mem_append_left _ (Tx.mem_locksOf.mpr ⟨row,found,hit⟩)
  have committed : db.seen obs i = some (obs row) := by
    rw [← drafted_committed drafted (i := i) (by simp [first])]
    simp only [Db.seen,found,Option.map_some]
  have made := drafted_post (v := obs (f row)) drafted locked (by
    show ((db.apply w).apply ((db.apply w).updates t p f)).seen obs = _
    rw [seen_updates]
    funext k
    by_cases same : k = i
    · subst same
      simp only [found,Option.map_some,if_pos hit,Function.update_self]
    · have missed : ∀ row, p k row = false := fun row => Bool.eq_false_iff.mpr fun hit => same (keyed k row hit)
      simp [Function.update_of_ne same,Db.seen,missed])
  exact ⟨(drafted_read made (List.mem_append_right _ locked) committed).read,made.posted,made.view⟩

theorem drafted_insert {extra : List (Lock Tab Key)} (drafted : Drafted obs s h w db) (new : Row t) :
    Drafted obs (s.take ((db.apply w).seq t) none (obs new))
      (h ++ (Tx.insertsEffect (db.apply w) t [new] extra).locks) (w.over (Tx.insertsEffect (db.apply w) t [new] extra).writes)
      (db.reserve (Tx.insertsEffect (db.apply w) t [new] extra).writes) := by
  have locked : Lock.row t ((db.apply w).seq t) ∈ (Tx.insertsEffect (db.apply w) t [new] extra).locks :=
    List.mem_append_left _ (List.mem_map.mpr ⟨0,by simp,rfl⟩)
  have fresh : (db.reserve (Tx.insertsEffect (db.apply w) t [new] extra).writes).seen obs ((db.apply w).seq t) = none := by
    simp [Db.seen,db.bounded t _ (Nat.le_max_left (db.seq t) (w.top t)),Db.apply]
  have made := drafted_post (v := obs new) drafted locked (by
    show ((db.apply w).apply ((db.apply w).inserts t [new])).seen obs = _
    funext k
    simp only [Db.seen,Db.apply_insert,Function.update_apply]
    split <;> rfl)
  exact ⟨(drafted_read made (List.mem_append_right _ locked) fresh).read,made.posted,made.view⟩

end Statements

end Rules
end Relational
