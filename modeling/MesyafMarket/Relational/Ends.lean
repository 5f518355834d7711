import MesyafMarket.Relational.Frame

namespace Relational
variable {Tab : Type} {Row : Tab → Type} {Key Err : Type}

-- Committed rows, whatever the sequences and clocks say.
abbrev Rows (Row : Tab → Type) := (t : Tab) → Nat → Option (Row t)

namespace Tx

-- A transaction on rows that nobody else changes, from the ones it finds to the ones
-- it leaves behind. Each statement reads clocks and sequences of its own; `sees` is
-- what is known of the database that a statement with some effect runs on.
inductive Ends (sees : Effect Row Key → Db Row → Prop) : Tx Row Key Err α → Rows Row → α → Rows Row → Prop where
  | ret : Ends sees (.ret a) rows a rows
  | stmt {v : Db Row} (shows : v.rows = rows) (seen : sees (effect v) v)
      (rest : Ends sees (next v) (v.apply (effect v).writes).rows a rows') : Ends sees (.stmt effect next) rows a rows'

variable {sees : Effect Row Key → Db Row → Prop}

theorem ends_bind {x : Tx Row Key Err α} {f : α → Tx Row Key Err β} :
    (x >>= f).Ends sees rows b rows' ↔ ∃ a middle, x.Ends sees rows a middle ∧ (f a).Ends sees middle b rows' := by
  constructor
  · intro ended
    induction x generalizing rows with
    | ret a => exact ⟨a,rows,.ret,ended⟩
    | throw e => cases ended
    | stmt effect next ih =>
      cases ended with
      | stmt shows seen rest =>
        obtain ⟨a,middle,first,second⟩ := ih _ rest
        exact ⟨a,middle,.stmt shows seen first,second⟩
  · intro ⟨a,middle,first,second⟩
    induction first with
    | ret => exact second
    | stmt shows seen _ ih => exact .stmt shows seen (ih second)

theorem ends_ret {a b : α} : (.ret a : Tx Row Key Err α).Ends sees rows b rows' ↔ b = a ∧ rows' = rows := by
  constructor
  · intro ended
    cases ended
    exact ⟨rfl,rfl⟩
  · intro ⟨same,still⟩
    subst same still
    exact .ret

theorem ends_selectLocking {query : Db Row → α} {locks : Db Row → List (Lock Tab Key)}
    (ended : (selectLocking query locks : Tx Row Key Err α).Ends sees rows a rows') :
    ∃ v : Db Row, v.rows = rows ∧ a = query v ∧ rows' = rows ∧
      sees ⟨.none,locks v,fun _ _ written => absurd rfl written⟩ v := by
  cases ended with
  | stmt shows seen rest =>
    obtain ⟨same,still⟩ := ends_ret.mp rest
    rw [Db.apply_none] at still
    exact ⟨_,shows,same,still.trans shows,seen⟩

theorem ends_select {query : Db Row → α} (ended : (select query : Tx Row Key Err α).Ends sees rows a rows') :
    ∃ v : Db Row, v.rows = rows ∧ a = query v ∧ rows' = rows := by
  cases ended with
  | stmt shows _ rest =>
    obtain ⟨same,still⟩ := ends_ret.mp rest
    simp only [Effect.none,Db.apply_none] at still
    exact ⟨_,shows,same,still.trans shows⟩

theorem ends_findUniqueOrThrow (ended : (findUniqueOrThrow t i missing : Tx Row Key Err (Row t)).Ends sees rows row rows') :
    rows t i = some row ∧ rows' = rows := by
  cases ended with
  | stmt shows _ rest =>
    simp only [Effect.none,Db.apply_none] at rest
    rw [shows] at rest
    split at rest
    · rename_i found
      obtain ⟨same,still⟩ := ends_ret.mp rest
      subst same
      exact ⟨found,still⟩
    · cases rest

section Statements
variable [DecidableEq Tab]

theorem ends_updateMany {p : Nat → Row t → Bool} {f : Nat → Row t → Row t}
    (ended : (updateMany t p f : Tx Row Key Err Nat).Ends sees rows n rows') :
    ∃ v : Db Row, v.rows = rows ∧ n = (v.matching t p).length ∧ rows' = (v.apply (v.updates t p (f v.clock))).rows := by
  cases ended with
  | stmt shows _ rest =>
    obtain ⟨same,after⟩ := ends_ret.mp rest
    exact ⟨_,shows,same,after⟩

theorem ends_create {new : Nat → Row t} (ended : (create t new : Tx Row Key Err (Nat × Row t)).Ends sees rows made rows') :
    ∃ v : Db Row, v.rows = rows ∧ made = (v.seq t,new v.clock) ∧ rows' = (v.apply (v.inserts t [new v.clock])).rows := by
  cases ended with
  | stmt shows _ rest =>
    obtain ⟨same,after⟩ := ends_ret.mp rest
    exact ⟨_,shows,same,after⟩

end Statements

-- However its statements read clocks and sequences, no statement throws.
def Unfailing : Tx Row Key Err α → Rows Row → Prop
  | .ret _,_ => True
  | .throw _,_ => False
  | .stmt effect next,rows => ∀ v : Db Row, v.rows = rows → (next v).Unfailing (v.apply (effect v).writes).rows

theorem unfailing_bind {x : Tx Row Key Err α} {f : α → Tx Row Key Err β} (first : x.Unfailing rows)
    (rest : ∀ a rows', x.Ends (fun _ _ => True) rows a rows' → (f a).Unfailing rows') : (x >>= f).Unfailing rows := by
  induction x generalizing rows with
  | ret a => exact rest a rows .ret
  | throw e => exact first.elim
  | stmt effect next ih =>
    intro v shows
    exact ih v (first v shows) fun a rows' ended => rest a rows' (.stmt shows trivial ended)

-- What a confined transaction leaves as it was.
theorem confined_ends {T : Tab → Prop} {x : Tx Row Key Err α} (within : Confined T x) (ended : x.Ends sees rows a rows')
    (other : ¬T t) : rows' t = rows t := by
  induction ended with
  | ret => rfl
  | stmt shows _ _ ih =>
    obtain ⟨quiet,rest⟩ := within _
    rw [ih rest]
    funext i
    rw [Db.apply_rows,(quiet t other).1 i,← shows]
    rfl

end Tx

theorem Db.all_beyond (v : Db Row) (k : Nat) :
    v.all t = (List.range (v.seq t+k)).filterMap fun i => (v.rows t i).map (Prod.mk i) := by
  induction k with
  | zero => rfl
  | succ k ih =>
    rw [ih,← Nat.add_assoc,List.range_succ,List.filterMap_append]
    simp [v.bounded t (v.seq t+k) (Nat.le_add_right _ _)]

-- Rows alone decide what a query of a whole table returns.
theorem Db.all_rows {v v' : Db Row} (same : v.rows t = v'.rows t) : v.all t = v'.all t := by
  rw [v.all_beyond (max (v.seq t) (v'.seq t)-v.seq t),v'.all_beyond (max (v.seq t) (v'.seq t)-v'.seq t)]
  rw [Nat.add_sub_cancel' (Nat.le_max_left ..),Nat.add_sub_cancel' (Nat.le_max_right ..),same]

-- A query after one insertion returns the new row last, if it asks for it.
theorem Db.matching_insert {v v' : Db Row} {p : Nat → Row t → Bool}
    (rows : v'.rows t = Function.update (v.rows t) (v.seq t) (some row)) (seq : v'.seq t = v.seq t+1) :
    v'.matching t p = v.matching t p ++ if p (v.seq t) row then [(v.seq t,row)] else [] := by
  have before : (List.range (v.seq t)).filterMap (fun i => (v'.rows t i).map (Prod.mk i)) = v.all t := by
    unfold Db.all
    apply List.filterMap_congr
    intro i member
    rw [rows,Function.update_of_ne (Nat.ne_of_lt (List.mem_range.mp member))]
  have last : v'.all t = v.all t ++ [(v.seq t,row)] := by
    have at_last : v'.rows t (v.seq t) = some row := by rw [rows,Function.update_self]
    unfold Db.all at before ⊢
    rw [seq,List.range_succ,List.filterMap_append,before]
    simp [at_last]
  unfold Db.matching
  rw [last,List.filter_append]
  congr 1
  split <;> simp_all

theorem Db.matching_rows {v v' : Db Row} {p : Nat → Row t → Bool} (same : v.rows t = v'.rows t) :
    v.matching t p = v'.matching t p := by
  simp only [Db.matching,Db.all_rows same]

end Relational
