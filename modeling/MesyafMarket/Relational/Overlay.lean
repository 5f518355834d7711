import MesyafMarket.Relational.Frame
import MesyafMarket.Relational.Serial

namespace Relational
variable {Tab : Type} {Row : Tab → Type} {Key Err Task Note In P : Type}

-- What is to hold of the rows beside a discipline that the code already keeps to. It
-- says nothing of the locks that are asked for.
structure Overlay (Row : Tab → Type) (Key P : Type) where
  inv : Db Row → Prop
  fact : P → Db Row → Prop
  change : (Lock Tab Key → Prop) → Db Row → Db Row → Prop
  ends : P → P → Db Row → Db Row → Prop
  change_idle : a.Idles b → change L a b
  change_trans : change L a b → change L b c → change L a c
  change_more : (∀ k, L k → L' k) → change L a b → change L' a b
  inv_idle : a.Idles b → inv a → inv b
  fact_idle : a.Idles b → fact x a → fact x b
  fact_change : change L a b → fact x a → fact x b

def Protocol.over (C : Protocol Row Key P) (O : Overlay Row Key P) : Protocol Row Key P where
  inv T db := C.inv T db ∧ O.inv db
  fact x T db := C.fact x T db ∧ O.fact x db
  change L a b := C.change L a b ∧ O.change L a b
  takes := C.takes
  ends x y a b := C.ends x y a b ∧ O.ends x y a b
  change_idle idles := ⟨C.change_idle idles,O.change_idle idles⟩
  change_trans first second := ⟨C.change_trans first.1 second.1,O.change_trans first.2 second.2⟩
  change_more wider change := ⟨C.change_more wider change.1,O.change_more wider change.2⟩
  inv_idle idles inv := ⟨C.inv_idle idles inv.1,O.inv_idle idles inv.2⟩
  inv_fewer fewer inv := ⟨C.inv_fewer fewer inv.1,inv.2⟩
  inv_take takes inv := ⟨C.inv_take takes inv.1,O.inv_idle (idles_reserve _ _) inv.2⟩
  fact_idle idles known := ⟨C.fact_idle idles known.1,O.fact_idle idles known.2⟩
  fact_fewer fewer known := ⟨C.fact_fewer fewer known.1,known.2⟩
  fact_take takes inv known := ⟨C.fact_take takes inv.1 known.1,known.2⟩
  fact_change held inv change known := ⟨C.fact_change held inv.1 change.1 known.1,O.fact_change change.2 known.2⟩

variable {C : Protocol Row Key P} {O : Overlay Row Key P}

theorem sees_under (sees : (C.over O).Sees x T h w db later) : C.Sees x T h w db later :=
  ⟨sees.changed.1,sees.held,sees.locked,sees.inv.1,sees.fact.1⟩

theorem stable_under {x : P} {A : Mark Row Key} (stable : C.Stable x A) : (C.over O).Stable x A :=
  fun T h w db later now sees => stable T h w db later now (sees_under sees)

-- A body that ends in `Q` whatever others commit between its statements; that its
-- statements may ask for their locks is known already.
def Tx.Keeps (C : Protocol Row Key P) (x : P) (Q : α → Mark Row Key) : Tx Row Key Err α → Mark Row Key
  | .ret a,h,w,db => Q a h w db
  | .throw _,_,_,_ => True
  | .stmt effect next,h,w,db => ∀ T later, C.Sees x T h w db later →
      let v := later.apply w
      (next v).Keeps C x Q (h ++ (effect v).locks) (w.over (effect v).writes) (later.reserve (effect v).writes)

section Rules
variable {x : P} {A : Mark Row Key}

theorem keeps_stmt {effect : Db Row → Effect Row Key} {next : Db Row → Tx Row Key Err α} {Q : α → Mark Row Key}
    (stable : C.Stable x A) (now : A h w db)
    (step : ∀ T db, A h w db → C.Sees x T h w db db →
      (next (db.apply w)).Keeps C x Q (h ++ (effect (db.apply w)).locks) (w.over (effect (db.apply w)).writes)
        (db.reserve (effect (db.apply w)).writes)) :
    (Tx.stmt effect next).Keeps C x Q h w db :=
  fun T later sees => step T later (stable T h w db later now sees) (sees_now sees)

theorem keeps_bind {t : Tx Row Key Err α} {f : α → Tx Row Key Err β} {Q : β → Mark Row Key}
    (keeps : t.Keeps C x (fun a h w db => (f a).Keeps C x Q h w db) h w db) : (t >>= f).Keeps C x Q h w db := by
  induction t generalizing h w db with
  | ret a => exact keeps
  | throw e => trivial
  | stmt effect next ih => exact fun T later sees => ih _ (keeps T later sees)

theorem keeps_mono {t : Tx Row Key Err α} {Q Q' : α → Mark Row Key}
    (weaker : ∀ a h w db, Q a h w db → Q' a h w db) (keeps : t.Keeps C x Q h w db) : t.Keeps C x Q' h w db := by
  induction t generalizing h w db with
  | ret a => exact weaker _ _ _ _ keeps
  | throw e => trivial
  | stmt effect next ih => exact fun T later sees => ih _ (keeps T later sees)

theorem keeps_gives {t : Tx Row Key Err α} {Q : α → Mark Row Key} {R : α → Prop} (keeps : t.Keeps C x Q h w db) (gives : t.Gives R) :
    t.Keeps C x (fun a h w db => Q a h w db ∧ R a) h w db := by
  induction t generalizing h w db with
  | ret a => exact ⟨keeps,gives⟩
  | throw e => trivial
  | stmt effect next ih => exact fun T later sees => ih _ (keeps T later sees) (gives _)

-- What is written outside the tables of a confined body stays as it was before it.
theorem keeps_confined {t : Tx Row Key Err α} {W : Tab → Prop} (within : Confined W t) (stable : C.Stable x A)
    (lasting : ∀ h w db (e : Effect Row Key), (∀ t, ¬W t → ∀ i, e.writes.rows t i = none) → A h w db →
      A (h ++ e.locks) (w.over e.writes) (db.reserve e.writes)) (now : A h w db) :
    t.Keeps C x (fun _ => A) h w db := by
  induction t generalizing h w db with
  | ret a => exact now
  | throw e => trivial
  | stmt effect next ih =>
    intro T later sees
    obtain ⟨quiet,rest⟩ := within (later.apply w)
    exact ih _ rest (lasting _ _ _ _ (fun t out => (quiet t out).1) (stable T h w db later now sees))

section Statements
variable [DecidableEq Tab] {t : Tab} {p : Nat → Row t → Bool} {f : Nat → Row t → Row t} {Q : β → Mark Row Key}
  {h : List (Lock Tab Key)} {w : Writes Row} {db : Db Row} (stable : C.Stable x A) (now : A h w db)
include stable now

theorem keeps_select {query : Db Row → α} {next : α → Tx Row Key Err β}
    (step : ∀ T db, A h w db → C.Sees x T h w db db → (next (query (db.apply w))).Keeps C x Q h w db) :
    (Tx.select query >>= next).Keeps C x Q h w db := by
  refine keeps_stmt stable now ?_
  intro T db known sees
  simp only [Effect.none,List.append_nil,Writes.over_none,reserve_none]
  exact step T db known sees

theorem keeps_selectLocking {query : Db Row → α} {locks : Db Row → List (Lock Tab Key)} {next : α → Tx Row Key Err β}
    (step : ∀ T db, A h w db → C.Sees x T h w db db → ∀ e : Effect Row Key, e.writes = .none → e.locks = locks (db.apply w) →
      (next (query (db.apply w))).Keeps C x Q (h ++ e.locks) (w.over e.writes) (db.reserve e.writes)) :
    (Tx.selectLocking query locks >>= next).Keeps C x Q h w db :=
  keeps_stmt stable now fun T db known sees => step T db known sees _ rfl rfl

theorem keeps_findUniqueOrThrow {next : Row t → Tx Row Key Err β}
    (step : ∀ T db row, A h w db → C.Sees x T h w db db → (db.apply w).rows t i = some row → (next row).Keeps C x Q h w db) :
    (Tx.findUniqueOrThrow t i missing >>= next).Keeps C x Q h w db := by
  refine keeps_stmt stable now ?_
  intro T db known sees
  simp only [Effect.none,List.append_nil,Writes.over_none,reserve_none]
  split
  · rename_i row found
    exact step T db row known sees found
  · trivial

theorem keeps_updateMany {next : Nat → Tx Row Key Err β}
    (step : ∀ T db, A h w db → C.Sees x T h w db db → ∀ e, e = Tx.updatesEffect (db.apply w) t p (f db.clock) [] →
      (next ((db.apply w).matching t p).length).Keeps C x Q (h ++ e.locks) (w.over e.writes) (db.reserve e.writes)) :
    (Tx.updateMany t p f >>= next).Keeps C x Q h w db :=
  keeps_stmt stable now fun T db known sees => step T db known sees _ rfl

theorem keeps_update {next : Unit → Tx Row Key Err β}
    (step : ∀ T db, A h w db → C.Sees x T h w db db → ∀ e, e = Tx.updatesEffect (db.apply w) t p (f db.clock) [] →
      (db.apply w).matching t p ≠ [] →
        (next ()).Keeps C x Q (h ++ e.locks) (w.over e.writes) (db.reserve e.writes)) :
    (Tx.update t p f missing >>= next).Keeps C x Q h w db := by
  refine keeps_stmt stable now ?_
  intro T db known sees
  dsimp only
  split
  · trivial
  · rename_i some
    exact step T db known sees _ rfl fun empty => some (List.isEmpty_iff.mpr empty)

theorem keeps_deleteMany {next : Nat → Tx Row Key Err β}
    (step : ∀ T db, A h w db → C.Sees x T h w db db → ∀ e, e = Tx.deletesEffect (db.apply w) t p →
      (next ((db.apply w).matching t p).length).Keeps C x Q (h ++ e.locks) (w.over e.writes) (db.reserve e.writes)) :
    (Tx.deleteMany t p >>= next).Keeps C x Q h w db :=
  keeps_stmt stable now fun T db known sees => step T db known sees _ rfl

theorem keeps_createMany {new : Nat → List (Row t)} {next : Unit → Tx Row Key Err β}
    (step : ∀ T db, A h w db → C.Sees x T h w db db → ∀ e, e = Tx.insertsEffect (db.apply w) t (new db.clock) [] →
      (next ()).Keeps C x Q (h ++ e.locks) (w.over e.writes) (db.reserve e.writes)) :
    (Tx.createMany t new >>= next).Keeps C x Q h w db :=
  keeps_stmt stable now fun T db known sees => step T db known sees _ rfl

theorem keeps_create {new : Nat → Row t} {next : Nat × Row t → Tx Row Key Err β}
    (step : ∀ T db, A h w db → C.Sees x T h w db db → ∀ e, e = Tx.insertsEffect (db.apply w) t [new db.clock] [] →
      (next ((db.apply w).seq t,new db.clock)).Keeps C x Q (h ++ e.locks) (w.over e.writes) (db.reserve e.writes)) :
    (Tx.create t new >>= next).Keeps C x Q h w db :=
  keeps_stmt stable now fun T db known sees => step T db known sees _ rfl

end Statements

theorem safe_over {t : Tx Row Key Err α} {Q Q' : α → Mark Row Key} (safe : t.Safe C x Q h w db)
    (keeps : t.Keeps (C.over O) x Q' h w db) : t.Safe (C.over O) x (fun a h w db => Q a h w db ∧ Q' a h w db) h w db := by
  induction t generalizing h w db with
  | ret a => exact ⟨safe,keeps⟩
  | throw e => trivial
  | stmt effect next ih =>
    intro T later sees
    obtain ⟨taken,rest⟩ := safe T later (sees_under sees)
    exact ⟨taken,ih _ rest (keeps T later sees)⟩

end Rules

-- The overlay's part of what a commit keeps.
def Overlay.Commits (O : Overlay Row Key P) (C : Protocol Row Key P) (x y : P) : Mark Row Key := fun h w db =>
  ∀ T later, (C.over O).Sees x T h w db later →
    O.inv (later.apply w) ∧ O.change (· ∈ h) later (later.apply w) ∧ O.fact y (later.apply w) ∧
      O.ends x y later (later.apply w)

theorem overlay_commits {x y : P} {A : Mark Row Key} (stable : (C.over O).Stable x A) (now : A h w db)
    (step : ∀ T db, A h w db → (C.over O).Sees x T h w db db →
      O.inv (db.apply w) ∧ O.change (· ∈ h) db (db.apply w) ∧ O.fact y (db.apply w) ∧ O.ends x y db (db.apply w)) :
    O.Commits C x y h w db := fun T later sees => step T later (stable T h w db later now sees) (sees_now sees)

theorem commits_over {x y : P} (under : C.Commits x y h w db) (more : O.Commits C x y h w db) :
    (C.over O).Commits x y h w db := by
  intro T later sees
  obtain ⟨inv,change,fact,ends⟩ := under T later (sees_under sees)
  obtain ⟨inv',change',fact',ends'⟩ := more T later sees
  exact ⟨⟨inv,inv'⟩,⟨change,change'⟩,⟨fact,fact'⟩,⟨ends,ends'⟩⟩

-- The code keeps to the overlay where it follows the protocol below.
structure Program.Overlays (G : Program Row Key Err Task Note In P) (C : Protocol Row Key P) (O : Overlay Row Key P)
    (may : Sessions Row Key Err Task P → Act In P → Prop) : Prop where
  spawn : ∀ (s : Sessions Row Key Err Task P) x, may s (.spawn x) → O.fact x s.sys.db
  query : ∀ x db read, O.fact x db → G.next x = .query read → O.fact (read db) db
  input : ∀ x db read i, O.fact x db → G.next x = .input read → O.fact (read i) db
  add : ∀ x db task y, O.fact x db → G.next x = .add task y → O.fact y db ∧ O.fact (G.worker task) db
  emit : ∀ x db note y, O.fact x db → G.next x = .emit note y → O.fact y db
  caught : ∀ x db e, O.fact x db → O.fact (G.caught x e) db
  body : ∀ x T db body, (C.over O).inv T db → (C.over O).fact x T db → G.next x = .tx body →
    body.Keeps (C.over O) x (O.Commits C x) [] .none db

theorem follows_over {G : Program Row Key Err Task Note In P} {may wider : Sessions Row Key Err Task P → Act In P → Prop}
    (under : G.Follows C wider) (more : G.Overlays C O may) (weaker : ∀ s m, may s m → wider s m) :
    G.Follows (C.over O) may where
  spawn s x inv allowed := ⟨under.spawn s x inv.1 (weaker _ _ allowed),more.spawn s x allowed⟩
  query s p i x read inv known allowed found at_query :=
    ⟨under.query s p i x read inv.1 known.1 (weaker _ _ allowed) found at_query,more.query x _ read known.2 at_query⟩
  input x T db read i known at_input := ⟨under.input x T db read i known.1 at_input,more.input x db read i known.2 at_input⟩
  add x T db task y known at_add := by
    obtain ⟨own,new⟩ := under.add x T db task y known.1 at_add
    obtain ⟨own',new'⟩ := more.add x db task y known.2 at_add
    exact ⟨⟨own,own'⟩,new,new'⟩
  emit x T db note y known at_emit := ⟨under.emit x T db note y known.1 at_emit,more.emit x db note y known.2 at_emit⟩
  caught x T db e known := ⟨under.caught x T db e known.1,more.caught x db e known.2⟩
  body x T db body inv known at_tx :=
    safe_mono (fun _ _ _ _ both => commits_over both.1 both.2)
      (safe_over (under.body x T db body inv.1 known.1 at_tx) (more.body x T db body inv known at_tx))

-- Something comes true at most once: it holds after a commit if it held before or if
-- the commit is a hit, and then it did not hold before.
structure Once (before after hit : Bool) : Prop where
  after : after = (before || hit)
  first : hit = true → before = false

theorem once_still {before after hit : Bool} (same : after = before) (missed : hit = false) : Once before after hit :=
  ⟨by rw [same,missed,Bool.or_false],fun struck => by rw [missed] at struck; cases struck⟩

section Endings
variable {G : Program Row Key Err Task Note In P} {may : Sessions Row Key Err Task P → Act In P → Prop}
  {s : Sessions Row Key Err Task P}

-- The process states between which a move commits.
def Sessions.ended (s : Sessions Row Key Err Task P) : Act In P → Option (P × P)
  | .step p _ => match s.sys.threads p with
    | some (.busy x txn) => match txn.prog with
      | .ret y => some (x,y)
      | _ => none
    | _ => none
  | _ => none

theorem ended_none (unended : s.ended m = none) : s.commits m = none := by
  unfold Sessions.ended at unended
  unfold Sessions.commits
  split
  · split
    · rename_i found
      split
      · rename_i at_ret
        simp only [found,at_ret,reduceCtorEq] at unended
      · rfl
    · rfl
  · rfl

theorem ended_parts (hit : s.ended m = some (x,y)) :
    ∃ p i txn, m = .step p i ∧ s.sys.threads p = some (.busy x txn) ∧ txn.prog = .ret y := by
  unfold Sessions.ended at hit
  split at hit
  · rename_i p i
    split at hit
    · rename_i z txn found
      split at hit
      · rename_i y' at_ret
        cases hit
        exact ⟨p,i,txn,rfl,found,at_ret⟩
      · cases hit
    · cases hit
  · cases hit

variable [DecidableEq Tab] [DecidableEq Key]

def Sessions.endings (G : Program Row Key Err Task Note In P) (s : Sessions Row Key Err Task P) (moves : List (Act In P)) :
    List (P × P) := (s.trace G moves).filterMap fun made => made.1.ended made.2

theorem endings_snoc (s : Sessions Row Key Err Task P) (moves : List (Act In P)) (m : Act In P) :
    s.endings G (moves ++ [m]) = s.endings G moves ++ ((s.run G moves).ended m).toList := by
  unfold Sessions.endings
  rw [sessions_trace_snoc,List.filterMap_append]
  cases found : (s.run G moves).ended m <;> simp [found]

theorem step_commits (found : s.sys.threads p = some (.busy x txn)) (at_ret : txn.prog = .ret y) (i : In) :
    s.step G p i = {s with sys := s.sys.put p (.idle y) _ found (by intro k member; cases member) (s.sys.db.apply txn.writes)} := by
  unfold Sessions.step
  split
  · rename_i other
    cases found.symm.trans other
  · rw [advance_ret found at_ret]
  · rename_i none
    cases found.symm.trans none

theorem commit_made (valid : s.Disciplined C G) (hit : s.ended m = some (x,y)) :
    (∃ L, C.change L s.sys.db (s.move G m).sys.db) ∧ C.ends x y s.sys.db (s.move G m).sys.db := by
  obtain ⟨p,i,txn,rfl,found,at_ret⟩ := ended_parts hit
  obtain ⟨_,changed,_,ends⟩ := commit_parts valid.sys found at_ret
  show (∃ L, C.change L s.sys.db (s.step G p i).sys.db) ∧ C.ends x y s.sys.db (s.step G p i).sys.db
  rw [step_commits found at_ret]
  exact ⟨⟨_,changed⟩,ends⟩

-- What every commit keeps, a run keeps.
theorem kept_run {R : Db Row → Db Row → Prop} (sound : G.Follows C may) (valid : s.Disciplined C G)
    (still : ∀ a b : Db Row, b.rows = a.rows → R a b) (trans : ∀ a b c, R a b → R b c → R a c)
    (change : ∀ L a b, C.change L a b → R a b) (moves : List (Act In P))
    (allowed : ∀ made ∈ s.trace G moves, may made.1 made.2) : R s.sys.db (s.run G moves).sys.db := by
  induction moves using List.reverseRecOn with
  | nil => exact still _ _ rfl
  | append_singleton moves m ih =>
    rw [sessions_trace_snoc] at allowed
    have before : ∀ made ∈ s.trace G moves, may made.1 made.2 :=
      fun made member => allowed made (List.mem_append_left _ member)
    have reached := disciplined_run sound valid moves before
    have kept := ih before
    rw [sessions_run_snoc]
    generalize s.run G moves = now at reached kept ⊢
    refine trans _ _ _ kept ?_
    cases ended : now.ended m with
    | none => exact still _ _ (Sessions.rows_still (G := G) (ended_none ended))
    | some e =>
      obtain ⟨⟨L,changed⟩,_⟩ := commit_made reached ended
      exact change L _ _ changed

-- In any run the hits are as many as the thing is true.
theorem once_run (D : Db Row → Bool) (hit : P → P → Bool) (sound : G.Follows C may) (valid : s.Disciplined C G)
    (rows : ∀ a b : Db Row, b.rows = a.rows → D b = D a)
    (once : ∀ x y a b, C.ends x y a b → Once (D a) (D b) (hit x y)) (start : D s.sys.db = false) (moves : List (Act In P))
    (allowed : ∀ made ∈ s.trace G moves, may made.1 made.2) :
    ((s.endings G moves).countP fun e => hit e.1 e.2) = (D (s.run G moves).sys.db).toNat := by
  induction moves using List.reverseRecOn with
  | nil =>
    show 0 = (D s.sys.db).toNat
    rw [start]
    rfl
  | append_singleton moves m ih =>
    rw [sessions_trace_snoc] at allowed
    have before : ∀ made ∈ s.trace G moves, may made.1 made.2 :=
      fun made member => allowed made (List.mem_append_left _ member)
    have counted := ih before
    have reached := disciplined_run sound valid moves before
    rw [sessions_run_snoc,endings_snoc,List.countP_append,counted]
    generalize s.run G moves = now at reached ⊢
    cases ended : now.ended m with
    | none => rw [rows _ _ (Sessions.rows_still (G := G) (ended_none ended))]; rfl
    | some e =>
      obtain ⟨x,y⟩ := e
      have made := once x y _ _ (commit_made reached ended).2
      rw [made.after]
      cases struck : hit x y with
      | false => simp [struck]
      | true => simp [struck,made.first struck]

end Endings
end Relational
