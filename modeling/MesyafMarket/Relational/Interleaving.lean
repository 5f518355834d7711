import MesyafMarket.Relational.Tx

namespace Relational
variable {Tab : Type} {Row : Tab → Type} {Key Err P : Type}

-- An open transaction: the statements still to run, the versions written and not
-- yet committed, the locks held until the end.
structure Txn (Row : Tab → Type) (Key Err P : Type) where
  prog : Tx Row Key Err P
  writes : Writes Row
  held : List (Lock Tab Key)
  locked : ∀ t i, writes.rows t i ≠ none → Lock.row t i ∈ held

def Txn.start (body : Tx Row Key Err P) : Txn Row Key Err P :=
  ⟨body,.none,[],none_locked⟩

def Txn.advance (txn : Txn Row Key Err P) (effect : Effect Row Key) (next : Tx Row Key Err P) :
    Txn Row Key Err P where
  prog := next
  writes := txn.writes.over effect.writes
  held := txn.held ++ effect.locks
  locked t i written := by
    apply List.mem_append.mpr
    cases later : effect.writes.rows t i with
    | some version => exact .inr (effect.locked t i (by simp [later]))
    | none => exact .inl (txn.locked t i (by simpa [later] using written))

-- A process between two transactions, or inside one. `P` holds its local
-- variables; the transaction returns the variables it goes on with.
inductive Thread (Row : Tab → Type) (Key Err P : Type) where
  | idle (state : P)
  | busy (state : P) (txn : Txn Row Key Err P)

def Thread.state : Thread Row Key Err P → P
  | .idle x => x
  | .busy x _ => x

def Thread.held : Thread Row Key Err P → List (Lock Tab Key)
  | .idle _ => []
  | .busy _ txn => txn.held

-- No lock is held by two threads.
def Exclusive (threads : Nat → Option (Thread Row Key Err P)) : Prop :=
  ∀ p q (a b : Thread Row Key Err P), p ≠ q → threads p = some a → threads q = some b →
    ∀ k ∈ a.held, k ∉ b.held

structure System (Row : Tab → Type) (Key Err P : Type) where
  db : Db Row
  threads : Nat → Option (Thread Row Key Err P)
  spawned : Nat
  bounded : ∀ p, spawned ≤ p → threads p = none
  exclusive : Exclusive threads

theorem System.below (s : System Row Key Err P) (found : s.threads p = some a) : p < s.spawned := by
  apply Nat.lt_of_not_le
  intro above
  rw [s.bounded p above] at found
  cases found

theorem exclusive_update {threads : Nat → Option (Thread Row Key Err P)}
    {a : Thread Row Key Err P} (valid : Exclusive threads)
    (free : ∀ q b, q ≠ p → threads q = some b → ∀ k ∈ a.held, k ∉ b.held) :
    Exclusive (Function.update threads p (some a)) := by
  intro i j x y apart atI atJ k member held
  by_cases first : i = p
  · subst i
    rw [Function.update_of_ne (Ne.symm apart)] at atJ
    rw [Function.update_self] at atI
    cases Option.some.inj atI
    exact free j y (Ne.symm apart) atJ k member held
  · rw [Function.update_of_ne first] at atI
    by_cases second : j = p
    · subst j
      rw [Function.update_self] at atJ
      cases Option.some.inj atJ
      exact free i x first atI k held member
    · rw [Function.update_of_ne second] at atJ
      exact valid i j x y apart atI atJ k member held

-- A thread that keeps no more locks than it had.
def System.put (s : System Row Key Err P) (p : Nat) (a : Thread Row Key Err P)
    (old : Thread Row Key Err P) (found : s.threads p = some old) (fewer : ∀ k ∈ a.held, k ∈ old.held)
    (db : Db Row) : System Row Key Err P where
  db := db
  threads := Function.update s.threads p (some a)
  spawned := s.spawned
  bounded q above := by
    rw [Function.update_of_ne (Nat.ne_of_gt (Nat.lt_of_lt_of_le (s.below found) above))]
    exact s.bounded q above
  exclusive := exclusive_update s.exclusive fun q b apart atQ k member =>
    s.exclusive p q old b (Ne.symm apart) found atQ k (fewer k member)

def System.spawn (s : System Row Key Err P) (x : P) : System Row Key Err P where
  db := s.db
  threads := Function.update s.threads s.spawned (some (.idle x))
  spawned := s.spawned+1
  bounded q above := by
    rw [Function.update_of_ne (by omega)]; exact s.bounded q (by omega)
  exclusive := exclusive_update s.exclusive fun _ _ _ _ _ member => by cases member

-- The process stops: an open transaction is rolled back, its locks are gone.
def System.stop (s : System Row Key Err P) (p : Nat) : System Row Key Err P where
  db := s.db
  threads := Function.update s.threads p none
  spawned := s.spawned
  bounded q above := by
    by_cases same : q = p
    · subst q; exact Function.update_self ..
    · rw [Function.update_of_ne same]; exact s.bounded q above
  exclusive := by
    intro i j x y apart atI atJ
    by_cases first : i = p
    · subst i; rw [Function.update_self] at atI; cases atI
    · by_cases second : j = p
      · subst j; rw [Function.update_self] at atJ; cases atJ
      · rw [Function.update_of_ne first] at atI
        rw [Function.update_of_ne second] at atJ
        exact s.exclusive i j x y apart atI atJ

def System.heldBy (s : System Row Key Err P) (q : Nat) : List (Lock Tab Key) :=
  match s.threads q with
  | some a => a.held
  | none => []

-- A statement waits while another thread holds a lock it needs.
def System.Free (s : System Row Key Err P) (p : Nat) (locks : List (Lock Tab Key)) : Prop :=
  ∀ q < s.spawned, q ≠ p → ∀ k ∈ locks, k ∉ s.heldBy q

instance [DecidableEq Tab] [DecidableEq Key] (s : System Row Key Err P) (p : Nat)
    (locks : List (Lock Tab Key)) : Decidable (s.Free p locks) :=
  inferInstanceAs (Decidable (∀ q < s.spawned, q ≠ p → ∀ k ∈ locks, k ∉ s.heldBy q))

theorem System.free_other (s : System Row Key Err P) (free : s.Free p locks) (other : q ≠ p)
    (found : s.threads q = some a) : ∀ k ∈ locks, k ∉ a.held := by
  intro k member held
  exact free q (s.below found) other k member (by simpa [System.heldBy,found] using held)

-- Between two statements a transaction only takes locks and draws ids.
def System.exec (s : System Row Key Err P) (p : Nat) (x : P) (txn : Txn Row Key Err P)
    (found : s.threads p = some (.busy x txn)) (effect : Effect Row Key) (next : Tx Row Key Err P)
    (free : s.Free p effect.locks) : System Row Key Err P where
  db := s.db.reserve effect.writes
  threads := Function.update s.threads p (some (.busy x (txn.advance effect next)))
  spawned := s.spawned
  bounded q above := by
    rw [Function.update_of_ne (Nat.ne_of_gt (Nat.lt_of_lt_of_le (s.below found) above))]
    exact s.bounded q above
  exclusive := exclusive_update s.exclusive fun q b apart atQ k member => by
    rcases List.mem_append.mp member with before | taken
    · exact s.exclusive p q _ b (Ne.symm apart) found atQ k before
    · exact s.free_other free apart atQ k taken

section Execution
variable [DecidableEq Tab] [DecidableEq Key]

-- One move of a thread inside its transaction. `caught` is where a process goes
-- on when the transaction has thrown.
def System.advance? (caught : P → Err → P) (s : System Row Key Err P) (p : Nat) :
    Option (System Row Key Err P) :=
  match found : s.threads p with
  | some (.busy x txn) =>
    match txn.prog with
    | .stmt effect next =>
      let v := s.db.apply txn.writes
      if free : s.Free p (effect v).locks then some (s.exec p x txn found (effect v) (next v) free)
      else none
    | .ret y => some (s.put p (.idle y) _ found (by intro k member; cases member) (s.db.apply txn.writes))
    | .throw e => some (s.put p (.idle (caught x e)) _ found (by intro k member; cases member) s.db)
  | _ => none

-- What one move of an open transaction can do.
inductive Advanced (caught : P → Err → P) (s : System Row Key Err P) (p : Nat) :
    System Row Key Err P → Prop where
  | exec (found : s.threads p = some (.busy x txn)) (at_stmt : txn.prog = .stmt effect next)
      (free : s.Free p (effect (s.db.apply txn.writes)).locks) :
      Advanced caught s p (s.exec p x txn found (effect (s.db.apply txn.writes))
        (next (s.db.apply txn.writes)) free)
  | commit (found : s.threads p = some (.busy x txn)) (at_ret : txn.prog = .ret y) :
      Advanced caught s p (s.put p (.idle y) _ found (by intro k member; cases member)
        (s.db.apply txn.writes))
  | rollback (found : s.threads p = some (.busy x txn)) (at_throw : txn.prog = .throw e) :
      Advanced caught s p (s.put p (.idle (caught x e)) _ found (by intro k member; cases member) s.db)

theorem advance_parts {caught : P → Err → P} {s : System Row Key Err P}
    (accepted : s.advance? caught p = some next) : Advanced caught s p next := by
  unfold System.advance? at accepted
  split at accepted
  · rename_i x txn found
    split at accepted
    · rename_i effect rest at_stmt
      dsimp only at accepted
      split at accepted
      · rename_i free
        cases Option.some.inj accepted; exact .exec found at_stmt free
      · cases accepted
    · rename_i y at_ret
      cases Option.some.inj accepted; exact .commit found at_ret
    · rename_i e at_throw
      cases Option.some.inj accepted; exact .rollback found at_throw
  · cases accepted

theorem advance_ret {caught : P → Err → P} {s : System Row Key Err P} (found : s.threads p = some (.busy x txn))
    (at_ret : txn.prog = .ret y) : s.advance? caught p =
      some (s.put p (.idle y) _ found (by intro k member; cases member) (s.db.apply txn.writes)) := by
  unfold System.advance?
  split
  · rename_i z other same
    cases found.symm.trans same
    split
    · rename_i effect rest at_stmt
      rw [at_ret] at at_stmt; cases at_stmt
    · rename_i z again
      rw [at_ret] at again; cases again; rfl
    · rename_i e at_throw
      rw [at_ret] at at_throw; cases at_throw
  · rename_i none
    exact absurd found (none _ _)

end Execution

-- Clocks differ and sequences hand out ids, the rows stay.
structure Db.Idles (a b : Db Row) : Prop where
  rows : b.rows = a.rows
  seq : ∀ t, a.seq t ≤ b.seq t

theorem idles_reserve (db : Db Row) (w : Writes Row) : db.Idles (db.reserve w) :=
  ⟨rfl,fun _ => Nat.le_max_left _ _⟩

theorem reserve_none (db : Db Row) : db.reserve .none = db := by
  ext t i
  · rfl
  · simp [Db.reserve,Writes.none]
  · rfl

theorem idles_dated (db : Db Row) : db.Idles (db.dated now) := ⟨rfl,fun _ => Nat.le_refl _⟩

-- A discipline that all transactions of a system follow. `inv` holds of every
-- committed database and `fact x` of it while a process is in state `x`; both may
-- speak of the locks that are held by someone. `change L` is what the rows may
-- undergo at the hands of one who holds the locks `L`, `takes h` what must hold
-- for a statement to ask for its locks when the transaction holds `h`, `ends x y`
-- what the commit does that takes a process from `x` to `y`.
structure Protocol (Row : Tab → Type) (Key P : Type) where
  inv : (Lock Tab Key → Prop) → Db Row → Prop
  fact : P → (Lock Tab Key → Prop) → Db Row → Prop
  change : (Lock Tab Key → Prop) → Db Row → Db Row → Prop
  takes : List (Lock Tab Key) → Db Row → Effect Row Key → Prop
  ends : P → P → Db Row → Db Row → Prop
  change_idle : a.Idles b → change L a b
  change_trans : change L a b → change L b c → change L a c
  change_more : (∀ k, L k → L' k) → change L a b → change L' a b
  inv_idle : a.Idles b → inv T a → inv T b
  inv_fewer : (∀ k, T' k → T k) → inv T db → inv T' db
  inv_take : takes h db e → inv T db → inv (fun k => T k ∨ k ∈ e.locks) (db.reserve e.writes)
  fact_idle : a.Idles b → fact x T a → fact x T b
  fact_fewer : (∀ k, T' k → T k) → fact x T db → fact x T' db
  fact_take : takes h db e → inv T db → fact x T db → fact x (fun k => T k ∨ k ∈ e.locks) db
  fact_change : (∀ k, L k → T k) → inv T a → change L a b → fact x T a → fact x T b

variable {C : Protocol Row Key P}

theorem Db.Idles.refl (db : Db Row) : db.Idles db := ⟨rfl,fun _ => Nat.le_refl _⟩

-- The writes of a transaction lie under its locks.
def Locked (h : List (Lock Tab Key)) (w : Writes Row) : Prop := ∀ t i, w.rows t i ≠ none → Lock.row t i ∈ h

-- What a transaction of a process in state `x` finds when it goes on: since it was
-- at `db`, others have changed only what its locks `h` leave open.
structure Protocol.Sees (C : Protocol Row Key P) (x : P) (T : Lock Tab Key → Prop) (h : List (Lock Tab Key))
    (w : Writes Row) (db later : Db Row) : Prop where
  changed : C.change (· ∉ h) db later
  held : ∀ k ∈ h, T k
  locked : Locked h w
  inv : C.inv T later
  fact : C.fact x T later

-- Every statement of the body keeps the discipline, whatever others commit before
-- it runs, and a body that returns ends in `Q`.
def Tx.Safe (C : Protocol Row Key P) (x : P) (Q : α → List (Lock Tab Key) → Writes Row → Db Row → Prop) :
    Tx Row Key Err α → List (Lock Tab Key) → Writes Row → Db Row → Prop
  | .ret a,h,w,db => Q a h w db
  | .throw _,_,_,_ => True
  | .stmt effect next,h,w,db => ∀ T later, C.Sees x T h w db later →
      let v := later.apply w
      C.takes h later (effect v) ∧
        (next v).Safe C x Q (h ++ (effect v).locks) (w.over (effect v).writes) (later.reserve (effect v).writes)

-- What may be assumed of a transaction's locks, writes and committed rows between
-- two of its statements.
abbrev Mark (Row : Tab → Type) (Key : Type) := List (Lock Tab Key) → Writes Row → Db Row → Prop

-- No commit of others can undo it.
def Protocol.Stable (C : Protocol Row Key P) (x : P) (A : Mark Row Key) : Prop :=
  ∀ T h w db later, A h w db → C.Sees x T h w db later → A h w later

section Rules
variable {x : P} {A B : Mark Row Key}

theorem sees_now (sees : C.Sees x T h w db later) : C.Sees x T h w later later :=
  {sees with changed := C.change_idle (.refl later)}

theorem safe_stmt {effect : Db Row → Effect Row Key} {next : Db Row → Tx Row Key Err α} {Q : α → Mark Row Key}
    (stable : C.Stable x A) (now : A h w db)
    (step : ∀ T db, A h w db → C.Sees x T h w db db →
      C.takes h db (effect (db.apply w)) ∧
        (next (db.apply w)).Safe C x Q (h ++ (effect (db.apply w)).locks) (w.over (effect (db.apply w)).writes)
          (db.reserve (effect (db.apply w)).writes)) :
    (Tx.stmt effect next).Safe C x Q h w db :=
  fun T later sees => step T later (stable T h w db later now sees) (sees_now sees)

theorem safe_bind {t : Tx Row Key Err α} {f : α → Tx Row Key Err β} {Q : β → Mark Row Key}
    (safe : t.Safe C x (fun a h w db => (f a).Safe C x Q h w db) h w db) : (t >>= f).Safe C x Q h w db := by
  induction t generalizing h w db with
  | ret a => exact safe
  | throw e => trivial
  | stmt effect next ih =>
    intro T later sees
    obtain ⟨taken,rest⟩ := safe T later sees
    exact ⟨taken,ih _ rest⟩

theorem safe_mono {t : Tx Row Key Err α} {Q Q' : α → Mark Row Key}
    (weaker : ∀ a h w db, Q a h w db → Q' a h w db) (safe : t.Safe C x Q h w db) : t.Safe C x Q' h w db := by
  induction t generalizing h w db with
  | ret a => exact weaker _ _ _ _ safe
  | throw e => trivial
  | stmt effect next ih =>
    intro T later sees
    obtain ⟨taken,rest⟩ := safe T later sees
    exact ⟨taken,ih _ rest⟩

-- A body returns only what fits `R`, whatever it reads.
def Tx.Gives (R : α → Prop) : Tx Row Key Err α → Prop
  | .ret a => R a
  | .throw _ => True
  | .stmt _ next => ∀ v, (next v).Gives R

theorem gives_pure {t : Tx Row Key Err α} {f : α → β} {R : β → Prop} (each : ∀ a, R (f a)) :
    (t >>= fun a => pure (f a)).Gives R := by
  induction t with
  | ret a => exact each a
  | throw e => trivial
  | stmt effect next ih => exact fun v => ih v

theorem safe_gives {t : Tx Row Key Err α} {Q : α → Mark Row Key} {R : α → Prop} (safe : t.Safe C x Q h w db) (gives : t.Gives R) :
    t.Safe C x (fun a h w db => Q a h w db ∧ R a) h w db := by
  induction t generalizing h w db with
  | ret a => exact ⟨safe,gives⟩
  | throw e => trivial
  | stmt effect next ih =>
    intro T later sees
    obtain ⟨taken,rest⟩ := safe T later sees
    exact ⟨taken,ih _ rest (gives _)⟩

theorem stable_and (one : C.Stable x A) (two : C.Stable x B) : C.Stable x fun h w db => A h w db ∧ B h w db :=
  fun T h w db later both sees => ⟨one T h w db later both.1 sees,two T h w db later both.2 sees⟩

-- What a transaction has written and locked so far is its own affair.
theorem stable_own (own : List (Lock Tab Key) → Writes Row → Prop) : C.Stable x fun h w _ => own h w :=
  fun _ _ _ _ _ marked _ => marked

end Rules

-- The end of a transaction that ran for a process in state `x` and leaves it in
-- `y`: whatever others committed meanwhile, the commit keeps the discipline.
def Protocol.Commits (C : Protocol Row Key P) (x y : P) : Mark Row Key := fun h w db =>
  ∀ T later, C.Sees x T h w db later →
    C.inv T (later.apply w) ∧ C.change (· ∈ h) later (later.apply w) ∧ C.fact y T (later.apply w) ∧
      C.ends x y later (later.apply w)

-- A body keeps to the discipline after others have changed what its locks leave open.
theorem safe_later {t : Tx Row Key Err P} {x : P} (safe : t.Safe C x (C.Commits x) h w db)
    (changed : C.change (· ∉ h) db now) : t.Safe C x (C.Commits x) h w now := by
  cases t with
  | ret y => exact fun T later sees => safe T later {sees with changed := C.change_trans changed sees.changed}
  | throw e => trivial
  | stmt effect next =>
    exact fun T later sees => safe T later {sees with changed := C.change_trans changed sees.changed}

def System.taken (s : System Row Key Err P) (k : Lock Tab Key) : Prop :=
  ∃ p a, s.threads p = some a ∧ k ∈ a.held

-- Every process knows what its state says, and every open transaction is in the
-- middle of a body that keeps to the discipline.
structure System.Disciplined (C : Protocol Row Key P) (s : System Row Key Err P) : Prop where
  inv : C.inv s.taken s.db
  fact : ∀ p a, s.threads p = some a → C.fact a.state s.taken s.db
  safe : ∀ p x txn, s.threads p = some (.busy x txn) →
    txn.prog.Safe C x (C.Commits x) txn.held txn.writes s.db

-- Whatever was known before a move is known after it.
def System.Onward (C : Protocol Row Key P) (s s' : System Row Key Err P) : Prop :=
  ∀ x, C.fact x s.taken s.db → C.fact x s'.taken s'.db

section Moves
variable {s s' : System Row Key Err P}

theorem onward_fewer (fewer : ∀ k, s'.taken k → s.taken k) (same : s'.db = s.db) : s.Onward C s' := by
  intro x known
  rw [same]; exact C.fact_fewer fewer known

theorem taken_put {found : s.threads p = some old} {fewer : ∀ k ∈ a.held, k ∈ old.held}
    (taken : (s.put p a old found fewer db).taken k) : s.taken k := by
  obtain ⟨q,b,atQ,member⟩ := taken
  simp only [System.put] at atQ
  by_cases same : q = p
  · subst q
    rw [Function.update_self] at atQ
    cases atQ
    exact ⟨p,old,found,fewer k member⟩
  · rw [Function.update_of_ne same] at atQ; exact ⟨q,b,atQ,member⟩

theorem taken_spawn (taken : (s.spawn y).taken k) : s.taken k := by
  obtain ⟨q,b,atQ,member⟩ := taken
  simp only [System.spawn] at atQ
  by_cases same : q = s.spawned
  · subst q; rw [Function.update_self] at atQ; cases atQ; cases member
  · rw [Function.update_of_ne same] at atQ; exact ⟨q,b,atQ,member⟩

theorem stop_before (found : (s.stop p).threads q = some b) : s.threads q = some b := by
  simp only [System.stop] at found
  by_cases same : q = p
  · subst q; rw [Function.update_self] at found; cases found
  · rwa [Function.update_of_ne same] at found

theorem taken_stop (taken : (s.stop p).taken k) : s.taken k := by
  obtain ⟨q,b,atQ,member⟩ := taken
  exact ⟨q,b,stop_before atQ,member⟩

theorem onward_put (found : s.threads p = some old) (fewer : ∀ k ∈ a.held, k ∈ old.held) :
    s.Onward C (s.put p a old found fewer s.db) := onward_fewer (fun _ => taken_put) rfl

theorem onward_spawn : s.Onward C (s.spawn y) := onward_fewer (fun _ => taken_spawn) rfl

theorem onward_stop : s.Onward C (s.stop p) := onward_fewer (fun _ => taken_stop) rfl

-- A thread goes on outside a transaction, or opens one.
theorem disciplined_put (valid : s.Disciplined C) (found : s.threads p = some old)
    (fewer : ∀ k ∈ a.held, k ∈ old.held) (known : C.fact a.state s.taken s.db)
    (safe : ∀ x txn, a = .busy x txn → txn.prog.Safe C x (C.Commits x) txn.held txn.writes s.db) :
    (s.put p a old found fewer s.db).Disciplined C := by
  refine ⟨C.inv_fewer (fun _ => taken_put) valid.inv,?_,?_⟩
  · intro q b atQ
    refine onward_put found fewer _ ?_
    simp only [System.put] at atQ
    by_cases same : q = p
    · subst q; rw [Function.update_self] at atQ; cases atQ; exact known
    · rw [Function.update_of_ne same] at atQ; exact valid.fact q b atQ
  · intro q x txn atQ
    simp only [System.put] at atQ
    by_cases same : q = p
    · subst q; rw [Function.update_self] at atQ; exact safe x txn (Option.some.inj atQ)
    · rw [Function.update_of_ne same] at atQ; exact valid.safe q x txn atQ

theorem disciplined_spawn (valid : s.Disciplined C) (known : C.fact y s.taken s.db) :
    (s.spawn y).Disciplined C := by
  refine ⟨C.inv_fewer (fun _ => taken_spawn) valid.inv,?_,?_⟩
  · intro q b atQ
    refine onward_spawn _ ?_
    simp only [System.spawn] at atQ
    by_cases same : q = s.spawned
    · subst q; rw [Function.update_self] at atQ; cases atQ; exact known
    · rw [Function.update_of_ne same] at atQ; exact valid.fact q b atQ
  · intro q x txn atQ
    simp only [System.spawn] at atQ
    by_cases same : q = s.spawned
    · subst q; rw [Function.update_self] at atQ; cases atQ
    · rw [Function.update_of_ne same] at atQ; exact valid.safe q x txn atQ

theorem disciplined_stop (valid : s.Disciplined C) : (s.stop p).Disciplined C :=
  ⟨C.inv_fewer (fun _ => taken_stop) valid.inv,fun q b atQ => onward_stop _ (valid.fact q b (stop_before atQ)),
    fun q x txn atQ => valid.safe q x txn (stop_before atQ)⟩

theorem onward_dated : s.Onward C {s with db := s.db.dated now} := fun _ known => C.fact_idle (idles_dated _) known

theorem disciplined_dated (valid : s.Disciplined C) :
    ({s with db := s.db.dated now} : System Row Key Err P).Disciplined C :=
  ⟨C.inv_idle (idles_dated _) valid.inv,fun q b atQ => onward_dated _ (valid.fact q b atQ),
    fun q x txn atQ => safe_later (valid.safe q x txn atQ) (C.change_idle (idles_dated _))⟩

theorem sees_own (valid : s.Disciplined C) (found : s.threads p = some (.busy x txn)) :
    C.Sees x s.taken txn.held txn.writes s.db s.db :=
  ⟨C.change_idle (.refl _),fun _ member => ⟨p,_,found,member⟩,txn.locked,valid.inv,valid.fact p _ found⟩

theorem taken_exec {x : P} {txn : Txn Row Key Err P} {found : s.threads p = some (.busy x txn)}
    {effect : Effect Row Key} {prog : Tx Row Key Err P} {free : s.Free p effect.locks}
    (taken : (s.exec p x txn found effect prog free).taken k) : s.taken k ∨ k ∈ effect.locks := by
  obtain ⟨q,b,atQ,member⟩ := taken
  simp only [System.exec] at atQ
  by_cases same : q = p
  · subst q
    rw [Function.update_self] at atQ
    cases atQ
    rcases List.mem_append.mp member with before | new
    · exact .inl ⟨p,_,found,before⟩
    · exact .inr new
  · rw [Function.update_of_ne same] at atQ; exact .inl ⟨q,b,atQ,member⟩

section Exec
variable {x : P} {txn : Txn Row Key Err P} {effects : Db Row → Effect Row Key} {next : Db Row → Tx Row Key Err P} (valid : s.Disciplined C)
  (found : s.threads p = some (.busy x txn)) (at_stmt : txn.prog = .stmt effects next)
  (free : s.Free p (effects (s.db.apply txn.writes)).locks)
include valid found at_stmt

theorem onward_exec :
    s.Onward C (s.exec p x txn found (effects (s.db.apply txn.writes)) (next (s.db.apply txn.writes)) free) := by
  have safe := valid.safe p x txn found
  rw [at_stmt] at safe
  obtain ⟨takes,_⟩ := safe s.taken s.db (sees_own valid found)
  intro z known
  exact C.fact_idle (idles_reserve _ _) (C.fact_fewer (fun _ => taken_exec)
    (C.fact_take takes valid.inv known))

theorem disciplined_exec :
    (s.exec p x txn found (effects (s.db.apply txn.writes)) (next (s.db.apply txn.writes)) free).Disciplined C := by
  have safe := valid.safe p x txn found
  rw [at_stmt] at safe
  obtain ⟨takes,rest⟩ := safe s.taken s.db (sees_own valid found)
  have onward := onward_exec valid found at_stmt free
  refine ⟨C.inv_fewer (fun _ => taken_exec) (C.inv_take takes valid.inv),?_,?_⟩
  · intro q b atQ
    refine onward _ ?_
    simp only [System.exec] at atQ
    by_cases same : q = p
    · subst q
      rw [Function.update_self] at atQ
      cases atQ
      have own := valid.fact p (.busy x txn) found
      exact own
    · rw [Function.update_of_ne same] at atQ; exact valid.fact q b atQ
  · intro q z other atQ
    simp only [System.exec] at atQ
    by_cases same : q = p
    · subst q; rw [Function.update_self] at atQ; cases atQ; exact rest
    · rw [Function.update_of_ne same] at atQ
      exact safe_later (valid.safe q z other atQ) (C.change_idle (idles_reserve _ _))

end Exec

section Commit
variable {x y : P} {txn : Txn Row Key Err P} (valid : s.Disciplined C) (found : s.threads p = some (.busy x txn)) (at_ret : txn.prog = .ret y)
include valid found at_ret

theorem commit_parts :
    C.inv s.taken (s.db.apply txn.writes) ∧ C.change (· ∈ txn.held) s.db (s.db.apply txn.writes) ∧
      C.fact y s.taken (s.db.apply txn.writes) ∧ C.ends x y s.db (s.db.apply txn.writes) := by
  have safe := valid.safe p x txn found
  rw [at_ret] at safe
  exact safe s.taken s.db (sees_own valid found)

theorem onward_commit :
    s.Onward C (s.put p (.idle y) _ found (by intro k member; cases member) (s.db.apply txn.writes)) := by
  obtain ⟨_,changed,_⟩ := commit_parts valid found at_ret
  intro z known
  refine C.fact_fewer (fun _ => taken_put) ?_
  exact C.fact_change (fun k member => ⟨p,_,found,member⟩) valid.inv changed known

theorem disciplined_commit :
    (s.put p (.idle y) _ found (by intro k member; cases member) (s.db.apply txn.writes)).Disciplined C := by
  obtain ⟨kept,changed,own,_⟩ := commit_parts valid found at_ret
  have onward := onward_commit valid found at_ret
  refine ⟨C.inv_fewer (fun _ => taken_put) kept,?_,?_⟩
  · intro q b atQ
    simp only [System.put] at atQ
    by_cases same : q = p
    · subst q; rw [Function.update_self] at atQ; cases atQ; exact C.fact_fewer (fun _ => taken_put) own
    · rw [Function.update_of_ne same] at atQ; exact onward _ (valid.fact q b atQ)
  · intro q z other atQ
    simp only [System.put] at atQ
    by_cases same : q = p
    · subst q; rw [Function.update_self] at atQ; cases atQ
    · rw [Function.update_of_ne same] at atQ
      refine safe_later (valid.safe q z other atQ) (C.change_more ?_ changed)
      exact s.exclusive p q _ _ (Ne.symm same) found atQ

end Commit
end Moves
end Relational
