import Mathlib.Data.List.Induction
import MesyafMarket.Relational.Ends
import MesyafMarket.Relational.Sessions

namespace Relational
variable {Tab : Type} {Row : Tab → Type} {Key Err Task Note In P : Type}

-- Uncommitted versions of rows.
abbrev Versions (Row : Tab → Type) := (t : Tab) → Nat → Option (Option (Row t))

-- What a transaction that holds `w` sees of the rows, and leaves behind.
def shown (w : Versions Row) (rows : Rows Row) : Rows Row := fun t i => (w t i).getD (rows t i)

def overlaid (earlier later : Versions Row) : Versions Row := fun t i => (later t i).or (earlier t i)

theorem shown_overlaid (w later : Versions Row) (rows : Rows Row) :
    shown (overlaid w later) rows = shown later (shown w rows) := by
  funext t i
  cases found : later t i <;> simp [shown,overlaid,found]

-- Where a process is: outside its transactions, or inside one with the statements
-- still to run, what it has written and the locks it holds.
inductive Stage (Row : Tab → Type) (Key Err P : Type) where
  | idle (x : P)
  | busy (x : P) (prog : Tx Row Key Err P) (w : Versions Row) (h : List (Lock Tab Key))

def Stage.held : Stage Row Key Err P → List (Lock Tab Key)
  | .idle _ => []
  | .busy _ _ _ h => h

def Thread.stage : Thread Row Key Err P → Stage Row Key Err P
  | .idle x => .idle x
  | .busy x txn => .busy x txn.prog txn.writes.rows txn.held

theorem stage_held (a : Thread Row Key Err P) : a.stage.held = a.held := by cases a <;> rfl

-- What processes do in a run: the points at which they go on, and what the database
-- is like when a transaction opened at some point runs a statement with some effect.
structure Conduct (Row : Tab → Type) (Key P : Type) where
  goes : P → Prop
  sees : P → Effect Row Key → Db Row → Prop

-- A process that nobody disturbs: the stages it can be at, up to the end of its next
-- transaction, when it has begun at `x` and all it has read was `rows` under its own
-- versions.
inductive Alone (G : Program Row Key Err Task Note In P) (may : Conduct Row Key P) (rows : Rows Row) (x : P) :
    Stage Row Key Err P → Prop where
  | start : Alone G may rows x (.idle x)
  | query {read : Db Row → P} {v : Db Row} (before : Alone G may rows x (.idle y)) (goes : may.goes y) (at_query : G.next y = .query read)
      (shows : v.rows = rows) : Alone G may rows x (.idle (read v))
  | input {read : In → P} (before : Alone G may rows x (.idle y)) (goes : may.goes y) (at_input : G.next y = .input read) :
      Alone G may rows x (.idle (read i))
  | add (before : Alone G may rows x (.idle y)) (goes : may.goes y) (at_add : G.next y = .add task z) :
      Alone G may rows x (.idle z)
  | emit (before : Alone G may rows x (.idle y)) (goes : may.goes y) (at_emit : G.next y = .emit note z) :
      Alone G may rows x (.idle z)
  | opens (before : Alone G may rows x (.idle y)) (goes : may.goes y) (at_tx : G.next y = .tx body) :
      Alone G may rows x (.busy y body (fun _ _ => none) [])
  | stmt {v : Db Row} (before : Alone G may rows x (.busy y (.stmt effect next) w h)) (shows : v.rows = shown w rows)
      (seen : may.sees y (effect v) v) : Alone G may rows x (.busy y (next v) (overlaid w (effect v).writes.rows) (h ++ (effect v).locks))
  | throws (before : Alone G may rows x (.busy y (.throw e) w h)) : Alone G may rows x (.idle (G.caught y e))

-- Transactions one after another, each given by where its process began and where
-- it went on.
inductive Serial (G : Program Row Key Err Task Note In P) (may : Conduct Row Key P) (start : Rows Row) :
    List (P × P) → Rows Row → Prop where
  | nil : Serial G may start [] start
  | snoc (before : Serial G may start done rows) (alone : Alone G may rows x (.busy y (.ret z) w h)) :
      Serial G may start (done ++ [(x,z)]) (shown w rows)

-- The rest of a transaction ends as the whole does.
theorem alone_busy {G : Program Row Key Err Task Note In P} {may : Conduct Row Key P} {x y : P}
    (alone : Alone G may rows x (.busy y prog w h)) : ∃ body, Alone G may rows x (.idle y) ∧ may.goes y ∧
      G.next y = .tx body ∧ ∀ z rows', prog.Ends (may.sees y) (shown w rows) z rows' → body.Ends (may.sees y) rows z rows' := by
  generalize at_stage : Stage.busy y prog w h = st at alone
  induction alone generalizing prog w h with
  | opens before goes at_tx =>
    cases at_stage
    exact ⟨_,before,goes,at_tx,fun _ _ ended => ended⟩
  | stmt before shows seen ih =>
    cases at_stage
    obtain ⟨body,idle,goes,at_tx,rest⟩ := ih rfl
    refine ⟨body,idle,goes,at_tx,?_⟩
    intro z rows' ended
    refine rest z rows' (.stmt shows seen ?_)
    rw [shown_overlaid,← shows] at ended
    exact ended
  | _ => cases at_stage

theorem alone_commit {G : Program Row Key Err Task Note In P} {may : Conduct Row Key P} {x y : P}
    (alone : Alone G may rows x (.busy y (.ret z) w h)) : ∃ body, Alone G may rows x (.idle y) ∧ may.goes y ∧
      G.next y = .tx body ∧ body.Ends (may.sees y) rows z (shown w rows) := by
  obtain ⟨body,idle,goes,at_tx,rest⟩ := alone_busy alone
  exact ⟨body,idle,goes,at_tx,rest _ _ .ret⟩

-- What another's commit leaves open can be read again: the process would have come
-- to the same stage. `begins p x` says where process `p` may begin, `follows p x` where
-- it may go on after a commit, `inv` what is known of the committed rows.
structure Program.Restarts (G : Program Row Key Err Task Note In P) (may : Conduct Row Key P) (begins follows : Nat → P → Prop)
    (inv : Rows Row → Prop) : Prop where
  restart : ∀ db db' : Db Row, db'.rows = shown w db.rows → inv db.rows → (begins p x ∨ follows p x) → (begins q x' ∨ follows q x') →
    Alone G may db.rows x st → Alone G may db.rows x' (.busy y (.ret z) w h) → (∀ k ∈ st.held, k ∉ h) →
    Alone G may db'.rows x st
  commit : ∀ db db' : Db Row, db'.rows = shown w db.rows → inv db.rows → (begins p x ∨ follows p x) →
    Alone G may db.rows x (.busy y (.ret z) w h) → inv db'.rows ∧ follows p z

namespace Sessions

-- The process whose transaction a move commits, and the one that takes the lock `k`.
def commits (s : Sessions Row Key Err Task P) : Act In P → Option Nat
  | .step p _ => match s.sys.threads p with
    | some (.busy _ txn) => match txn.prog with
      | .ret _ => some p
      | _ => none
    | _ => none
  | _ => none

section Logs
variable [DecidableEq Tab] [DecidableEq Key] (G : Program Row Key Err Task Note In P)

def takes (k : Lock Tab Key) (s : Sessions Row Key Err Task P) : Act In P → Option Nat
  | .step p i => if k ∈ (s.step G p i).sys.heldBy p ∧ k ∉ s.sys.heldBy p then some p else none
  | _ => none

def committed (s : Sessions Row Key Err Task P) (moves : List (Act In P)) : List Nat :=
  (s.trace G moves).filterMap fun made => made.1.commits made.2

def acquired (k : Lock Tab Key) (s : Sessions Row Key Err Task P) (moves : List (Act In P)) : List Nat :=
  (s.trace G moves).filterMap fun made => made.1.takes G k made.2

end Logs

-- Processes begin where `begins` says and run as `may` says. After a failure
-- they may do either.
def Admits (G : Program Row Key Err Task Note In P) (may : Conduct Row Key P) (begins follows : Nat → P → Prop)
    (s : Sessions Row Key Err Task P) : Act In P → Prop
  | .spawn x => begins s.sys.spawned x
  | .work n => ∀ task, s.queue[n]? = some task → begins s.sys.spawned (G.worker task)
  | .step p _ => (∀ a, s.sys.threads p = some a → may.goes a.state) ∧
      ∀ x txn effect next, s.sys.threads p = some (.busy x txn) → txn.prog = .stmt effect next →
        may.sees x (effect (s.sys.db.apply txn.writes)) (s.sys.db.apply txn.writes)
  | .fail p => ∀ a, s.sys.threads p = some a → begins p (G.caught a.state G.infrastructure) ∧
      follows p (G.caught a.state G.infrastructure)
  | _ => True

variable {G : Program Row Key Err Task Note In P} {may : Conduct Row Key P} {begins follows : Nat → P → Prop}
  {inv : Rows Row → Prop} {start : Rows Row} {done : List (Nat × P × P)} {s : Sessions Row Key Err Task P}

-- Where the work began that a process is at: at its start, or at its last commit.
def Origin (begins follows : Nat → P → Prop) (done : List (Nat × P × P)) (p : Nat) (x : P) : Prop :=
  (p ∉ done.map Prod.fst → begins p x) ∧ (p ∈ done.map Prod.fst → follows p x)

-- The transactions committed so far, run one after another, and every process as
-- if it had been alone on the rows there are now.
structure Serially (G : Program Row Key Err Task Note In P) (may : Conduct Row Key P) (begins follows : Nat → P → Prop)
    (inv : Rows Row → Prop) (start : Rows Row) (done : List (Nat × P × P)) (s : Sessions Row Key Err Task P) : Prop where
  serial : Serial G may start (done.map Prod.snd) s.sys.db.rows
  inv : inv s.sys.db.rows
  worked : ∀ u ∈ done, (begins u.1 u.2.1 ∨ follows u.1 u.2.1) ∧ u.1 < s.sys.spawned
  alone : ∀ p a, s.sys.threads p = some a →
    ∃ x, Origin begins follows done p x ∧ Alone G may s.sys.db.rows x a.stage

theorem origin_works (origin : Origin begins follows done p x) : begins p x ∨ follows p x := by
  by_cases before : p ∈ done.map Prod.fst
  · exact .inr (origin.2 before)
  · exact .inl (origin.1 before)

theorem serially_spawn (valid : s.Serially G may begins follows inv start done) (fresh : begins s.sys.spawned x) :
    ({s with sys := s.sys.spawn x} : Sessions Row Key Err Task P).Serially G may begins follows inv start done := by
  refine ⟨valid.serial,valid.inv,?_,?_⟩
  · intro u member
    obtain ⟨working,before⟩ := valid.worked u member
    exact ⟨working,Nat.lt_succ_of_lt before⟩
  · intro q a atQ
    simp only [System.spawn] at atQ
    by_cases same : q = s.sys.spawned
    · subst q
      rw [Function.update_self] at atQ
      cases atQ
      refine ⟨x,⟨fun _ => fresh,?_⟩,.start⟩
      intro earlier
      obtain ⟨u,member,last⟩ := List.mem_map.mp earlier
      have before := (valid.worked u member).2
      omega
    · rw [Function.update_of_ne same] at atQ
      exact valid.alone q a atQ

-- A process goes on by itself, and the rows stay.
theorem serially_put (valid : s.Serially G may begins follows inv start done) (found : s.sys.threads p = some old)
    (fewer : ∀ k ∈ a.held, k ∈ old.held)
    (own : ∃ x, Origin begins follows done p x ∧ Alone G may s.sys.db.rows x a.stage) :
    ({s with sys := s.sys.put p a old found fewer s.sys.db} : Sessions Row Key Err Task P).Serially G may begins follows
      inv start done := by
  refine ⟨valid.serial,valid.inv,valid.worked,?_⟩
  intro q b atQ
  simp only [System.put] at atQ
  by_cases same : q = p
  · subst q
    rw [Function.update_self] at atQ
    cases atQ
    exact own
  · rw [Function.update_of_ne same] at atQ
    exact valid.alone q b atQ

theorem serially_queue (valid : s.Serially G may begins follows inv start done) (tasks : List Task) :
    ({s with queue := tasks} : Sessions Row Key Err Task P).Serially G may begins follows inv start done :=
  ⟨valid.serial,valid.inv,valid.worked,valid.alone⟩

theorem serially_commit {x : P} {txn : Txn Row Key Err P} (sound : G.Restarts may begins follows inv)
    (valid : s.Serially G may begins follows inv start done) (found : s.sys.threads p = some (.busy x txn))
    (at_ret : txn.prog = .ret z) : ∃ y,
    ({s with sys := s.sys.put p (.idle z) _ found (by intro k member; cases member) (s.sys.db.apply txn.writes)} :
      Sessions Row Key Err Task P).Serially G may begins follows inv start (done ++ [(p,y,z)]) := by
  obtain ⟨y,origin,alone⟩ := valid.alone p _ found
  simp only [Thread.stage,at_ret] at alone
  obtain ⟨kept,onward⟩ := sound.commit _ (s.sys.db.apply txn.writes) rfl valid.inv (origin_works origin) alone
  refine ⟨y,?_,kept,?_,?_⟩
  · rw [List.map_append]
    exact .snoc valid.serial alone
  · intro u member
    rcases List.mem_append.mp member with before | last
    · exact valid.worked u before
    · rw [List.mem_singleton.mp last]
      exact ⟨origin_works origin,s.sys.below found⟩
  · intro q b atQ
    simp only [System.put] at atQ
    by_cases same : q = p
    · subst q
      rw [Function.update_self] at atQ
      cases atQ
      refine ⟨z,⟨?_,fun _ => onward⟩,.start⟩
      intro never
      exact absurd (List.mem_map.mpr ⟨(p,y,z),by simp,rfl⟩) never
    · rw [Function.update_of_ne same] at atQ
      obtain ⟨x',began,before⟩ := valid.alone q b atQ
      have kept : q ∈ (done ++ [(p,y,z)]).map Prod.fst ↔ q ∈ done.map Prod.fst := by simp [same]
      refine ⟨x',?_,?_⟩
      · unfold Origin
        rw [kept]
        exact began
      · refine sound.restart _ (s.sys.db.apply txn.writes) rfl valid.inv (origin_works began) (origin_works origin) before
          alone ?_
        intro k member held
        rw [stage_held] at member
        exact s.sys.exclusive q p b _ same atQ found k member held

theorem serially_exec {x : P} {txn : Txn Row Key Err P} (valid : s.Serially G may begins follows inv start done)
    (found : s.sys.threads p = some (.busy x txn)) (at_stmt : txn.prog = .stmt effect next)
    (free : s.sys.Free p (effect (s.sys.db.apply txn.writes)).locks)
    (seen : may.sees x (effect (s.sys.db.apply txn.writes)) (s.sys.db.apply txn.writes)) :
    ({s with sys := s.sys.exec p x txn found (effect (s.sys.db.apply txn.writes)) (next (s.sys.db.apply txn.writes)) free} :
      Sessions Row Key Err Task P).Serially G may begins follows inv start done := by
  refine ⟨valid.serial,valid.inv,valid.worked,?_⟩
  intro q b atQ
  simp only [System.exec] at atQ
  by_cases same : q = p
  · subst q
    rw [Function.update_self] at atQ
    cases atQ
    obtain ⟨y,origin,alone⟩ := valid.alone p _ found
    simp only [Thread.stage,at_stmt] at alone
    exact ⟨y,origin,.stmt alone rfl seen⟩
  · rw [Function.update_of_ne same] at atQ
    exact valid.alone q b atQ

section Runs
variable [DecidableEq Tab] [DecidableEq Key]

theorem serially_goto (valid : s.Serially G may begins follows inv start done) (found : s.sys.threads p = some old)
    (own : ∃ x, Origin begins follows done p x ∧ Alone G may s.sys.db.rows x (.idle y)) :
    (s.goto p y old found).Serially G may begins follows inv start done :=
  serially_put valid found _ own

theorem commits_ret {x : P} {txn : Txn Row Key Err P} {i : In} (found : s.sys.threads p = some (.busy x txn))
    (at_ret : txn.prog = .ret z) : s.commits (.step p i) = some p := by
  simp only [commits,found,at_ret]

theorem commits_none {i : In} (unended : ∀ x txn y, s.sys.threads p = some (.busy x txn) → txn.prog ≠ .ret y) :
    s.commits (.step p i) = none := by
  unfold commits
  dsimp only
  split
  · rename_i x txn found
    split
    · rename_i y at_ret
      exact absurd at_ret (unended x txn y found)
    · rfl
  · rfl

theorem serially_step (sound : G.Restarts may begins follows inv) (valid : s.Serially G may begins follows inv start done)
    (allowed : s.Admits G may begins follows (.step p i)) : ∃ units,
      (s.step G p i).Serially G may begins follows inv start (done ++ units) ∧
        units.map Prod.fst = (s.commits (.step p i)).toList := by
  have parts := step_parts G s p i
  generalize s.step G p i = next at parts
  have idle : ∀ y, s.sys.threads p = some (.idle y) → s.commits (.step p i) = none := by
    intro y found
    simp only [commits,found]
  have stay : next.Serially G may begins follows inv start done → s.commits (.step p i) = none → ∃ units,
      next.Serially G may begins follows inv start (done ++ units) ∧
        units.map Prod.fst = (s.commits (.step p i)).toList := by
    intro after none
    refine ⟨[],?_,by rw [none]; rfl⟩
    rwa [List.append_nil]
  cases parts with
  | waits unended => exact stay valid (commits_none unended)
  | query found at_query =>
    obtain ⟨x,origin,alone⟩ := valid.alone p _ found
    exact stay (serially_goto valid found ⟨x,origin,.query alone (allowed.1 _ found) at_query rfl⟩) (idle _ found)
  | opens found at_tx =>
    obtain ⟨x,origin,alone⟩ := valid.alone p _ found
    exact stay (serially_put valid found _ ⟨x,origin,.opens alone (allowed.1 _ found) at_tx⟩) (idle _ found)
  | input found at_input =>
    obtain ⟨x,origin,alone⟩ := valid.alone p _ found
    exact stay (serially_goto valid found ⟨x,origin,.input alone (allowed.1 _ found) at_input⟩) (idle _ found)
  | add found at_add =>
    obtain ⟨x,origin,alone⟩ := valid.alone p _ found
    exact stay (serially_queue (serially_goto valid found ⟨x,origin,.add alone (allowed.1 _ found) at_add⟩) _) (idle _ found)
  | emit found at_emit =>
    obtain ⟨x,origin,alone⟩ := valid.alone p _ found
    exact stay (serially_goto valid found ⟨x,origin,.emit alone (allowed.1 _ found) at_emit⟩) (idle _ found)
  | advanced inside =>
    cases inside with
    | exec found at_stmt free =>
      refine stay (serially_exec valid found at_stmt free (allowed.2 _ _ _ _ found at_stmt)) (commits_none ?_)
      intro x txn y busy at_ret
      cases found.symm.trans busy
      rw [at_stmt] at at_ret; cases at_ret
    | commit found at_ret =>
      obtain ⟨y,after⟩ := serially_commit sound valid found at_ret
      exact ⟨_,after,by rw [commits_ret found at_ret]; rfl⟩
    | rollback found at_throw =>
      obtain ⟨x,origin,alone⟩ := valid.alone p _ found
      simp only [Thread.stage,at_throw] at alone
      refine stay (serially_goto valid found ⟨x,origin,.throws alone⟩) (commits_none ?_)
      intro x txn y busy at_ret
      cases found.symm.trans busy
      rw [at_throw] at at_ret; cases at_ret

theorem serially_move (sound : G.Restarts may begins follows inv)
    (valid : s.Serially G may begins follows inv start done) (allowed : s.Admits G may begins follows m) : ∃ units,
      (s.move G m).Serially G may begins follows inv start (done ++ units) ∧
        units.map Prod.fst = (s.commits m).toList := by
  have stay : ∀ next : Sessions Row Key Err Task P, next.Serially G may begins follows inv start done → s.commits m = none → ∃ units,
      next.Serially G may begins follows inv start (done ++ units) ∧ units.map Prod.fst = (s.commits m).toList := by
    intro next after none
    refine ⟨[],?_,by rw [none]; rfl⟩
    rwa [List.append_nil]
  cases m with
  | spawn x => exact stay _ (serially_spawn valid allowed) rfl
  | work n =>
    refine stay _ ?_ rfl
    unfold Sessions.move
    dsimp only
    split
    · rename_i task found
      exact serially_queue (serially_spawn valid (allowed task found)) _
    · exact valid
  | lose n => exact stay _ (serially_queue valid _) rfl
  | duplicate n =>
    refine stay _ ?_ rfl
    unfold Sessions.move
    dsimp only
    split
    · exact serially_queue valid _
    · exact valid
  | step p i => exact serially_step sound valid allowed
  | fail p =>
    refine stay _ ?_ rfl
    unfold Sessions.move
    dsimp only
    split
    · rename_i a found
      obtain ⟨again,onward⟩ := allowed a found
      exact serially_goto valid found ⟨_,⟨fun _ => again,fun _ => onward⟩,.start⟩
    · exact valid
  | stop p =>
    exact stay _ ⟨valid.serial,valid.inv,valid.worked,fun q a atQ => valid.alone q a (stop_before atQ)⟩ rfl
  | clock now => exact stay _ ⟨valid.serial,valid.inv,valid.worked,valid.alone⟩ rfl

-- Every run of transactions that can restart is as if they had run one after
-- another, in the order of their commits.
theorem serially_run (sound : G.Restarts may begins follows inv) {db : Db Row}
    (initial : inv db.rows) (moves : List (Act In P))
    (allowed : ∀ made ∈ (Sessions.open db).trace G moves, made.1.Admits G may begins follows made.2) : ∃ done,
      ((Sessions.open db).run G moves).Serially G may begins follows inv db.rows done ∧
        done.map Prod.fst = (Sessions.open db).committed G moves := by
  induction moves using List.reverseRecOn with
  | nil => exact ⟨[],⟨.nil,initial,nofun,nofun⟩,rfl⟩
  | append_singleton moves m ih =>
    rw [sessions_trace_snoc] at allowed
    obtain ⟨done,valid,log⟩ := ih fun made member => allowed made (List.mem_append_left _ member)
    obtain ⟨units,after,last⟩ := serially_move sound valid
      (allowed _ (List.mem_append_right _ (List.mem_singleton.mpr rfl)))
    refine ⟨done ++ units,by rw [sessions_run_snoc]; exact after,?_⟩
    rw [List.map_append,log,last]
    simp only [committed,sessions_trace_snoc,List.filterMap_append]
    cases found : ((Sessions.open db).run G moves).commits m <;> simp [found]

theorem mem_heldBy {sys : System Row Key Err P} : k ∈ sys.heldBy q ↔ ∃ a, sys.threads q = some a ∧ k ∈ a.held := by
  unfold System.heldBy
  cases sys.threads q <;> simp

theorem held_put {sys : System Row Key Err P} (found : sys.threads p = some old) (fewer : ∀ l ∈ a.held, l ∈ old.held)
    (held : k ∈ (sys.put p a old found fewer db).heldBy q) : k ∈ sys.heldBy q := by
  obtain ⟨b,atQ,member⟩ := mem_heldBy.mp held
  simp only [System.put] at atQ
  by_cases same : q = p
  · subst q
    rw [Function.update_self] at atQ
    cases atQ
    exact mem_heldBy.mpr ⟨old,found,fewer k member⟩
  · rw [Function.update_of_ne same] at atQ
    exact mem_heldBy.mpr ⟨b,atQ,member⟩

theorem held_spawn {sys : System Row Key Err P} (held : k ∈ (sys.spawn x).heldBy q) : k ∈ sys.heldBy q := by
  obtain ⟨b,atQ,member⟩ := mem_heldBy.mp held
  simp only [System.spawn] at atQ
  by_cases same : q = sys.spawned
  · subst q; rw [Function.update_self] at atQ; cases atQ; cases member
  · rw [Function.update_of_ne same] at atQ; exact mem_heldBy.mpr ⟨b,atQ,member⟩

-- Nobody but the process of the step takes a lock.
theorem held_step (other : q ≠ p) (held : k ∈ (s.step G p i).sys.heldBy q) : k ∈ s.sys.heldBy q := by
  have parts := step_parts G s p i
  generalize s.step G p i = next at parts held
  cases parts with
  | waits => exact held
  | query found | opens found | input found | add found | emit found =>
    exact held_put found (by intro l member; cases member) held
  | advanced inside =>
    cases inside with
    | exec found at_stmt free =>
      obtain ⟨b,atQ,member⟩ := mem_heldBy.mp held
      simp only [System.exec] at atQ
      rw [Function.update_of_ne other] at atQ
      exact mem_heldBy.mpr ⟨b,atQ,member⟩
    | commit found | rollback found => exact held_put found (by intro l member; cases member) held

theorem held_move (held : k ∈ (s.move G m).sys.heldBy q) : k ∈ s.sys.heldBy q ∨ s.takes G k m = some q := by
  cases m with
  | step p i =>
    by_cases same : q = p
    · subst q
      by_cases before : k ∈ s.sys.heldBy p
      · exact .inl before
      · exact .inr (if_pos ⟨held,before⟩)
    · exact .inl (held_step same held)
  | spawn x => exact .inl (held_spawn held)
  | work n =>
    left
    unfold Sessions.move at held
    dsimp only at held
    split at held
    · exact held_spawn held
    · exact held
  | lose n => exact .inl held
  | duplicate n =>
    left
    unfold Sessions.move at held
    dsimp only at held
    split at held <;> exact held
  | fail p =>
    left
    unfold Sessions.move at held
    dsimp only at held
    split at held
    · rename_i found
      exact held_put found (by intro l member; cases member) held
    · exact held
  | stop p =>
    obtain ⟨b,atQ,member⟩ := mem_heldBy.mp held
    exact .inl (mem_heldBy.mpr ⟨b,stop_before atQ,member⟩)
  | clock now => exact .inl held

theorem held_once {sys : System Row Key Err P} (one : k ∈ sys.heldBy p) (two : k ∈ sys.heldBy q) : p = q := by
  by_contra apart
  obtain ⟨a,atP,first⟩ := mem_heldBy.mp one
  obtain ⟨b,atQ,second⟩ := mem_heldBy.mp two
  exact sys.exclusive p q a b apart atP atQ k first second

theorem takes_holds (taken : s.takes G k m = some p) : k ∈ (s.move G m).sys.heldBy p ∧ k ∉ s.sys.heldBy p := by
  unfold takes at taken
  split at taken
  · split at taken
    · rename_i both
      cases taken
      exact both
    · cases taken
  · cases taken

-- A move that commits releases all locks.
theorem commits_releases (hit : s.commits m = some p) : (∃ x txn z, s.sys.threads p = some (.busy x txn) ∧
    txn.prog = .ret z) ∧ ∀ k, k ∉ (s.move G m).sys.heldBy p ∧ s.takes G k m = none := by
  unfold commits at hit
  split at hit
  · rename_i p' i
    split at hit
    · rename_i x txn found
      split at hit
      · rename_i z at_ret
        cases hit
        have after : (s.step G p i).sys.threads p = some (.idle z) := by
          unfold Sessions.step
          split
          · rename_i y other
            cases found.symm.trans other
          · rw [advance_ret found at_ret]
            simp only [System.put,Function.update_self]
          · rename_i none
            cases found.symm.trans none
        have released : ∀ k, k ∉ (s.step G p i).sys.heldBy p := by
          intro k held
          obtain ⟨a,atP,member⟩ := mem_heldBy.mp held
          cases after.symm.trans atP
          cases member
        exact ⟨⟨x,txn,z,found,at_ret⟩,fun k => ⟨released k,if_neg fun both => released k both.1⟩⟩
      · cases hit
    · cases hit
  · cases hit

-- Rows change at commits only.
theorem rows_still (unended : s.commits m = none) : (s.move G m).sys.db.rows = s.sys.db.rows := by
  cases m with
  | step p i =>
    have parts := step_parts G s p i
    show (s.step G p i).sys.db.rows = _
    generalize s.step G p i = next at parts
    cases parts with
    | advanced inside =>
      cases inside with
      | commit found at_ret =>
        rw [commits_ret found at_ret] at unended
        cases unended
      | _ => rfl
    | _ => rfl
  | work n => unfold Sessions.move; dsimp only; split <;> rfl
  | duplicate n => unfold Sessions.move; dsimp only; split <;> rfl
  | fail p => unfold Sessions.move; dsimp only; split <;> rfl
  | spawn | lose | stop | clock => rfl

-- Where every transaction holds `k` when it commits, the commits follow the order
-- in which the lock was acquired.
theorem acquired_order (sound : G.Restarts may begins follows inv) {db : Db Row}
    (initial : inv db.rows) {k : Lock Tab Key}
    (locks : ∀ (db : Db Row) p x y z w h, inv db.rows → begins p x ∨ follows p x →
      Alone G may db.rows x (.busy y (.ret z) w h) → k ∈ h)
    (moves : List (Act In P)) (allowed : ∀ made ∈ (Sessions.open db).trace G moves, made.1.Admits G may begins follows made.2) :
    ((Sessions.open db).committed G moves).Sublist ((Sessions.open db).acquired G k moves) ∧
      ∀ p, k ∈ ((Sessions.open db).run G moves).sys.heldBy p → ∃ l,
        (Sessions.open db).acquired G k moves = l ++ [p] ∧ ((Sessions.open db).committed G moves).Sublist l := by
  induction moves using List.reverseRecOn with
  | nil =>
    refine ⟨List.Sublist.refl _,?_⟩
    intro p held
    obtain ⟨a,atP,_⟩ := mem_heldBy.mp held
    cases atP
  | append_singleton moves m ih =>
    rw [sessions_trace_snoc] at allowed
    have before : ∀ made ∈ (Sessions.open db).trace G moves, made.1.Admits G may begins follows made.2 :=
      fun made member => allowed made (List.mem_append_left _ member)
    obtain ⟨ordered,holder⟩ := ih before
    obtain ⟨done,valid,_⟩ := serially_run sound initial moves before
    rw [sessions_run_snoc]
    have logs : (Sessions.open db).committed G (moves ++ [m]) =
        (Sessions.open db).committed G moves ++ (((Sessions.open db).run G moves).commits m).toList := by
      simp only [committed,sessions_trace_snoc,List.filterMap_append]
      cases found : ((Sessions.open db).run G moves).commits m <;> simp [found]
    have locked : (Sessions.open db).acquired G k (moves ++ [m]) =
        (Sessions.open db).acquired G k moves ++ (((Sessions.open db).run G moves).takes G k m).toList := by
      simp only [acquired,sessions_trace_snoc,List.filterMap_append]
      cases found : ((Sessions.open db).run G moves).takes G k m <;> simp [found]
    rw [logs,locked]
    generalize (Sessions.open db).run G moves = s at valid holder ⊢
    cases hit : s.commits m with
    | some p =>
      obtain ⟨⟨x,txn,z,found,at_ret⟩,releases⟩ := commits_releases (G := G) hit
      obtain ⟨released,untaken⟩ := releases k
      obtain ⟨y,began,alone⟩ := valid.alone p _ found
      simp only [Thread.stage,at_ret] at alone
      have own : k ∈ s.sys.heldBy p := mem_heldBy.mpr ⟨_,found,locks _ _ _ _ _ _ _ valid.inv (origin_works began) alone⟩
      obtain ⟨l,last,earlier⟩ := holder p own
      rw [untaken,last]
      simp only [Option.toList_some,Option.toList_none,List.append_nil]
      refine ⟨earlier.append_right [p],?_⟩
      intro q held
      exfalso
      rcases held_move held with old | new
      · rw [← held_once own old] at held
        exact released held
      · rw [untaken] at new; cases new
    | none =>
      simp only [Option.toList_none,List.append_nil]
      cases taken : s.takes G k m with
      | some p =>
        simp only [Option.toList_some]
        refine ⟨ordered.trans (List.sublist_append_left _ _),?_⟩
        intro q held
        rw [held_once held (takes_holds taken).1]
        exact ⟨_,rfl,ordered⟩
      | none =>
        simp only [Option.toList_none,List.append_nil]
        refine ⟨ordered,?_⟩
        intro q held
        rcases held_move held with old | new
        · exact holder q old
        · rw [taken] at new; cases new

end Runs
end Sessions
end Relational
