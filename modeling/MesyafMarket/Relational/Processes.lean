import MesyafMarket.Relational.Tx

namespace Relational
variable {Tab : Type} {Row : Tab → Type} {Key Err Task Note In P : Type}

-- What a process does next: a query outside a transaction, a transaction, a
-- query of another store, a task put on a queue, a notification, or nothing.
inductive Instr (Row : Tab → Type) (Key Err Task Note In P : Type) where
  | query (read : Db Row → P)
  | tx (body : Tx Row Key Err P)
  | input (read : In → P)
  | add (task : Task) (next : P)
  | emit (note : Note) (next : P)
  | done

-- The code of a service: `next` at each program point, `caught` where it goes on
-- when that instruction throws, `worker` the process that takes a queued task.
structure Program (Row : Tab → Type) (Key Err Task Note In P : Type) where
  next : P → Instr Row Key Err Task Note In P
  caught : P → Err → P
  worker : Task → P
  infrastructure : Err

-- Rows committed so far, processes at their program points, tasks in the queue.
structure World (Row : Tab → Type) (Task P : Type) where
  db : Db Row
  threads : Nat → Option P
  spawned : Nat
  queue : List Task

-- `spawn` is a request or a timer that starts a process. A queued task may be
-- taken, lost or doubled, an instruction may fail, and a process may stop, all
-- between any two steps.
inductive Move (In P : Type) where
  | spawn (x : P)
  | work (n : Nat)
  | lose (n : Nat)
  | duplicate (n : Nat)
  | step (p : Nat) (i : In)
  | fail (p : Nat)
  | stop (p : Nat)
  | tick (ms : Nat)

def World.start (w : World Row Task P) (x : P) : World Row Task P :=
  {w with threads := Function.update w.threads w.spawned (some x),spawned := w.spawned+1}

def World.goto (w : World Row Task P) (p : Nat) (x : P) : World Row Task P :=
  {w with threads := Function.update w.threads p (some x)}

section Execution
variable (G : Program Row Key Err Task Note In P)

-- Each transaction is one step: it commits, or it throws and changes nothing.
def World.instr (w : World Row Task P) (p : Nat) (x : P) (i : In) : World Row Task P :=
  match G.next x with
  | .query read => w.goto p (read w.db)
  | .tx body => match body.run w.db with
    | .ok (y,db) => {w.goto p y with db := db}
    | .error e => w.goto p (G.caught x e)
  | .input read => w.goto p (read i)
  | .add task next => {w.goto p next with queue := w.queue ++ [task]}
  | .emit _ next => w.goto p next
  | .done => w

def World.move (w : World Row Task P) : Move In P → World Row Task P
  | .spawn x => w.start x
  | .work n => match w.queue[n]? with
    | some task => {w.start (G.worker task) with queue := w.queue.eraseIdx n}
    | none => w
  | .lose n => {w with queue := w.queue.eraseIdx n}
  | .duplicate n => match w.queue[n]? with
    | some task => {w with queue := w.queue ++ [task]}
    | none => w
  | .step p i => match w.threads p with
    | some x => w.instr G p x i
    | none => w
  | .fail p => match w.threads p with
    | some x => w.goto p (G.caught x G.infrastructure)
    | none => w
  | .stop p => {w with threads := Function.update w.threads p none}
  | .tick ms => {w with db := w.db.tick ms}

def World.run (w : World Row Task P) (moves : List (Move In P)) : World Row Task P :=
  moves.foldl (World.move G) w

-- Every world that a run reaches when each of its moves is allowed where it is made.
inductive Reached (may : World Row Task P → Move In P → Prop) (start : World Row Task P) :
    World Row Task P → Prop where
  | refl : Reached may start start
  | step (path : Reached may start w) (allowed : may w m) : Reached may start (w.move G m)

-- The same when services that the program leaves out commit in between.
inductive ReachedBeside (may : World Row Task P → Move In P → Prop) (outside : Db Row → Db Row → Prop)
    (start : World Row Task P) : World Row Task P → Prop where
  | refl : ReachedBeside may outside start start
  | step (path : ReachedBeside may outside start w) (allowed : may w m) : ReachedBeside may outside start (w.move G m)
  | outside (path : ReachedBeside may outside start w) (commit : outside w.db db) :
      ReachedBeside may outside start {w with db := db}

end Execution

variable {G : Program Row Key Err Task Note In P}

theorem reached_mono {may wider : World Row Task P → Move In P → Prop} {start : World Row Task P}
    (weaker : ∀ w m, may w m → wider w m) (path : Reached G may start w) : Reached G wider start w := by
  induction path with
  | refl => exact .refl
  | step _ allowed ih => exact .step ih (weaker _ _ allowed)

-- What holds of every world reached may be assumed of each move made there.
theorem reached_knowing {may : World Row Task P → Move In P → Prop} {start : World Row Task P}
    {known : World Row Task P → Prop} (always : ∀ w, Reached G may start w → known w)
    (path : Reached G may start w) : Reached G (fun w m => may w m ∧ known w) start w := by
  induction path with
  | refl => exact .refl
  | step path allowed ih => exact .step ih ⟨allowed,always _ path⟩

-- The worlds along a computed run, each with the move made there.
def World.trace (G : Program Row Key Err Task Note In P) (w : World Row Task P) :
    List (Move In P) → List (World Row Task P × Move In P)
  | [] => []
  | m::rest => (w,m)::(w.move G m).trace G rest

theorem reached_run {may : World Row Task P → Move In P → Prop} {start w : World Row Task P}
    (path : Reached G may start w) (moves : List (Move In P))
    (allowed : ∀ made ∈ w.trace G moves, may made.1 made.2) : Reached G may start (w.run G moves) := by
  induction moves generalizing w with
  | nil => exact path
  | cons m rest ih =>
    have first := Reached.step path (allowed _ List.mem_cons_self)
    exact ih first fun made member => allowed made (List.mem_cons_of_mem _ member)

theorem reached_moves {may : World Row Task P → Move In P → Prop} {start w : World Row Task P}
    (path : Reached G may start w) (moves : List (Move In P)) (allowed : ∀ m ∈ moves, ∀ w, may w m) :
    Reached G may start (w.run G moves) := by
  induction moves generalizing w with
  | nil => exact path
  | cons m rest ih =>
    have first := Reached.step path (allowed m List.mem_cons_self w)
    exact ih first fun later member => allowed later (List.mem_cons_of_mem _ member)

theorem run_snoc (w : World Row Task P) (moves : List (Move In P)) (m : Move In P) :
    w.run G (moves ++ [m]) = (w.run G moves).move G m := by
  simp only [World.run,List.foldl_append,List.foldl_cons,List.foldl_nil]

theorem trace_snoc (w : World Row Task P) (moves : List (Move In P)) (m : Move In P) :
    w.trace G (moves ++ [m]) = w.trace G moves ++ [(w.run G moves,m)] := by
  induction moves generalizing w with
  | nil => rfl
  | cons first rest ih =>
    simp only [List.cons_append,World.trace]
    rw [ih]; rfl

-- A check of each move of a run checks the moves before the last one, and the last one.
theorem checked_snoc {w : World Row Task P} {moves : List (Move In P)} {m : Move In P} {check : World Row Task P × Move In P → Bool}
    (checked : (w.trace G (moves ++ [m])).all check = true) :
    (w.trace G moves).all check = true ∧ check (w.run G moves,m) = true := by
  rw [trace_snoc,List.all_append,Bool.and_eq_true] at checked
  exact ⟨checked.1,(Bool.and_eq_true_iff.mp checked.2).1⟩

theorem beside_moves {may : World Row Task P → Move In P → Prop} {outside : Db Row → Db Row → Prop}
    {start w : World Row Task P} (path : ReachedBeside G may outside start w) (moves : List (Move In P))
    (allowed : ∀ m ∈ moves, ∀ w, may w m) : ReachedBeside G may outside start (w.run G moves) := by
  induction moves generalizing w with
  | nil => exact path
  | cons m rest ih =>
    have first := ReachedBeside.step path (allowed m List.mem_cons_self w)
    exact ih first fun later member => allowed later (List.mem_cons_of_mem _ member)

-- What every commit and the clock keep to, every move keeps to.
theorem move_rows (G : Program Row Key Err Task Note In P) {R : Db Row → Db Row → Prop} (refl : ∀ db, R db db)
    (tick : ∀ db ms, R db (db.tick ms))
    (commit : ∀ x body v r, G.next x = .tx body → body.run v = .ok r → R v r.2) (w : World Row Task P)
    (m : Move In P) : R w.db (w.move G m).db := by
  cases m with
  | step p i =>
    simp only [World.move]
    split
    · rename_i x _
      unfold World.instr
      split
      · exact refl w.db
      · rename_i body at_tx
        split
        · rename_i y db ran
          exact commit x body w.db (y,db) at_tx ran
        · exact refl w.db
      all_goals exact refl w.db
    · exact refl w.db
  | work n => simp only [World.move]; split <;> exact refl w.db
  | duplicate n => simp only [World.move]; split <;> exact refl w.db
  | fail p => simp only [World.move]; split <;> exact refl w.db
  | tick ms => exact tick w.db ms
  | spawn | lose | stop => exact refl w.db

-- How one step of a process at `x` can leave it at another point, from the rows `db` to `db'`.
inductive Flows (G : Program Row Key Err Task Note In P) (db db' : Db Row) (x : P) : P → Prop where
  | query {read : Db Row → P} (at_query : G.next x = .query read) (still : db' = db) : Flows G db db' x (read db)
  | commit (at_tx : G.next x = .tx body) (ran : body.run db = .ok (y,db')) : Flows G db db' x y
  | caught (still : db' = db) : Flows G db db' x (G.caught x e)
  | input {read : In → P} (at_input : G.next x = .input read) (still : db' = db) : Flows G db db' x (read i)
  | add (at_add : G.next x = .add task y) (still : db' = db) : Flows G db db' x y
  | emit (at_emit : G.next x = .emit note y) (still : db' = db) : Flows G db db' x y

theorem goto_parts {w : World Row Task P} (found : (w.goto p y).threads q = some z) :
    (q = p ∧ y = z) ∨ w.threads q = some z := by
  by_cases same : q = p
  · subst q; simp only [World.goto,Function.update_self] at found; exact .inl ⟨rfl,Option.some.inj found⟩
  · simp only [World.goto,Function.update_of_ne same] at found; exact .inr found

theorem start_parts {w : World Row Task P} (found : (w.start y).threads q = some z) :
    (q = w.spawned ∧ y = z) ∨ w.threads q = some z :=
  goto_parts (w := w) found

-- A process after a move was there before, has made a step, or has just been started.
theorem thread_parts (G : Program Row Key Err Task Note In P) (w : World Row Task P) (m : Move In P)
    (found : (w.move G m).threads q = some z) :
    w.threads q = some z ∨ (∃ x, w.threads q = some x ∧ Flows G w.db (w.move G m).db x z) ∨
      (q = w.spawned ∧ q < (w.move G m).spawned ∧ (m = .spawn z ∨ ∃ task ∈ w.queue, z = G.worker task)) := by
  cases m with
  | spawn x =>
    rcases start_parts found with ⟨last,same⟩ | before
    · subst last same; exact .inr (.inr ⟨rfl,Nat.lt_succ_self _,.inl rfl⟩)
    · exact .inl before
  | work n =>
    simp only [World.move] at found ⊢
    split at found
    · rename_i task queued
      rcases start_parts found with ⟨last,same⟩ | before
      · subst last same
        exact .inr (.inr ⟨rfl,Nat.lt_succ_self _,.inr ⟨task,List.mem_of_getElem? queued,rfl⟩⟩)
      · exact .inl before
    · exact .inl found
  | lose | tick => exact .inl found
  | duplicate n =>
    simp only [World.move] at found
    split at found <;> exact .inl found
  | step p i =>
    simp only [World.move] at found ⊢
    split at found
    · rename_i x at_p
      unfold World.instr at found ⊢
      split at found <;> rename_i at_next
      · rcases goto_parts found with ⟨same,ends⟩ | before
        · subst same ends; exact .inr (.inl ⟨x,at_p,.query at_next rfl⟩)
        · exact .inl before
      · split at found
        · rename_i y db ran
          rcases goto_parts (w := w) found with ⟨same,ends⟩ | before
          · subst same ends
            simp only [at_p]
            exact .inr (.inl ⟨x,rfl,.commit at_next ran⟩)
          · exact .inl before
        · rcases goto_parts found with ⟨same,ends⟩ | before
          · subst same ends; exact .inr (.inl ⟨x,at_p,.caught rfl⟩)
          · exact .inl before
      · rcases goto_parts found with ⟨same,ends⟩ | before
        · subst same ends; exact .inr (.inl ⟨x,at_p,.input at_next rfl⟩)
        · exact .inl before
      · rcases goto_parts (w := w) found with ⟨same,ends⟩ | before
        · subst same ends; exact .inr (.inl ⟨x,at_p,.add at_next rfl⟩)
        · exact .inl before
      · rcases goto_parts found with ⟨same,ends⟩ | before
        · subst same ends; exact .inr (.inl ⟨x,at_p,.emit at_next rfl⟩)
        · exact .inl before
      · exact .inl found
    · exact .inl found
  | fail p =>
    simp only [World.move] at found ⊢
    split at found
    · rename_i x at_p
      rcases goto_parts found with ⟨same,ends⟩ | before
      · subst same ends; exact .inr (.inl ⟨x,at_p,.caught rfl⟩)
      · exact .inl before
    · exact .inl found
  | stop p =>
    simp only [World.move] at found
    by_cases same : q = p
    · subst q; rw [Function.update_self] at found; cases found
    · rw [Function.update_of_ne same] at found; exact .inl found

-- What a proof about all runs keeps: `inv` of the committed rows, `fact` of each
-- process at its program point, `owed` of each queued task.
structure World.Holds (inv : Db Row → Prop) (fact : P → Db Row → Prop) (owed : Task → Db Row → Prop)
    (w : World Row Task P) : Prop where
  inv : inv w.db
  fact : ∀ p x, w.threads p = some x → fact x w.db
  owed : ∀ task ∈ w.queue, owed task w.db

variable {inv : Db Row → Prop} {fact : P → Db Row → Prop} {owed : Task → Db Row → Prop}

theorem holds_start {w : World Row Task P} (valid : w.Holds inv fact owed) (known : fact x w.db) :
    (w.start x).Holds inv fact owed := by
  refine ⟨valid.inv,?_,valid.owed⟩
  intro q y atQ
  simp only [World.start] at atQ
  by_cases same : q = w.spawned
  · subst q; rw [Function.update_self] at atQ; cases atQ; exact known
  · rw [Function.update_of_ne same] at atQ; exact valid.fact q y atQ

theorem holds_goto {w : World Row Task P} (valid : w.Holds inv fact owed) (known : fact x w.db) :
    (w.goto p x).Holds inv fact owed := by
  refine ⟨valid.inv,?_,valid.owed⟩
  intro q y atQ
  simp only [World.goto] at atQ
  by_cases same : q = p
  · subst q; rw [Function.update_self] at atQ; cases atQ; exact known
  · rw [Function.update_of_ne same] at atQ; exact valid.fact q y atQ

-- A process's own steps, and what others must keep of its facts while it waits.
-- `may` is the condition on the runs, and whatever is known of their worlds.
structure Sound (G : Program Row Key Err Task Note In P) (inv : Db Row → Prop)
    (fact : P → Db Row → Prop) (owed : Task → Db Row → Prop)
    (may : World Row Task P → Move In P → Prop) : Prop where
  spawn : ∀ (w : World Row Task P) x, w.Holds inv fact owed → may w (.spawn x) → fact x w.db
  work : ∀ (w : World Row Task P) task, w.Holds inv fact owed → task ∈ w.queue → fact (G.worker task) w.db
  query : ∀ (w : World Row Task P) p x read, w.Holds inv fact owed → w.threads p = some x → G.next x = .query read →
    fact (read w.db) w.db
  input : ∀ x db read i, fact x db → G.next x = .input read → fact (read i) db
  add : ∀ x db task next, inv db → fact x db → G.next x = .add task next → fact next db ∧ owed task db
  emit : ∀ x db note next, fact x db → G.next x = .emit note next → fact next db
  caught : ∀ x db e, fact x db → fact (G.caught x e) db
  commit : ∀ (w : World Row Task P) p x body i y db, w.Holds inv fact owed → w.threads p = some x → may w (.step p i) →
    G.next x = .tx body → body.run w.db = .ok (y,db) →
    inv db ∧ fact y db ∧ (∀ q z, q ≠ p → w.threads q = some z → fact z db) ∧
      ∀ task ∈ w.queue, owed task db
  tick : ∀ (w : World Row Task P) ms, w.Holds inv fact owed → inv (w.db.tick ms) ∧
    (∀ p x, w.threads p = some x → fact x (w.db.tick ms)) ∧
    ∀ task ∈ w.queue, owed task (w.db.tick ms)

variable {may : World Row Task P → Move In P → Prop}

theorem holds_instr {w : World Row Task P} (sound : Sound G inv fact owed may)
    (valid : w.Holds inv fact owed) (found : w.threads p = some x) (allowed : may w (.step p i)) :
    (w.instr G p x i).Holds inv fact owed := by
  have known := valid.fact p x found
  unfold World.instr
  split
  · rename_i read at_query
    exact holds_goto valid (sound.query w p x read valid found at_query)
  · rename_i body at_tx
    split
    · rename_i y db ran
      obtain ⟨kept,own,others,tasks⟩ := sound.commit w p x body i y db valid found allowed at_tx ran
      refine ⟨kept,?_,tasks⟩
      intro q z atQ
      simp only [World.goto] at atQ
      by_cases same : q = p
      · subst q; rw [Function.update_self] at atQ; cases atQ; exact own
      · rw [Function.update_of_ne same] at atQ; exact others q z same atQ
    · exact holds_goto valid (sound.caught x w.db _ known)
  · rename_i read at_input
    exact holds_goto valid (sound.input x w.db read i known at_input)
  · rename_i task next at_add
    obtain ⟨own,new⟩ := sound.add x w.db task next valid.inv known at_add
    obtain ⟨kept,others,tasks⟩ := holds_goto (p := p) valid own
    refine ⟨kept,others,?_⟩
    intro t member
    rcases List.mem_append.mp member with before | last
    · exact tasks t before
    · rw [List.mem_singleton.mp last]; exact new
  · rename_i note next at_emit
    exact holds_goto valid (sound.emit x w.db note next known at_emit)
  · exact valid

theorem holds_move {w : World Row Task P} (sound : Sound G inv fact owed may)
    (valid : w.Holds inv fact owed) (allowed : may w m) : (w.move G m).Holds inv fact owed := by
  cases m with
  | spawn x => exact holds_start valid (sound.spawn w x valid allowed)
  | work n =>
    unfold World.move
    dsimp only
    split
    · rename_i task found
      have started := holds_start valid (sound.work w task valid (List.mem_of_getElem? found))
      exact ⟨started.inv,started.fact,fun t member => valid.owed t (List.mem_of_mem_eraseIdx member)⟩
    · exact valid
  | lose n =>
    exact ⟨valid.inv,valid.fact,fun t member => valid.owed t (List.mem_of_mem_eraseIdx member)⟩
  | duplicate n =>
    unfold World.move
    dsimp only
    split
    · rename_i task found
      refine ⟨valid.inv,valid.fact,?_⟩
      intro t member
      rcases List.mem_append.mp member with before | last
      · exact valid.owed t before
      · rw [List.mem_singleton.mp last]; exact valid.owed task (List.mem_of_getElem? found)
    · exact valid
  | step p i =>
    unfold World.move
    dsimp only
    split
    · rename_i x found
      exact holds_instr sound valid found allowed
    · exact valid
  | fail p =>
    unfold World.move
    dsimp only
    split
    · rename_i x found
      exact holds_goto valid (sound.caught x w.db _ (valid.fact p x found))
    · exact valid
  | stop p =>
    refine ⟨valid.inv,?_,valid.owed⟩
    intro q y atQ
    simp only [World.move] at atQ
    by_cases same : q = p
    · subst q; rw [Function.update_self] at atQ; cases atQ
    · rw [Function.update_of_ne same] at atQ; exact valid.fact q y atQ
  | tick ms =>
    obtain ⟨kept,others,tasks⟩ := sound.tick w ms valid
    exact ⟨kept,others,tasks⟩

theorem holds_reached {start : World Row Task P} (sound : Sound G inv fact owed may)
    (initial : start.Holds inv fact owed) (path : Reached G may start w) : w.Holds inv fact owed := by
  induction path with
  | refl => exact initial
  | step _ allowed ih => exact holds_move sound ih allowed

end Relational
