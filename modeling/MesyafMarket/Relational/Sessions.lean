import MesyafMarket.Relational.Interleaving
import MesyafMarket.Relational.Processes

namespace Relational
variable {Tab : Type} {Row : Tab → Type} {Key Err Task Note In P : Type}

-- A move of processes whose transactions run statement by statement. The servers'
-- clocks differ: `clock` is what the next one to be read will say.
inductive Act (In P : Type) where
  | spawn (x : P)
  | work (n : Nat)
  | lose (n : Nat)
  | duplicate (n : Nat)
  | step (p : Nat) (i : In)
  | fail (p : Nat)
  | stop (p : Nat)
  | clock (now : Nat)

structure Sessions (Row : Tab → Type) (Key Err Task P : Type) where
  sys : System Row Key Err P
  queue : List Task

def Sessions.open (db : Db Row) : Sessions Row Key Err Task P :=
  ⟨⟨db,fun _ => none,0,fun _ _ => rfl,by intro p q a b _ atP; cases atP⟩,[]⟩

section Execution
variable [DecidableEq Tab] [DecidableEq Key] (G : Program Row Key Err Task Note In P)

def Sessions.goto (s : Sessions Row Key Err Task P) (p : Nat) (y : P) (old : Thread Row Key Err P)
    (found : s.sys.threads p = some old) : Sessions Row Key Err Task P :=
  {s with sys := s.sys.put p (.idle y) old found (by intro k member; cases member) s.sys.db}

-- One instruction outside a transaction, the start of a transaction, or one move
-- inside it. A statement that has to wait for a lock changes nothing.
def Sessions.step (s : Sessions Row Key Err Task P) (p : Nat) (i : In) : Sessions Row Key Err Task P :=
  match found : s.sys.threads p with
  | some (.idle x) => match G.next x with
    | .query read => s.goto p (read s.sys.db) _ found
    | .tx body => {s with sys := s.sys.put p (.busy x (.start body)) _ found (by intro k member; cases member) s.sys.db}
    | .input read => s.goto p (read i) _ found
    | .add task next => {s.goto p next _ found with queue := s.queue ++ [task]}
    | .emit _ next => s.goto p next _ found
    | .done => s
  | some (.busy _ _) => match s.sys.advance? G.caught p with
    | some sys => {s with sys := sys}
    | none => s
  | none => s

def Sessions.move (s : Sessions Row Key Err Task P) : Act In P → Sessions Row Key Err Task P
  | .spawn x => {s with sys := s.sys.spawn x}
  | .work n => match s.queue[n]? with
    | some task => ⟨s.sys.spawn (G.worker task),s.queue.eraseIdx n⟩
    | none => s
  | .lose n => {s with queue := s.queue.eraseIdx n}
  | .duplicate n => match s.queue[n]? with
    | some task => {s with queue := s.queue ++ [task]}
    | none => s
  | .step p i => s.step G p i
  | .fail p => match found : s.sys.threads p with
    | some a => s.goto p (G.caught a.state G.infrastructure) _ found
    | none => s
  | .stop p => {s with sys := s.sys.stop p}
  | .clock now => {s with sys := {s.sys with db := s.sys.db.dated now}}

def Sessions.run (s : Sessions Row Key Err Task P) (moves : List (Act In P)) : Sessions Row Key Err Task P :=
  moves.foldl (Sessions.move G) s

-- The states along a run, each with the move made there.
def Sessions.trace (s : Sessions Row Key Err Task P) :
    List (Act In P) → List (Sessions Row Key Err Task P × Act In P)
  | [] => []
  | m::rest => (s,m)::(s.move G m).trace rest

theorem sessions_run_snoc (s : Sessions Row Key Err Task P) (moves : List (Act In P)) (m : Act In P) :
    s.run G (moves ++ [m]) = (s.run G moves).move G m := by
  simp only [Sessions.run,List.foldl_append,List.foldl_cons,List.foldl_nil]

theorem sessions_run_append (s : Sessions Row Key Err Task P) (moves more : List (Act In P)) :
    s.run G (moves ++ more) = (s.run G moves).run G more := List.foldl_append ..

theorem sessions_trace_append (s : Sessions Row Key Err Task P) (moves more : List (Act In P)) :
    s.trace G (moves ++ more) = s.trace G moves ++ (s.run G moves).trace G more := by
  induction moves generalizing s with
  | nil => rfl
  | cons first rest ih =>
    simp only [List.cons_append,Sessions.trace]
    rw [ih]; rfl

theorem sessions_trace_snoc (s : Sessions Row Key Err Task P) (moves : List (Act In P)) (m : Act In P) :
    s.trace G (moves ++ [m]) = s.trace G moves ++ [(s.run G moves,m)] := sessions_trace_append G s moves [m]

-- What one step of a thread can do.
inductive Stepped (s : Sessions Row Key Err Task P) (p : Nat) (i : In) : Sessions Row Key Err Task P → Prop where
  | waits (unended : ∀ x txn y, s.sys.threads p = some (.busy x txn) → txn.prog ≠ .ret y) : Stepped s p i s
  | query {read : Db Row → P} (found : s.sys.threads p = some (.idle x)) (at_query : G.next x = .query read) :
      Stepped s p i (s.goto p (read s.sys.db) _ found)
  | opens (found : s.sys.threads p = some (.idle x)) (at_tx : G.next x = .tx body) :
      Stepped s p i {s with sys := s.sys.put p (.busy x (.start body)) _ found (by intro k member; cases member) s.sys.db}
  | input {read : In → P} (found : s.sys.threads p = some (.idle x)) (at_input : G.next x = .input read) :
      Stepped s p i (s.goto p (read i) _ found)
  | add (found : s.sys.threads p = some (.idle x)) (at_add : G.next x = .add task y) :
      Stepped s p i {s.goto p y _ found with queue := s.queue ++ [task]}
  | emit (found : s.sys.threads p = some (.idle x)) (at_emit : G.next x = .emit note y) :
      Stepped s p i (s.goto p y _ found)
  | advanced (inside : Advanced G.caught s.sys p sys) : Stepped s p i {s with sys := sys}

theorem step_parts (s : Sessions Row Key Err Task P) (p : Nat) (i : In) : Stepped G s p i (s.step G p i) := by
  unfold Sessions.step
  split
  · rename_i x found
    split
    · rename_i read at_query; exact .query found at_query
    · rename_i body at_tx; exact .opens found at_tx
    · rename_i read at_input; exact .input found at_input
    · rename_i task y at_add; exact .add found at_add
    · rename_i note y at_emit; exact .emit found at_emit
    · refine .waits ?_
      intro z txn y busy
      rw [found] at busy
      cases busy
  · split
    · rename_i sys accepted; exact .advanced (advance_parts accepted)
    · rename_i refused
      refine .waits ?_
      intro z txn y busy at_ret
      exact absurd refused (by rw [advance_ret busy at_ret]; exact Option.some_ne_none _)
  · rename_i none
    refine .waits ?_
    intro z txn y busy
    rw [none] at busy
    cases busy

end Execution

variable {G : Program Row Key Err Task Note In P} {C : Protocol Row Key P}

-- The threads are disciplined, and what the worker of a queued task will rely on
-- holds while the task waits.
structure Sessions.Disciplined (C : Protocol Row Key P) (G : Program Row Key Err Task Note In P)
    (s : Sessions Row Key Err Task P) : Prop where
  sys : s.sys.Disciplined C
  owed : ∀ task ∈ s.queue, C.fact (G.worker task) s.sys.taken s.sys.db

theorem disciplined_open {db : Db Row} (inv : C.inv (fun _ => False) db) :
    (Sessions.open db : Sessions Row Key Err Task P).Disciplined C G := by
  refine ⟨⟨C.inv_fewer ?_ inv,?_,?_⟩,?_⟩
  · rintro k ⟨p,a,no,_⟩
    cases no
  · intro p a no
    cases no
  · intro p x txn no
    cases no
  · intro task no
    cases no

-- The code follows the protocol in every run whose moves are allowed.
structure Program.Follows (G : Program Row Key Err Task Note In P) (C : Protocol Row Key P)
    (may : Sessions Row Key Err Task P → Act In P → Prop) : Prop where
  spawn : ∀ (s : Sessions Row Key Err Task P) x, C.inv s.sys.taken s.sys.db → may s (.spawn x) →
    C.fact x s.sys.taken s.sys.db
  query : ∀ (s : Sessions Row Key Err Task P) p i x read, C.inv s.sys.taken s.sys.db → C.fact x s.sys.taken s.sys.db →
    may s (.step p i) → s.sys.threads p = some (.idle x) → G.next x = .query read →
    C.fact (read s.sys.db) s.sys.taken s.sys.db
  input : ∀ x T db read i, C.fact x T db → G.next x = .input read → C.fact (read i) T db
  add : ∀ x T db task y, C.fact x T db → G.next x = .add task y → C.fact y T db ∧ C.fact (G.worker task) T db
  emit : ∀ x T db note y, C.fact x T db → G.next x = .emit note y → C.fact y T db
  caught : ∀ x T db e, C.fact x T db → C.fact (G.caught x e) T db
  body : ∀ x T db body, C.inv T db → C.fact x T db → G.next x = .tx body →
    body.Safe C x (C.Commits x) [] .none db

section Runs
variable {may : Sessions Row Key Err Task P → Act In P → Prop} {s : Sessions Row Key Err Task P}

theorem disciplined_sys {sys : System Row Key Err P} (valid : s.Disciplined C G) (onward : s.sys.Onward C sys)
    (after : sys.Disciplined C) : ({s with sys := sys} : Sessions Row Key Err Task P).Disciplined C G :=
  ⟨after,fun task member => onward _ (valid.owed task member)⟩

theorem disciplined_start (valid : s.Disciplined C G) (known : C.fact y s.sys.taken s.sys.db) :
    ({s with sys := s.sys.spawn y} : Sessions Row Key Err Task P).Disciplined C G :=
  disciplined_sys valid onward_spawn (disciplined_spawn valid.sys known)

variable [DecidableEq Tab] [DecidableEq Key]

theorem onward_goto (found : s.sys.threads p = some old) : s.sys.Onward C (s.goto p y old found).sys :=
  onward_put found (by intro k member; cases member)

theorem disciplined_goto (valid : s.Disciplined C G) (found : s.sys.threads p = some old)
    (known : C.fact y s.sys.taken s.sys.db) : (s.goto p y old found).Disciplined C G :=
  disciplined_sys valid (onward_goto found) (disciplined_put valid.sys found _ known (fun _ _ no => by cases no))

theorem disciplined_advance {sys : System Row Key Err P} (sound : G.Follows C may) (valid : s.Disciplined C G)
    (allowed : may s (.step p i)) (inside : Advanced G.caught s.sys p sys) :
    ({s with sys := sys} : Sessions Row Key Err Task P).Disciplined C G := by
  cases inside with
  | exec found at_stmt free =>
    exact disciplined_sys valid (onward_exec valid.sys found at_stmt free)
      (disciplined_exec valid.sys found at_stmt free)
  | commit found at_ret =>
    exact disciplined_sys valid (onward_commit valid.sys found at_ret) (disciplined_commit valid.sys found at_ret)
  | rollback found at_throw =>
    exact disciplined_goto valid found (sound.caught _ _ _ _ (valid.sys.fact _ _ found))

theorem disciplined_step (sound : G.Follows C may) (valid : s.Disciplined C G) (allowed : may s (.step p i)) :
    (s.step G p i).Disciplined C G := by
  have known : ∀ x, s.sys.threads p = some (.idle x) → C.fact x s.sys.taken s.sys.db :=
    fun x found => valid.sys.fact p (.idle x) found
  have parts := step_parts G s p i
  generalize s.step G p i = next at parts
  cases parts with
  | waits => exact valid
  | query found at_query => exact disciplined_goto valid found (sound.query s p i _ _ valid.sys.inv (known _ found) allowed found at_query)
  | opens found at_tx =>
    refine disciplined_sys valid (onward_put found (by intro k member; cases member))
      (disciplined_put valid.sys found _ (known _ found) ?_)
    intro x txn same
    cases same
    exact sound.body _ _ _ _ valid.sys.inv (known _ found) at_tx
  | input found at_input => exact disciplined_goto valid found (sound.input _ _ _ _ i (known _ found) at_input)
  | add found at_add =>
    obtain ⟨own,new⟩ := sound.add _ _ _ _ _ (known _ found) at_add
    have after := disciplined_goto valid found own
    refine ⟨after.sys,?_⟩
    intro t member
    rcases List.mem_append.mp member with before | last
    · exact after.owed t before
    · rw [List.mem_singleton.mp last]
      exact onward_goto found _ new
  | emit found at_emit => exact disciplined_goto valid found (sound.emit _ _ _ _ _ (known _ found) at_emit)
  | advanced inside => exact disciplined_advance sound valid allowed inside

theorem disciplined_move (sound : G.Follows C may) (valid : s.Disciplined C G) (allowed : may s m) :
    (s.move G m).Disciplined C G := by
  cases m with
  | spawn x => exact disciplined_start valid (sound.spawn s x valid.sys.inv allowed)
  | work n =>
    unfold Sessions.move
    dsimp only
    split
    · rename_i task found
      have started := disciplined_start valid (valid.owed task (List.mem_of_getElem? found))
      exact ⟨started.sys,fun t member => started.owed t (List.mem_of_mem_eraseIdx member)⟩
    · exact valid
  | lose n => exact ⟨valid.sys,fun t member => valid.owed t (List.mem_of_mem_eraseIdx member)⟩
  | duplicate n =>
    unfold Sessions.move
    dsimp only
    split
    · rename_i task found
      refine ⟨valid.sys,?_⟩
      intro t member
      rcases List.mem_append.mp member with before | last
      · exact valid.owed t before
      · rw [List.mem_singleton.mp last]; exact valid.owed task (List.mem_of_getElem? found)
    · exact valid
  | step p i => exact disciplined_step sound valid allowed
  | fail p =>
    unfold Sessions.move
    dsimp only
    split
    · rename_i a found
      exact disciplined_goto valid found (sound.caught _ _ _ _ (valid.sys.fact p a found))
    · exact valid
  | stop p => exact disciplined_sys valid onward_stop (disciplined_stop valid.sys)
  | clock now => exact disciplined_sys valid onward_dated (disciplined_dated valid.sys)

theorem disciplined_run (sound : G.Follows C may) (valid : s.Disciplined C G) (moves : List (Act In P))
    (allowed : ∀ made ∈ s.trace G moves, may made.1 made.2) : (s.run G moves).Disciplined C G := by
  induction moves generalizing s with
  | nil => exact valid
  | cons m rest ih =>
    have first := disciplined_move sound valid (allowed _ List.mem_cons_self)
    exact ih first fun made member => allowed made (List.mem_cons_of_mem _ member)

end Runs
end Relational
