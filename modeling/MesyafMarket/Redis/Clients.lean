import MesyafMarket.Redis.Store

namespace Redis
variable {K V In P : Type}

-- The code of a call to a store: the next command at each program point with where
-- its reply leads, and where the call goes on when the command fails.
structure Client (K V In P : Type) where
  command : P → In → Store K V → Store K V × P
  failed : P → P

structure World (K V P : Type) where
  store : Store K V
  calls : Nat → Option P
  spawned : Nat

-- A call may stop and a command may fail between any two commands.
inductive Move (In P : Type) where
  | spawn (x : P)
  | step (p : Nat) (i : In)
  | fail (p : Nat)
  | stop (p : Nat)
  | pass (ms : Nat)
  deriving DecidableEq

def World.open (store : Store K V) : World K V P := ⟨store,fun _ => none,0⟩

def World.goto (w : World K V P) (p : Nat) (x : Option P) : World K V P :=
  {w with calls := Function.update w.calls p x}

section Runs
variable (G : Client K V In P)

def World.move (w : World K V P) : Move In P → World K V P
  | .spawn x => {w.goto w.spawned (some x) with spawned := w.spawned+1}
  | .step p i => match w.calls p with
    | some x => {w.goto p (some (G.command x i w.store).2) with store := (G.command x i w.store).1}
    | none => w
  | .fail p => match w.calls p with
    | some x => w.goto p (some (G.failed x))
    | none => w
  | .stop p => w.goto p none
  | .pass ms => {w with store := w.store.pass ms}

def World.run (w : World K V P) (moves : List (Move In P)) : World K V P := moves.foldl (World.move G) w

-- The worlds along a run, each with the move made there.
def World.trace (w : World K V P) : List (Move In P) → List (World K V P × Move In P)
  | [] => []
  | m::rest => (w,m)::(w.move G m).trace rest

@[simp] theorem World.run_nil (w : World K V P) : w.run G [] = w := rfl

theorem World.run_cons (w : World K V P) (m : Move In P) (moves : List (Move In P)) :
    w.run G (m::moves) = (w.move G m).run G moves := rfl

theorem World.run_append (w : World K V P) (moves more : List (Move In P)) :
    w.run G (moves ++ more) = (w.run G moves).run G more := List.foldl_append ..

theorem World.run_snoc (w : World K V P) (moves : List (Move In P)) (m : Move In P) :
    w.run G (moves ++ [m]) = (w.run G moves).move G m := w.run_append G moves [m]

theorem World.trace_snoc (w : World K V P) (moves : List (Move In P)) (m : Move In P) :
    w.trace G (moves ++ [m]) = w.trace G moves ++ [(w.run G moves,m)] := by
  induction moves generalizing w with
  | nil => rfl
  | cons first rest ih =>
    simp only [List.cons_append,World.trace]
    rw [ih]
    rfl

theorem mem_trace {w : World K V P} (member : made ∈ w.trace G moves) : made.2 ∈ moves := by
  induction moves generalizing w with
  | nil => cases member
  | cons m rest ih =>
    rcases List.mem_cons.mp member with first | later
    · rw [first]
      exact List.mem_cons_self
    · exact List.mem_cons_of_mem _ (ih later)

-- What one move does.
inductive Moved (w : World K V P) : Move In P → World K V P → Prop where
  | still : Moved w m w
  | spawned : Moved w (.spawn x) {w.goto w.spawned (some x) with spawned := w.spawned+1}
  | stepped (found : w.calls p = some x) (command : G.command x i w.store = (store,y)) :
      Moved w (.step p i) {w.goto p (some y) with store := store}
  | failed (found : w.calls p = some x) : Moved w (.fail p) (w.goto p (some (G.failed x)))
  | stopped : Moved w (.stop p) (w.goto p none)
  | passed : Moved w (.pass ms) {w with store := w.store.pass ms}

theorem move_parts (w : World K V P) (m : Move In P) : Moved G w m (w.move G m) := by
  cases m with
  | spawn x => exact .spawned
  | step p i =>
    simp only [World.move]
    split
    · rename_i x found; exact .stepped found rfl
    · exact .still
  | fail p =>
    simp only [World.move]
    split
    · rename_i x found; exact .failed found
    · exact .still
  | stop p => exact .stopped
  | pass ms => exact .passed

-- What holds at first and is kept by every move holds after every run.
theorem run_keeps (inv : World K V P → Prop) {w : World K V P} (moves : List (Move In P)) (start : inv w)
    (kept : ∀ made ∈ w.trace G moves, inv made.1 → inv (made.1.move G made.2)) : inv (w.run G moves) := by
  induction moves generalizing w with
  | nil => exact start
  | cons m rest ih =>
    exact ih (kept (w,m) List.mem_cons_self start) fun made member => kept made (List.mem_cons_of_mem _ member)

end Runs

theorem goto_some {w : World K V P} {x : Option P} (found : (w.goto p x).calls q = some y) :
    (q = p ∧ x = some y) ∨ (q ≠ p ∧ w.calls q = some y) := by
  by_cases same : q = p
  · subst same
    simp only [World.goto,Function.update_self] at found
    exact .inl ⟨rfl,found⟩
  · simp only [World.goto,Function.update_of_ne same] at found
    exact .inr ⟨same,found⟩

@[simp] theorem goto_self {w : World K V P} {x : Option P} : (w.goto p x).calls p = x := Function.update_self ..

@[simp] theorem goto_other {w : World K V P} {x : Option P} (other : q ≠ p) : (w.goto p x).calls q = w.calls q :=
  Function.update_of_ne other ..

@[simp] theorem goto_store {w : World K V P} {x : Option P} : (w.goto p x).store = w.store := rfl

@[simp] theorem goto_spawned {w : World K V P} {x : Option P} : (w.goto p x).spawned = w.spawned := rfl

-- Calls are numbered as they come.
def World.Live (w : World K V P) : Prop := ∀ p x, w.calls p = some x → p < w.spawned

theorem live_goto {w : World K V P} {y : Option P} (live : w.Live) (known : p < w.spawned) : (w.goto p y).Live := by
  intro q x found
  rcases goto_some found with ⟨same,_⟩ | ⟨_,before⟩
  · rw [same]
    exact known
  · exact live q x before

theorem live_move {G : Client K V In P} {w : World K V P} {m : Move In P} (live : w.Live) : (w.move G m).Live := by
  have parts := move_parts G w m
  generalize w.move G m = w' at parts
  cases parts with
  | still | passed => exact live
  | spawned =>
    intro q x found
    rcases goto_some found with ⟨same,_⟩ | ⟨_,before⟩
    · rw [same]
      exact Nat.lt_succ_self _
    · exact Nat.lt_succ_of_lt (live q x before)
  | stepped found => exact live_goto live (live _ _ found)
  | failed found => exact live_goto live (live _ _ found)
  | stopped =>
    intro q x found
    rcases goto_some found with ⟨_,gone⟩ | ⟨_,before⟩
    · cases gone
    · exact live q x before

theorem live_run (G : Client K V In P) (store : Store K V) (moves : List (Move In P)) :
    ((World.open store).run G moves).Live :=
  run_keeps G World.Live moves nofun fun _ _ before => live_move before

def Move.isStep (p : Nat) : Move In P → Bool
  | .step q _ => q = p
  | _ => false

-- A call that is left alone goes on by its own commands, whatever the others do.
theorem run_progress {G : Client K V In P} {left : P → Nat} {w : World K V P} (moves : List (Move In P))
    (less : ∀ x i s, left (G.command x i s).2 ≤ left x-1) (known : p < w.spawned) (found : w.calls p = some x)
    (alone : ∀ m ∈ moves, m ≠ .fail p ∧ m ≠ .stop p) :
    ∃ y, (w.run G moves).calls p = some y ∧ left y ≤ left x-moves.countP (Move.isStep p) := by
  induction moves generalizing w x with
  | nil => exact ⟨x,found,Nat.le_refl _⟩
  | cons m rest ih =>
    have others : ∀ m ∈ rest, m ≠ .fail p ∧ m ≠ .stop p := fun m member => alone m (List.mem_cons_of_mem _ member)
    obtain ⟨unfailed,unstopped⟩ := alone m List.mem_cons_self
    rw [World.run_cons,List.countP_cons]
    generalize moved : w.move G m = w'
    have parts := move_parts G w m
    rw [moved] at parts
    cases parts with
    | still =>
      cases m with
      | step q i =>
        by_cases same : q = p
        · subst same
          simp only [World.move,found] at moved
          have here := congrArg (fun w => w.calls q) moved
          simp only [goto_self] at here
          rw [found] at here
          have fewer := less x i w.store
          rw [Option.some.inj here] at fewer
          obtain ⟨y,ended,bound⟩ := ih known found others
          refine ⟨y,ended,?_⟩
          rw [if_pos (by simp [Move.isStep])]
          omega
        · simpa [Move.isStep,same] using ih known found others
      | _ => simpa [Move.isStep] using ih known found others
    | spawned =>
      refine ih (Nat.lt_succ_of_lt known) ?_ others
      rw [← found]
      exact goto_other (Nat.ne_of_lt known)
    | @stepped q z i store y at_q command =>
      by_cases same : q = p
      · subst same
        rw [found] at at_q
        cases at_q
        have fewer : left y ≤ left x-1 := by
          have fewer := less x i w.store
          rw [command] at fewer
          exact fewer
        obtain ⟨last,ended,bound⟩ := @ih y {w.goto q (some y) with store := store} known goto_self others
        refine ⟨last,ended,?_⟩
        rw [if_pos (by simp [Move.isStep])]
        omega
      · obtain ⟨last,ended,bound⟩ := @ih x {w.goto q (some y) with store := store} known ((goto_other (Ne.symm same)).trans found) others
        refine ⟨last,ended,?_⟩
        simpa [Move.isStep,same] using bound
    | @failed q z at_q =>
      have other : p ≠ q := fun same => unfailed (by rw [same])
      exact ih known ((goto_other other).trans found) others
    | @stopped q =>
      have other : p ≠ q := fun same => unstopped (by rw [same])
      exact ih known ((goto_other other).trans found) others
    | passed => exact ih known found others

end Redis
