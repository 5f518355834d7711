import MesyafMarket.Relational.Processes

namespace Relational
variable {Tab : Type} {Row : Tab → Type} {Key Err Task Note In P : Type}
  (G : Program Row Key Err Task Note In P)

-- Process `p` runs from `w` to its end while nothing else moves and nothing fails.
inductive Ends (p : Nat) : World Row Task P → World Row Task P → Prop where
  | done (found : w.threads p = some x) (at_end : G.next x = .done) : Ends p w w
  | step (found : w.threads p = some x) (going : G.next x ≠ .done) (i : In) (rest : Ends p (w.instr G p x i) last) :
      Ends p w last

-- The tasks queued behind the first `n` are worked off one after another.
inductive Serves (n : Nat) : World Row Task P → World Row Task P → Prop where
  | done (empty : w.queue.length ≤ n) : Serves n w w
  | next (queued : n < w.queue.length) (first : Ends G w.spawned (w.move G (.work n : Move In P)) middle)
      (rest : Serves n middle last) : Serves n w last

variable {G} {w last : World Row Task P}

@[simp] theorem goto_goto (w : World Row Task P) (p : Nat) (x y : P) : (w.goto p x).goto p y = w.goto p y := by
  simp [World.goto]

@[simp] theorem goto_threads (w : World Row Task P) (p : Nat) (x : P) : (w.goto p x).threads p = some x := by
  simp [World.goto]

@[simp] theorem goto_db (w : World Row Task P) (p : Nat) (x : P) : (w.goto p x).db = w.db := rfl
@[simp] theorem goto_queue (w : World Row Task P) (p : Nat) (x : P) : (w.goto p x).queue = w.queue := rfl
@[simp] theorem goto_spawned (w : World Row Task P) (p : Nat) (x : P) : (w.goto p x).spawned = w.spawned := rfl

theorem ends_done (found : w.threads p = some x) (at_end : G.next x = .done) : Ends G p w last ↔ last = w := by
  constructor
  · intro ended
    cases ended with
    | done => rfl
    | step again going =>
      cases found.symm.trans again
      exact absurd at_end going
  · rintro rfl
    exact .done found at_end

theorem ends_step (found : w.threads p = some x) (going : G.next x ≠ .done) :
    Ends G p w last ↔ ∃ i, Ends G p (w.instr G p x i) last := by
  constructor
  · intro ended
    cases ended with
    | done again at_end =>
      cases found.symm.trans again
      exact absurd at_end going
    | step again _ i rest =>
      cases found.symm.trans again
      exact ⟨i,rest⟩
  · rintro ⟨i,rest⟩
    exact .step found going i rest

section Instructions
variable [Nonempty In]

theorem ends_query {read : Db Row → P} (found : w.threads p = some x) (at_query : G.next x = .query read) :
    Ends G p w last ↔ Ends G p (w.goto p (read w.db)) last := by
  rw [ends_step found (by rw [at_query]; exact nofun)]
  simp only [World.instr,at_query,exists_const]

theorem ends_emit (found : w.threads p = some x) (at_emit : G.next x = .emit note y) :
    Ends G p w last ↔ Ends G p (w.goto p y) last := by
  rw [ends_step found (by rw [at_emit]; exact nofun)]
  simp only [World.instr,at_emit,exists_const]

theorem ends_input {read : In → P} (found : w.threads p = some x) (at_input : G.next x = .input read) :
    Ends G p w last ↔ ∃ i, Ends G p (w.goto p (read i)) last := by
  rw [ends_step found (by rw [at_input]; exact nofun)]
  simp only [World.instr,at_input]

theorem ends_commit (found : w.threads p = some x) (at_tx : G.next x = .tx body) (ran : body.run w.db = .ok (y,db)) :
    Ends G p w last ↔ Ends G p {w.goto p y with db := db} last := by
  rw [ends_step found (by rw [at_tx]; exact nofun)]
  simp only [World.instr,at_tx,ran,exists_const]

theorem ends_throw (found : w.threads p = some x) (at_tx : G.next x = .tx body) (ran : body.run w.db = .error e) :
    Ends G p w last ↔ Ends G p (w.goto p (G.caught x e)) last := by
  rw [ends_step found (by rw [at_tx]; exact nofun)]
  simp only [World.instr,at_tx,ran,exists_const]

end Instructions
-- Process `p` makes steps, of which any may fail, and nothing else moves.
def OwnSteps (p : Nat) (_ : World Row Task P) : Move In P → Prop
  | .step q _ => q = p
  | .fail q => q = p
  | _ => False

theorem instr_flows (found : w.threads p = some x) (i : In) : ∃ y, (w.instr G p x i).threads p = some y ∧
    (Flows G w.db (w.instr G p x i).db x y ∨ (y = x ∧ (w.instr G p x i).db = w.db)) := by
  unfold World.instr
  split <;> rename_i at_next
  · exact ⟨_,goto_threads ..,.inl (.query at_next rfl)⟩
  · split
    · rename_i ran
      exact ⟨_,goto_threads ..,.inl (.commit at_next ran)⟩
    · exact ⟨_,goto_threads ..,.inl (.caught rfl)⟩
  · exact ⟨_,goto_threads ..,.inl (.input at_next rfl)⟩
  · exact ⟨_,goto_threads w p _,.inl (.add at_next rfl)⟩
  · exact ⟨_,goto_threads ..,.inl (.emit at_next rfl)⟩
  · exact ⟨x,found,.inr ⟨rfl,rfl⟩⟩

-- A fact of the process at its point and of the rows, which each of its steps keeps.
theorem alone_reached {fact : P → Db Row → Prop}
    (step : ∀ x y db db', fact x db → Flows G db db' x y → fact y db') (found : w.threads p = some x)
    (first : fact x w.db) (path : Reached G (OwnSteps p) w last) : ∃ y, last.threads p = some y ∧ fact y last.db := by
  induction path with
  | refl => exact ⟨x,found,first⟩
  | @step u m _ own ih =>
    obtain ⟨y,at_p,known⟩ := ih
    cases m with
    | step q i =>
      cases own
      have moved : u.move G (.step p i) = u.instr G p y i := by simp only [World.move,at_p]
      rw [moved]
      obtain ⟨z,at_z,flows | ⟨same,still⟩⟩ := instr_flows at_p i
      · exact ⟨z,at_z,step y z _ _ known flows⟩
      · exact ⟨z,at_z,by rw [same,still]; exact known⟩
    | fail q =>
      cases own
      have moved : u.move G (.fail p) = u.goto p (G.caught y G.infrastructure) := by simp only [World.move,at_p]
      rw [moved]
      exact ⟨_,goto_threads ..,step y _ _ _ known (.caught rfl)⟩
    | _ => cases own

end Relational
