import MesyafMarket.Relational.Alone

namespace Relational
variable {Tab : Type} {Row : Tab → Type} {Key Err Task Note In P : Type}
  (G : Program Row Key Err Task Note In P) (throws halted : P → Prop)

-- Process `p` runs alone until it stands at a point of `halted`. What it tries at a point of
-- `throws` throws, everything else runs. Whatever it reads from the other store, it comes
-- to its end, and `after` holds of the points tried on the way and of the world there.
inductive Surely (p : Nat) : World Row Task P → (List P → World Row Task P → Prop) → Prop where
  | halts (found : w.threads p = some x) (ended : halted x) (holds : after [] w) : Surely p w after
  | step (found : w.threads p = some x) (going : ¬halted x) (sound : ¬throws x)
      (rest : ∀ i, Surely p (w.instr G p x i) fun tried last => after (x::tried) last) : Surely p w after
  | thrown (found : w.threads p = some x) (going : ¬halted x) (broken : throws x)
      (rest : Surely p (w.goto p (G.caught x G.infrastructure)) fun tried last => after (x::tried) last) :
      Surely p w after

variable {G throws halted} {w : World Row Task P} {after : List P → World Row Task P → Prop}

theorem surely_mono {weaker : List P → World Row Task P → Prop} (surely : Surely G throws halted p w after)
    (implies : ∀ tried last, after tried last → weaker tried last) : Surely G throws halted p w weaker := by
  induction surely generalizing weaker with
  | halts found ended holds => exact .halts found ended (implies _ _ holds)
  | step found going sound _ ih => exact .step found going sound fun i => ih i fun tried => implies (_::tried)
  | thrown found going broken _ ih => exact .thrown found going broken (ih fun tried => implies (_::tried))

theorem surely_over (found : w.threads p = some x) (ended : halted x) :
    Surely G throws halted p w after ↔ after [] w := by
  constructor
  · intro surely
    cases surely with
    | halts _ _ holds => exact holds
    | step again going | thrown again going =>
      cases found.symm.trans again
      exact absurd ended going
  · exact .halts found ended

theorem surely_thrown (found : w.threads p = some x) (going : ¬halted x) (broken : throws x) :
    Surely G throws halted p w after ↔
      Surely G throws halted p (w.goto p (G.caught x G.infrastructure)) fun tried last => after (x::tried) last := by
  constructor
  · intro surely
    cases surely with
    | halts again ended => cases found.symm.trans again; exact absurd ended going
    | step again _ sound => cases found.symm.trans again; exact absurd broken sound
    | thrown again _ _ rest => cases found.symm.trans again; exact rest
  · exact .thrown found going broken

theorem surely_step (found : w.threads p = some x) (going : ¬halted x) (sound : ¬throws x) :
    Surely G throws halted p w after ↔
      ∀ i, Surely G throws halted p (w.instr G p x i) fun tried last => after (x::tried) last := by
  constructor
  · intro surely
    cases surely with
    | halts again ended => cases found.symm.trans again; exact absurd ended going
    | step again _ _ rest => cases found.symm.trans again; exact rest
    | thrown again _ broken => cases found.symm.trans again; exact absurd broken sound
  · exact .step found going sound

theorem surely_tries (found : w.threads p = some x) (going : ¬halted x) :
    Surely G throws halted p w after ↔
      (throws x → Surely G throws halted p (w.goto p (G.caught x G.infrastructure)) fun tried last => after (x::tried) last) ∧
      (¬throws x → ∀ i, Surely G throws halted p (w.instr G p x i) fun tried last => after (x::tried) last) := by
  by_cases broken : throws x
  · simp only [surely_thrown found going broken,broken,not_true_eq_false,false_imp_iff,and_true,true_imp_iff]
  · simp only [surely_step found going broken,broken,not_false_eq_true,false_imp_iff,true_and,true_imp_iff]

section Instructions
variable {p : Nat} {x : P}

theorem instr_query {read : Db Row → P} (at_query : G.next x = .query read) (i : In) :
    w.instr G p x i = w.goto p (read w.db) := by
  simp only [World.instr,at_query]

theorem instr_input {read : In → P} (at_input : G.next x = .input read) (i : In) :
    w.instr G p x i = w.goto p (read i) := by
  simp only [World.instr,at_input]

theorem instr_emit (at_emit : G.next x = .emit note y) (i : In) : w.instr G p x i = w.goto p y := by
  simp only [World.instr,at_emit]

theorem instr_add (at_add : G.next x = .add task y) (i : In) :
    w.instr G p x i = {w.goto p y with queue := w.queue ++ [task]} := by
  simp only [World.instr,at_add]

theorem instr_commit (at_tx : G.next x = .tx body) (ran : body.run w.db = .ok (y,db)) (i : In) :
    w.instr G p x i = {w.goto p y with db := db} := by
  simp only [World.instr,at_tx,ran]

theorem instr_rollback (at_tx : G.next x = .tx body) (ran : body.run w.db = .error e) (i : In) :
    w.instr G p x i = w.goto p (G.caught x e) := by
  simp only [World.instr,at_tx,ran]

end Instructions
end Relational
