import MesyafMarket.Exclusivity

namespace MesyafMarket
open DelivererRecoveryService

-- Who delivers what, and nothing else: what a job says of its batch and deliverer, what
-- a batch says of its deliverer, and the job that a deliverer has in hand.
structure Errand where
  batchId : Nat
  status : JobStatus
  delivererId : Option Nat
  deriving DecidableEq

structure Load where
  delivererId : Option Nat
  status : JobStatus
  deriving DecidableEq

@[ext] structure Board where
  job : Nat → Option Errand
  batch : Nat → Option Load
  deliverer : Nat → Option (Option Nat)

-- What dispatching does, each deed in one piece.
inductive Deed where
  | opens (b : Nat)
  | closes (b : Nat)
  | assigns (b d j : Nat)
  | starts (j d : Nat)
  | finishes (j d : Nat)
  | recovers (j d b : Nat)
  | hires (d : Nat)
  | nothing

inductive Board.Step (B : Board) : Deed → Board → Prop where
  | opens (fresh : B.batch b = none) :
      B.Step (.opens b) {B with batch := Function.update B.batch b (some ⟨none,.pending⟩)}
  | closes (at_batch : B.batch b = some ⟨d,.pending⟩) :
      B.Step (.closes b) {B with batch := Function.update B.batch b (some ⟨d,.inProgress⟩)}
  | assigns (at_batch : B.batch b = some ⟨none,.inProgress⟩) (free : B.deliverer d = some none)
      (job : (∃ t, B.job j = some t ∧ t.batchId = b) ∨ (B.job j = none ∧ ∀ i t, B.job i = some t → t.batchId ≠ b)) :
      B.Step (.assigns b d j) {
        job := Function.update B.job j (some ⟨b,.assigned,some d⟩)
        batch := Function.update B.batch b (some ⟨some d,.inProgress⟩)
        deliverer := Function.update B.deliverer d (some (some j))}
  | starts (at_job : B.job j = some ⟨b,.assigned,some d⟩) :
      B.Step (.starts j d) {B with job := Function.update B.job j (some ⟨b,.inProgress,some d⟩)}
  | finishes (at_job : B.job j = some ⟨b,.inProgress,some d⟩) (at_batch : B.batch b = some k) (at_deliverer : B.deliverer d = some i) :
      B.Step (.finishes j d) {
        job := Function.update B.job j (some ⟨b,.completed,some d⟩)
        batch := Function.update B.batch b (some ⟨k.delivererId,.completed⟩)
        deliverer := Function.update B.deliverer d (some none)}
  | recovers (at_job : B.job j = some ⟨b',.assigned,e⟩) (at_batch : B.batch b = some k) (at_deliverer : B.deliverer d = some i) :
      B.Step (.recovers j d b) {
        job := Function.update B.job j (some ⟨b',.pending,none⟩)
        batch := Function.update B.batch b (some ⟨none,.inProgress⟩)
        deliverer := Function.update B.deliverer d (some none)}
  | hires (fresh : B.deliverer d = none) :
      B.Step (.hires d) {B with deliverer := Function.update B.deliverer d (some none)}
  | nothing : B.Step .nothing B

inductive Board.Steps : Board → List Deed → Board → Prop where
  | nil : Steps B [] B
  | snoc (before : Steps B deeds B') (step : B'.Step deed B'') : Steps B (deeds ++ [deed]) B''

-- What deliverer and batch have to say of a job, by its status.
def Board.Agrees (B : Board) (j : Nat) (t : Errand) : Prop :=
  match t.status with
  | .pending => t.delivererId = none ∧ B.batch t.batchId = some ⟨none,.inProgress⟩
  | .assigned | .inProgress => ∃ d, t.delivererId = some d ∧ B.deliverer d = some (some j) ∧
      B.batch t.batchId = some ⟨some d,.inProgress⟩
  | .completed => ∃ d, B.batch t.batchId = some ⟨d,.completed⟩

structure Board.Agreed (B : Board) : Prop where
  unique : ∀ i j s t, B.job i = some s → B.job j = some t → s.batchId = t.batchId → i = j
  job : ∀ j t, B.job j = some t → B.Agrees j t
  holds : ∀ d j, B.deliverer d = some (some j) → ∃ t, B.job j = some t ∧ t.status.Active ∧ t.delivererId = some d
  idle : ∀ b k, B.batch b = some k → (∀ j t, B.job j = some t → t.batchId ≠ b) → k.delivererId = none

-- A recovery is fair when it takes the job from the one who holds it.
def Deed.Fair (B : Board) : Deed → Prop
  | .recovers j d b => ∀ t, B.job j = some t → t.status = .assigned → t.delivererId = some d ∧ t.batchId = b
  | _ => True

section Agreement
variable {B B' : Board}

theorem agrees_active {t : Errand} (active : t.status.Active) : B.Agrees j t ↔ ∃ d, t.delivererId = some d ∧
    B.deliverer d = some (some j) ∧ B.batch t.batchId = some ⟨some d,.inProgress⟩ := by
  unfold Board.Agrees
  rcases active with same | same <;> simp [same]

theorem agrees_closed {t : Errand} (agrees : B.Agrees j t) : ∃ k, B.batch t.batchId = some k ∧ k.status ≠ .pending := by
  unfold Board.Agrees at agrees
  split at agrees
  · exact ⟨_,agrees.2,by simp⟩
  · obtain ⟨d,_,_,at_batch⟩ := agrees
    exact ⟨_,at_batch,by simp⟩
  · obtain ⟨d,_,_,at_batch⟩ := agrees
    exact ⟨_,at_batch,by simp⟩
  · obtain ⟨d,at_batch⟩ := agrees
    exact ⟨_,at_batch,by simp⟩

-- Only its own batch and its own deliverer matter to a job.
theorem agrees_frame {t : Errand} (agrees : B.Agrees j t) (batch : B'.batch t.batchId = B.batch t.batchId)
    (deliverer : ∀ d, t.status.Active → t.delivererId = some d → B'.deliverer d = B.deliverer d) : B'.Agrees j t := by
  unfold Board.Agrees at agrees ⊢
  rw [batch]
  split at agrees
  · exact agrees
  · rename_i assigned
    obtain ⟨d,own,held,at_batch⟩ := agrees
    exact ⟨d,own,(deliverer d (.inl assigned) own).trans held,at_batch⟩
  · rename_i started
    obtain ⟨d,own,held,at_batch⟩ := agrees
    exact ⟨d,own,(deliverer d (.inr started) own).trans held,at_batch⟩
  · exact agrees

-- Two jobs that are under way have different deliverers.
theorem agreed_apart (agreed : B.Agreed) (at_i : B.job i = some s) (at_j : B.job j = some t) (active : s.status.Active)
    (active' : t.status.Active) (own : s.delivererId = some d) (own' : t.delivererId = some d) : i = j := by
  obtain ⟨e,same,held,_⟩ := (agrees_active active).mp (agreed.job i s at_i)
  obtain ⟨e',same',held',_⟩ := (agrees_active active').mp (agreed.job j t at_j)
  cases own.symm.trans same
  cases own'.symm.trans same'
  cases held.symm.trans held'
  rfl

-- A batch of which no job is there yet.
theorem agreed_batch (agreed : B.Agreed) (unused : ∀ j t, B.job j = some t → t.batchId ≠ b) (unclaimed : k.delivererId = none) :
    Board.Agreed {B with batch := Function.update B.batch b (some k)} := by
  refine ⟨agreed.unique,?_,agreed.holds,?_⟩
  · intro j t found
    exact agrees_frame (agreed.job j t found) (Function.update_of_ne (unused j t found) ..) fun _ _ _ => rfl
  · intro i k' found none
    rcases update_some found with ⟨_,same⟩ | ⟨_,before⟩
    · rw [same]; exact unclaimed
    · exact agreed.idle i k' before none

theorem agreed_pending (agreed : B.Agreed) (at_batch : B.batch b = some ⟨d,.pending⟩) : ∀ j t, B.job j = some t → t.batchId ≠ b := by
  intro j t found same
  obtain ⟨k,at_k,closed⟩ := agrees_closed (agreed.job j t found)
  rw [same,at_batch] at at_k
  cases at_k
  exact closed rfl

-- The job of a batch that nobody has claimed waits for a deliverer.
theorem agreed_waiting (agreed : B.Agreed) (found : B.job j = some t) (at_batch : B.batch t.batchId = some ⟨none,.inProgress⟩) :
    t.status = .pending := by
  have agrees := agreed.job j t found
  rcases t.status.cases_active with waiting | active | done
  · exact waiting
  · obtain ⟨d,_,_,claimed⟩ := (agrees_active active).mp agrees
    cases at_batch.symm.trans claimed
  · unfold Board.Agrees at agrees
    simp only [done,at_batch] at agrees
    obtain ⟨d,completed⟩ := agrees
    cases completed

theorem agreed_assigns (agreed : B.Agreed) (at_batch : B.batch b = some ⟨none,.inProgress⟩) (free : B.deliverer d = some none)
    (job : (∃ t, B.job j = some t ∧ t.batchId = b) ∨ (B.job j = none ∧ ∀ i t, B.job i = some t → t.batchId ≠ b)) :
    Board.Agreed {
      job := Function.update B.job j (some ⟨b,.assigned,some d⟩)
      batch := Function.update B.batch b (some ⟨some d,.inProgress⟩)
      deliverer := Function.update B.deliverer d (some (some j))} := by
  have others : ∀ i t, i ≠ j → B.job i = some t → t.batchId ≠ b := by
    intro i t other found same
    rcases job with ⟨old,at_j,batch⟩ | ⟨_,none⟩
    · exact other (agreed.unique i j t old found at_j (same.trans batch.symm))
    · exact none i t found same
  have unheld : ∀ i t, B.job i = some t → t.status.Active → t.delivererId ≠ some d := by
    intro i t found active own
    obtain ⟨e,same,held,_⟩ := (agrees_active active).mp (agreed.job i t found)
    cases own.symm.trans same
    cases free.symm.trans held
  refine ⟨?_,?_,?_,?_⟩
  · intro i i' s t at_i at_i' same
    rcases update_some at_i with ⟨rfl,rfl⟩ | ⟨apart,before⟩
    · rcases update_some at_i' with ⟨same',_⟩ | ⟨apart',before'⟩
      · exact same'.symm
      · exact absurd same.symm (others i' t apart' before')
    · rcases update_some at_i' with ⟨rfl,rfl⟩ | ⟨_,before'⟩
      · exact absurd same (others i s apart before)
      · exact agreed.unique i i' s t before before' same
  · intro i t found
    rcases update_some found with ⟨rfl,rfl⟩ | ⟨apart,before⟩
    · exact ⟨d,rfl,Function.update_self ..,Function.update_self ..⟩
    · refine agrees_frame (agreed.job i t before) (Function.update_of_ne (others i t apart before) ..) ?_
      intro e active own
      refine Function.update_of_ne ?_ ..
      rintro rfl
      exact unheld i t before active own
  · intro e i held
    rcases update_some held with ⟨rfl,same⟩ | ⟨_,before⟩
    · cases same
      exact ⟨_,Function.update_self ..,.inl rfl,rfl⟩
    · obtain ⟨t,at_i,active,own⟩ := agreed.holds e i before
      refine ⟨t,?_,active,own⟩
      refine (Function.update_of_ne ?_ ..).trans at_i
      rintro rfl
      rcases job with ⟨old,at_j,batch⟩ | ⟨none,_⟩
      · cases at_i.symm.trans at_j
        rw [← batch] at at_batch
        have waiting := agreed_waiting agreed at_i at_batch
        rw [waiting] at active
        rcases active with no | no <;> cases no
      · cases none.symm.trans at_i
  · intro b' k found none
    rcases update_some found with ⟨same,_⟩ | ⟨apart,before⟩
    · exact absurd same.symm (none j _ (Function.update_self ..))
    · refine agreed.idle b' k before fun i t at_i => ?_
      by_cases mine : i = j
      · subst mine
        rcases job with ⟨old,at_j,batch⟩ | ⟨free',_⟩
        · cases at_i.symm.trans at_j
          exact fun same => apart (same.symm.trans batch)
        · cases free'.symm.trans at_i
      · exact none i t ((Function.update_of_ne mine ..).trans at_i)

theorem agreed_starts (agreed : B.Agreed) (at_job : B.job j = some ⟨b,.assigned,some d⟩) :
    Board.Agreed {B with job := Function.update B.job j (some ⟨b,.inProgress,some d⟩)} := by
  have origin : ∀ i t, Function.update B.job j (some ⟨b,.inProgress,some d⟩) i = some t →
      ∃ old, B.job i = some old ∧ old.batchId = t.batchId := by
    intro i t found
    rcases update_some found with ⟨rfl,rfl⟩ | ⟨_,before⟩
    · exact ⟨_,at_job,rfl⟩
    · exact ⟨t,before,rfl⟩
  refine ⟨?_,?_,?_,?_⟩
  · intro i i' s t at_i at_i' same
    obtain ⟨old,before,batch⟩ := origin i s at_i
    obtain ⟨old',before',batch'⟩ := origin i' t at_i'
    exact agreed.unique i i' old old' before before' (batch.trans (same.trans batch'.symm))
  · intro i t found
    rcases update_some found with ⟨rfl,rfl⟩ | ⟨_,before⟩
    · exact agreed.job _ _ at_job
    · exact agreed.job i t before
  · intro e i held
    obtain ⟨t,at_i,active,own⟩ := agreed.holds e i held
    by_cases same : i = j
    · subst same
      cases at_i.symm.trans at_job
      exact ⟨_,Function.update_self ..,.inr rfl,own⟩
    · exact ⟨t,(Function.update_of_ne same ..).trans at_i,active,own⟩
  · intro b' k found none
    refine agreed.idle b' k found fun i t at_i => ?_
    by_cases same : i = j
    · subst same
      cases at_i.symm.trans at_job
      have moved := none i ⟨b,.inProgress,some d⟩ (Function.update_self ..)
      exact moved
    · exact none i t ((Function.update_of_ne same ..).trans at_i)

-- A job leaves the hands of its deliverer: it is done, or it waits again.
theorem agreed_ends (agreed : B.Agreed) (at_job : B.job j = some t) (active : t.status.Active) (own : t.delivererId = some d)
    (batch : new.batchId = t.batchId) (ended : (new.status = .completed ∧ k.status = .completed) ∨
      (new = ⟨t.batchId,.pending,none⟩ ∧ k = ⟨none,.inProgress⟩)) :
    Board.Agreed {
      job := Function.update B.job j (some new)
      batch := Function.update B.batch t.batchId (some k)
      deliverer := Function.update B.deliverer d (some none)} := by
  obtain ⟨d',same,held,_⟩ := (agrees_active active).mp (agreed.job j t at_job)
  cases own.symm.trans same
  have others : ∀ i s, i ≠ j → B.job i = some s → s.batchId ≠ t.batchId :=
    fun i s other found same => other (agreed.unique i j s t found at_job same)
  refine ⟨?_,?_,?_,?_⟩
  · intro i i' s s' at_i at_i' same
    rcases update_some at_i with ⟨rfl,rfl⟩ | ⟨apart,before⟩
    · rcases update_some at_i' with ⟨same',_⟩ | ⟨apart',before'⟩
      · exact same'.symm
      · exact absurd (same.symm.trans batch) (others i' s' apart' before')
    · rcases update_some at_i' with ⟨rfl,rfl⟩ | ⟨_,before'⟩
      · exact absurd (same.trans batch) (others i s apart before)
      · exact agreed.unique i i' s s' before before' same
  · intro i s found
    rcases update_some found with ⟨rfl,rfl⟩ | ⟨apart,before⟩
    · rcases ended with ⟨done,shut⟩ | ⟨rfl,rfl⟩
      · unfold Board.Agrees
        simp only [done,batch]
        refine ⟨k.delivererId,(Function.update_self ..).trans ?_⟩
        rw [← shut]
      · exact ⟨rfl,Function.update_self ..⟩
    · refine agrees_frame (agreed.job i s before) (Function.update_of_ne (others i s apart before) ..) ?_
      intro e running mine
      refine Function.update_of_ne ?_ ..
      rintro rfl
      exact apart (agreed_apart agreed before at_job running active mine own)
  · intro e i holding
    rcases update_some holding with ⟨_,no⟩ | ⟨apart,before⟩
    · cases no
    · obtain ⟨s,at_i,running,mine⟩ := agreed.holds e i before
      refine ⟨s,(Function.update_of_ne ?_ ..).trans at_i,running,mine⟩
      rintro rfl
      cases at_i.symm.trans at_job
      cases mine.symm.trans own
      exact apart rfl
  · intro b k' found none
    rcases update_some found with ⟨rfl,_⟩ | ⟨apart,before⟩
    · exact absurd batch (none j new (Function.update_self ..))
    · refine agreed.idle b k' before fun i s at_i => ?_
      by_cases same : i = j
      · subst same
        cases at_i.symm.trans at_job
        exact fun equal => apart equal.symm
      · exact none i s ((Function.update_of_ne same ..).trans at_i)

theorem agreed_hires (agreed : B.Agreed) (fresh : B.deliverer d = none) :
    Board.Agreed {B with deliverer := Function.update B.deliverer d (some none)} := by
  have other : ∀ e j, B.deliverer e = some (some j) → e ≠ d := by
    rintro e j held rfl
    cases fresh.symm.trans held
  refine ⟨agreed.unique,?_,?_,agreed.idle⟩
  · intro j t found
    refine agrees_frame (agreed.job j t found) rfl ?_
    intro e active own
    obtain ⟨e',same,held,_⟩ := (agrees_active active).mp (agreed.job j t found)
    cases own.symm.trans same
    exact Function.update_of_ne (other e j held) ..
  · intro e j held
    rcases update_some held with ⟨_,no⟩ | ⟨_,before⟩
    · cases no
    · exact agreed.holds e j before

theorem agreed_step (agreed : B.Agreed) (step : B.Step deed B') (fair : deed.Fair B) : B'.Agreed := by
  cases step with
  | opens fresh =>
    refine agreed_batch agreed (fun j t found same => ?_) rfl
    obtain ⟨k,at_k,_⟩ := agrees_closed (agreed.job j t found)
    rw [same,fresh] at at_k
    cases at_k
  | closes at_batch =>
    have unused := agreed_pending agreed at_batch
    have unclaimed := agreed.idle _ _ at_batch unused
    exact agreed_batch agreed unused unclaimed
  | assigns at_batch free job => exact agreed_assigns agreed at_batch free job
  | starts at_job => exact agreed_starts agreed at_job
  | finishes at_job at_batch _ => exact agreed_ends agreed at_job (.inr rfl) rfl rfl (.inl ⟨rfl,rfl⟩)
  | recovers at_job at_batch _ =>
    obtain ⟨own,same⟩ := fair _ at_job rfl
    dsimp only at own same
    subst own same
    exact agreed_ends agreed at_job (.inl rfl) rfl rfl (.inr ⟨rfl,rfl⟩)
  | hires fresh => exact agreed_hires agreed fresh
  | nothing => exact agreed

end Agreement

def DeliveryJob.errand (job : DeliveryJob) : Errand := ⟨job.batchId,job.status,job.delivererId⟩

def DeliveryBatch.load (k : DeliveryBatch) : Load := ⟨k.delivererId,k.status⟩

def Dispatch.board (c : Dispatch) : Board where
  job j := (c.job j).map DeliveryJob.errand
  batch b := (c.batch b).map DeliveryBatch.load
  deliverer d := (c.deliverer d).map DelivererProfile.activeJobId

section Rows
variable {c : Dispatch}

theorem board_job (found : c.job j = some job) : c.board.job j = some job.errand := by simp [Dispatch.board,found]

theorem board_batch (found : c.batch b = some k) : c.board.batch b = some k.load := by simp [Dispatch.board,found]

theorem board_deliverer (found : c.deliverer d = some p) : c.board.deliverer d = some p.activeJobId := by
  simp [Dispatch.board,found]

theorem board_jobs (free : ∀ i job, c.job i = some job → job.batchId ≠ b) (found : c.board.job j = some t) : t.batchId ≠ b := by
  obtain ⟨job,at_job,same⟩ := Option.map_eq_some_iff.mp found
  rw [← same]
  exact free j job at_job

theorem jobs_agreed (agreed : c.board.Agreed) : Jobs c := by
  refine ⟨?_,fun i j s t at_i at_j same => agreed.unique i j _ _ (board_job at_i) (board_job at_j) same⟩
  intro j job found
  obtain ⟨k,at_batch,closed⟩ := agrees_closed (agreed.job j _ (board_job found))
  obtain ⟨row,at_row,same⟩ := Option.map_eq_some_iff.mp at_batch
  refine ⟨row,at_row,?_⟩
  rw [← same] at closed
  exact closed

-- Where the board agrees, the rows do.
theorem held_agreed (agreed : c.board.Agreed) : Held c := by
  have loaded : ∀ b d s, c.board.batch b = some ⟨d,s⟩ → ∃ k, c.batch b = some k ∧ k.delivererId = d ∧ k.status = s := by
    intro b d s found
    obtain ⟨k,at_batch,same⟩ := Option.map_eq_some_iff.mp found
    cases same
    exact ⟨k,at_batch,rfl,rfl⟩
  refine ⟨?_,?_,?_,?_,?_⟩
  · intro d p j found holding
    obtain ⟨t,at_j,active,own⟩ := agreed.holds d j ((board_deliverer found).trans (by rw [holding]))
    obtain ⟨job,at_job,same⟩ := Option.map_eq_some_iff.mp at_j
    cases same
    exact ⟨job,at_job,active,own⟩
  · intro j job found active
    obtain ⟨d,own,held,at_batch⟩ := (agrees_active (t := job.errand) active).mp (agreed.job j _ (board_job found))
    obtain ⟨p,at_deliverer,holding⟩ := Option.map_eq_some_iff.mp held
    obtain ⟨k,at_k,claimed,status⟩ := loaded _ _ _ at_batch
    exact ⟨d,p,k,own,at_deliverer,holding,at_k,claimed,status⟩
  · intro j job found waiting
    have agrees := agreed.job j _ (board_job found)
    simp only [Board.Agrees,DeliveryJob.errand,waiting] at agrees
    exact ⟨agrees.1,loaded _ _ _ agrees.2⟩
  · intro j job found done
    have agrees := agreed.job j _ (board_job found)
    simp only [Board.Agrees,DeliveryJob.errand,done] at agrees
    obtain ⟨d,at_batch⟩ := agrees
    obtain ⟨k,at_k,_,status⟩ := loaded _ _ _ at_batch
    exact ⟨k,at_k,status⟩
  · intro b k found free
    exact agreed.idle b _ (board_batch found) fun j t at_j => board_jobs free at_j

theorem exclusive_agreed (agreed : c.board.Agreed) : Exclusive c := exclusive_of_held (jobs_agreed agreed) (held_agreed agreed)

end Rows
end MesyafMarket
