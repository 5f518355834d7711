import MesyafMarket.Dispatch.Held

namespace MesyafMarket
open Relational OrderService DelivererAssignmentService DelivererJobService DelivererRecoveryService

-- Assignment is exclusive: deliverer, job and batch tell the same story.
structure Exclusive (c : Dispatch) : Prop where
  holder : ∀ d p j, c.deliverer d = some p →
    (p.activeJobId = some j ↔ ∃ job, c.job j = some job ∧ job.status.Active ∧ job.delivererId = some d)
  known : ∀ j job, c.job j = some job → job.status.Active → ∃ d p, job.delivererId = some d ∧ c.deliverer d = some p
  unshared : ∀ d e p q j, c.deliverer d = some p → c.deliverer e = some q → p.activeJobId = some j →
    q.activeJobId = some j → d = e
  single : ∀ i j a b d, c.job i = some a → c.job j = some b → a.status.Active → b.status.Active →
    a.delivererId = some d → b.delivererId = some d → i = j
  oneJob : ∀ i j a b, c.job i = some a → c.job j = some b → a.batchId = b.batchId → i = j
  claimed : ∀ b k d, c.batch b = some k → k.status = .inProgress →
    (k.delivererId = some d ↔ ∃ j job, c.job j = some job ∧ job.batchId = b ∧ job.status.Active ∧
      job.delivererId = some d)
  unclaimed : ∀ b k, c.batch b = some k → k.status = .inProgress →
    (k.delivererId = none ↔ (∀ j job, c.job j = some job → job.batchId ≠ b) ∨
      ∃ j job, c.job j = some job ∧ job.batchId = b ∧ job.status = .pending ∧ job.delivererId = none)

theorem exclusive_of_held (jobs : Jobs c) (held : Held c) : Exclusive c := by
  have single : ∀ i j a b d, c.job i = some a → c.job j = some b → a.status.Active → b.status.Active →
      a.delivererId = some d → b.delivererId = some d → i = j := by
    intro i j a b d atI atJ activeI activeJ ownI ownJ
    obtain ⟨d₁,p₁,_,own₁,at₁,holds₁,_⟩ := held.active i a atI activeI
    obtain ⟨d₂,p₂,_,own₂,at₂,holds₂,_⟩ := held.active j b atJ activeJ
    rw [ownI] at own₁
    rw [ownJ] at own₂
    cases own₁
    cases own₂
    rw [at₁] at at₂
    cases at₂
    rw [holds₁] at holds₂
    cases holds₂
    rfl
  -- The job of a closed batch decides whether the batch is claimed, and by whom.
  have byJob : ∀ j job k, c.job j = some job → c.batch job.batchId = some k → k.status = .inProgress →
      (job.status = .pending ∧ job.delivererId = none ∧ k.delivererId = none) ∨
      (job.status.Active ∧ ∃ d, job.delivererId = some d ∧ k.delivererId = some d) := by
    intro j job k found at_batch open_
    rcases job.status.cases_active with waiting | active | done
    · obtain ⟨none,k',at_k,unclaimed,_⟩ := held.pending j job found waiting
      rw [at_batch] at at_k
      cases at_k
      exact .inl ⟨waiting,none,unclaimed⟩
    · obtain ⟨d,_,k',own,_,_,at_k,claimed,_⟩ := held.active j job found active
      rw [at_batch] at at_k
      cases at_k
      exact .inr ⟨active,d,own,claimed⟩
    · obtain ⟨k',at_k,ended⟩ := held.completed j job found done
      rw [at_batch] at at_k
      cases at_k
      rw [open_] at ended; cases ended
  refine ⟨?_,?_,?_,single,jobs.unique,?_,?_⟩
  · intro d p j found
    constructor
    · exact held.holds d p j found
    · rintro ⟨job,at_job,active,own⟩
      obtain ⟨d',p',_,own',at_d,holds,_⟩ := held.active j job at_job active
      rw [own] at own'
      cases own'
      rw [found] at at_d
      cases at_d
      exact holds
  · intro j job found active
    obtain ⟨d,p,_,own,at_d,_⟩ := held.active j job found active
    exact ⟨d,p,own,at_d⟩
  · intro d e p q j atD atE holdsD holdsE
    obtain ⟨job,at_job,_,own⟩ := held.holds d p j atD holdsD
    obtain ⟨job',at_job',_,own'⟩ := held.holds e q j atE holdsE
    rw [at_job] at at_job'
    cases at_job'
    rw [own] at own'
    cases own'
    rfl
  · intro b k d at_batch open_
    constructor
    · intro claimed
      have some : ¬∀ j job, c.job j = some job → job.batchId ≠ b := by
        intro none
        rw [held.idle b k at_batch none] at claimed; cases claimed
      simp only [not_forall] at some
      obtain ⟨j,job,found,same⟩ := some
      obtain rfl := Classical.not_not.mp same
      rcases byJob j job k found at_batch open_ with ⟨_,_,unclaimed⟩ | ⟨active,e,own,claimed'⟩
      · rw [unclaimed] at claimed; cases claimed
      · rw [claimed] at claimed'
        cases claimed'
        exact ⟨j,job,found,rfl,active,own⟩
    · rintro ⟨j,job,found,rfl,active,own⟩
      rcases byJob j job k found at_batch open_ with ⟨waiting,_⟩ | ⟨_,e,own',claimed⟩
      · exact absurd waiting (active_not_pending active)
      · rw [own] at own'
        cases own'
        exact claimed
  · intro b k at_batch open_
    constructor
    · intro unclaimed
      by_cases none : ∀ j job, c.job j = some job → job.batchId ≠ b
      · exact .inl none
      · simp only [not_forall] at none
        obtain ⟨j,job,found,same⟩ := none
        obtain rfl := Classical.not_not.mp same
        rcases byJob j job k found at_batch open_ with ⟨waiting,nobody,_⟩ | ⟨_,e,_,claimed⟩
        · exact .inr ⟨j,job,found,rfl,waiting,nobody⟩
        · rw [unclaimed] at claimed; cases claimed
    · rintro (none | ⟨j,job,found,rfl,waiting,_⟩)
      · exact held.idle b k at_batch none
      · rcases byJob j job k found at_batch open_ with ⟨_,_,unclaimed⟩ | ⟨active,_⟩
        · exact unclaimed
        · exact absurd waiting (active_not_pending active)

-- A sweep that still has a deliverer to handle knows that, whatever others have
-- done since its snapshot, the job there is not waiting, and if it has not been
-- started then that deliverer holds it.
def StillHolds (s : StaleDeliverer) (c : Dispatch) : Prop :=
  ∀ job, s.job = some job → ∃ new, c.job s.jobId = some new ∧ new.batchId = job.batchId ∧
    new.status ≠ .pending ∧ (new.status = .assigned → new.delivererId = some s.id)

def stillHolds : LocalFacts := ⟨fun s _ c => StillHolds s c,fun _ _ _ => True,fun _ _ => True⟩

theorem snapshot_held {env : Env} {v : Database} (held : Held (dispatch v)) (member : s ∈ staleDeliverers env v) :
    StillHolds s (dispatch v) := by
  obtain ⟨p,u,at_deliverer,active,_,_,_,_,same⟩ := staleDeliverer_parts member
  obtain ⟨job,at_job,running,own⟩ := held.holds _ _ _ at_deliverer active
  intro job' snapshot
  rw [same,at_job] at snapshot
  cases snapshot
  exact ⟨job,at_job,rfl,active_not_pending running,fun _ => own⟩

-- The recovery that a process is about to commit concerns the holder it saw.
theorem recovers_of_pending (formed : x.Formed) (known : ∀ s ∈ x.pending, StillHolds s c) : RecoversHolder x c := by
  rintro s snapshot rest rfl job found unstarted
  obtain ⟨seen,_⟩ := formed
  obtain ⟨new,at_job,same,_,own⟩ := known s List.mem_cons_self snapshot seen
  rw [found] at at_job
  cases at_job
  exact ⟨own unstarted,same⟩

-- No commit of another process, and no later commit of the same sweep, spoils
-- what a sweep knows about a deliverer it has still to handle.
theorem stillHolds_commit (held : Held c) (commit : Committed now x c y c') (known : StillHolds s c)
    (other : ∀ s₀ snapshot rest, x = .recoverUnstartedJob s₀ snapshot rest →
      s₀.id ≠ s.id ∧ s₀.job = some snapshot ∧ StillHolds s₀ c)
    (kept : ∀ userId, x ≠ .deleteProfile userId) : StillHolds s c' := by
  intro job snapshot
  obtain ⟨new,found,same,started,own⟩ := known job snapshot
  have still : ∃ later, c.job s.jobId = some later ∧ later.batchId = job.batchId ∧ later.status ≠ .pending ∧
      (later.status = .assigned → later.delivererId = some s.id) := ⟨new,found,same,started,own⟩
  have changed : ∀ j old v, c.job j = some old → v.batchId = old.batchId → v.status ≠ .pending →
      v.status ≠ .assigned → ∃ later, Function.update c.job j (some v) s.jobId = some later ∧
        later.batchId = job.batchId ∧ later.status ≠ .pending ∧
        (later.status = .assigned → later.delivererId = some s.id) := by
    intro j old v at_job sameBatch notPending notAssigned
    by_cases hit : s.jobId = j
    · rw [hit] at found ⊢
      rw [found] at at_job
      cases at_job
      exact ⟨v,Function.update_self ..,sameBatch.trans same,notPending,fun h => absurd h notAssigned⟩
    · rw [Function.update_of_ne hit]; exact still
  cases commit with
  | assign at_batch unclaimed closed at_deliverer available free only first fresh =>
    dsimp only [Dispatch.assign]
    rw [Function.update_apply]
    split
    · -- The job of an unclaimed batch is waiting, this one is not.
      rename_i hit
      rcases first with ⟨old,at_job,sameBatch⟩ | ⟨none,_⟩
      · rw [← hit,found] at at_job
        cases at_job
        exact absurd (unclaimed_job held found (by rw [sameBatch]; exact at_batch) unclaimed closed) started
      · rw [← hit,found] at none; cases none
    · exact still
  | startJob at_job => exact changed _ _ _ at_job rfl nofun nofun
  | completeLast at_job => exact changed _ _ _ at_job rfl nofun nofun
  | completeJob at_job => exact changed _ _ _ at_job rfl nofun nofun
  | recoverUnstartedJob at_deliverer at_job unstarted at_batch =>
    dsimp only [Dispatch.recover]
    rw [Function.update_apply]
    split
    · -- Two deliverers of one snapshot do not hold the same job.
      rename_i hit
      obtain ⟨apart,seen,known₀⟩ := other _ _ _ rfl
      obtain ⟨new₀,at₀,_,_,own₀⟩ := known₀ _ seen
      rw [hit,at_job] at found
      cases found
      rw [at_job] at at₀
      cases at₀
      exact absurd (Option.some.inj ((own₀ unstarted).symm.trans (own unstarted))) apart
    · exact still
  | deleteProfile => exact absurd rfl (kept _)
  | _ => exact still

-- Any requests and timers in any order, sweeps one after another, no removal.
def Excluding (w : Market) (m : MarketMove) : Prop := Admitted w m ∧ Apart w m ∧ Unremoved w m

def OneSweep (w : Market) : Prop :=
  (∀ p q, Sweeping w p → Sweeping w q → p = q) ∧ ∀ p x, w.threads p = some x → x.kind ≠ .removal

theorem kept_exclusive (env : Env) :
    Kept env (fun c => Jobs c ∧ Held c) stillHolds fun w m => Excluding w m ∧ OneSweep w where
  admitted _ _ allowed := allowed.1.1
  later _ _ _ _ known := known
  snapshot _ _ valid member := snapshot_held valid.2 member
  read _ _ _ := trivial
  available _ _ _ := trivial
  commit w p i x y c valid found allowed hit commit := by
    have known := valid.fact p x found
    refine ⟨jobs_commit valid.inv.1 commit,held_commit valid.inv.1 valid.inv.2 commit ?_ ?_⟩
    · exact recovers_of_pending known.formed known.stale
    · rintro userId rfl
      exact allowed.2.2 p _ found rfl
  stale w p i x y c valid found allowed hit commit q z s atQ member own known := by
    refine stillHolds_commit valid.inv.2 commit known ?_ ?_
    · rintro s₀ snapshot rest rfl
      -- Only one sweep runs, so `s` waits in the list of the sweep that recovers `s₀`.
      have later := own (allowed.2.1 q p ⟨z,atQ,pending_sweep z member⟩ ⟨_,found,rfl⟩)
      have facts := valid.fact p _ found
      have nodup := facts.apart
      cases commit
      simp only [Proc.pending,List.map_cons,List.nodup_cons] at nodup
      exact ⟨fun equal => nodup.1 (equal ▸ List.mem_map_of_mem later),facts.formed.1,facts.stale s₀ List.mem_cons_self⟩
    · rintro userId rfl
      exact allowed.2.2 p _ found rfl
  orders _ _ _ _ _ _ _ _ _ _ _ _ _ _ := trivial
  candidate _ _ _ _ _ _ _ _ _ _ _ _ _ := trivial

theorem excluding_one {env : Env} (opening : Opening start) (path : Reached (market env) Excluding start w) :
    Reached (market env) (fun w m => Excluding w m ∧ OneSweep w) start w :=
  reached_knowing (fun _ prior => ⟨one_sweep (fun _ _ allowed => allowed.2.1) (fun _ _ allowed => allowed.1) opening prior,
    no_removal (fun _ _ allowed => allowed.2.2) (fun _ _ allowed => allowed.1) opening prior⟩) path

theorem exclusive_holds {env : Env} (opening : Opening start) (path : Reached (market env) Excluding start w) :
    Market.Holds (fun c => Jobs c ∧ Held c) stillHolds w :=
  kept_reached (kept_exclusive env) opening ⟨opening_jobs opening,opening_held opening⟩ (excluding_one opening path)

-- Assignment exclusivity, in every state of every such run.
theorem assignment_exclusive {env : Env} (opening : Opening start)
    (path : Reached (market env) Excluding start w) : Exclusive (dispatch w.db) :=
  exclusive_of_held (exclusive_holds opening path).inv.1 (exclusive_holds opening path).inv.2

theorem assignment_exclusive_dispatched :
    Exclusive (dispatch (morning.run (market village) dispatched).db) :=
  assignment_exclusive opening_morning <| reached_moves .refl dispatched <|
    dispatched_moves (fun _ _ _ => ⟨trivial,trivial,trivial⟩) (fun _ _ => ⟨trivial,trivial,trivial⟩)
      (fun _ _ _ _ => ⟨.createOrder,trivial,trivial⟩) fun _ _ _ => ⟨.vendorMarkReady,trivial,trivial⟩

end MesyafMarket
