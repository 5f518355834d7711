import MesyafMarket.Exclusivity
import MesyafMarket.VendorDecision

namespace MesyafMarket
open Relational OrderService DelivererAssignmentService DelivererJobService DelivererRecoveryService
open VendorService

-- What the three sweep filters rely on beyond the agreement of deliverer, job and
-- batch.
structure Coverage (c : Dispatch) : Prop where
  handed : ∀ j job i o, c.job j = some job → job.status ≠ .pending → c.order i = some o →
    o.deliveryBatchId = some job.batchId → o.deliveryJobId = some j
  finished : ∀ i o b k, c.order i = some o → o.deliveryBatchId = some b → c.batch b = some k →
    k.status = .completed → o.status = .completed
  phase : ∀ b k, c.batch b = some k → k.status ≠ .assigned
  seen : ∀ d p j, c.deliverer d = some p → p.activeJobId = some j →
    ∃ u, c.user p.userId = some u ∧ u.lastSeenAt ≠ none

-- A deliverer who may be chosen has been seen.
def Candidate (d : Nat) (c : Dispatch) : Prop :=
  ∃ p u, c.deliverer d = some p ∧ c.user p.userId = some u ∧ u.lastSeenAt ≠ none

theorem candidate_read {env : Env} {v : Database} (member : d ∈ availableDeliverers env v) :
    Candidate d.1 (dispatch v) := by
  unfold availableDeliverers at member
  obtain ⟨found,free⟩ := v.mem_matching.mp ((env.scan_perm v _).mem_iff.mp member)
  unfold isCandidate at free
  simp only [Bool.and_eq_true] at free
  obtain ⟨_,known⟩ := free
  split at known
  · rename_i u at_user
    simp only [Bool.and_eq_true] at known
    obtain ⟨_,recent⟩ := known
    split at recent
    · rename_i seen last
      exact ⟨d.2,u,found,at_user,by rw [last]; exact nofun⟩
    · cases recent
  · cases known

theorem candidate_commit (known : Candidate d c) (commit : Committed now x c y c')
    (kept : ∀ userId, x ≠ .deleteProfile userId) : Candidate d c' := by
  obtain ⟨p,u,at_deliverer,at_user,seen⟩ := known
  obtain ⟨p',after,user⟩ := deliverer_kept commit kept at_deliverer
  obtain ⟨u',later,same | ⟨_,marked⟩⟩ := user_kept commit at_user
  · exact ⟨p',u',after,by rw [user]; exact later,by rw [same]; exact seen⟩
  · exact ⟨p',u',after,by rw [user]; exact later,by rw [marked]; exact nofun⟩

-- An assignment hands over every order that is in the batch by then.
theorem assign_reaches (commit : Committed now (.assign b orders d caller) c y c') (found : c'.order i = some o')
    (part : o'.deliveryBatchId = some b) :
    ∃ j job, o'.deliveryJobId = some j ∧ c'.job j = some job ∧ job.batchId = b := by
  cases commit with
  | assign =>
    dsimp only [Dispatch.assign] at found ⊢
    obtain ⟨o,before,same⟩ := rewritten_some found
    rw [same] at part ⊢
    split
    · exact ⟨_,_,rfl,Function.update_self ..,rfl⟩
    · rename_i missed
      rw [if_neg missed] at part
      exact absurd (decide_eq_true part) missed

-- A batch is completed with its job, whose orders are then all completed.
theorem finish_reaches (commit : Committed now x c y c') (found : c'.batch b = some k) (ended : k.status = .completed) :
    (∃ old, c.batch b = some old ∧ old.status = .completed) ∨
    ∃ j job, c'.job j = some job ∧ job.batchId = b ∧ job.status = .completed ∧
      ∀ i o, c'.order i = some o → o.deliveryJobId = some j → o.status = .completed := by
  have delivers : ∀ (order : Nat → Option Order) j i o, rewritten (fun _ (o : Order) => o.deliveryJobId = some j ∧
      o.status ≠ .completed) (delivered now) order i = some o → o.deliveryJobId = some j → o.status = .completed := by
    intro order j i o found part
    obtain ⟨old,_,same⟩ := rewritten_some found
    rw [same] at part ⊢
    split
    · rfl
    · rename_i missed
      rw [if_neg missed] at part
      by_contra other
      exact missed (decide_eq_true ⟨part,other⟩)
  have other : ∀ i new, Function.update c.batch i (some new) b = some k → new.status ≠ .completed →
      ∃ old, c.batch b = some old ∧ old.status = .completed := by
    intro i new found open_
    rcases update_some found with ⟨_,same⟩ | ⟨_,before⟩
    · rw [same] at ended; exact absurd ended open_
    · exact ⟨k,before,ended⟩
  cases commit with
  | openBatch => exact .inl (other _ _ found nofun)
  | closeBatch => exact .inl (other _ _ found nofun)
  | assign _ _ closed => exact .inl (other _ _ found (by dsimp only; rw [closed]; exact nofun))
  | completeLast =>
    rcases update_some found with ⟨same,_⟩ | ⟨_,before⟩
    · exact .inr ⟨_,_,Function.update_self ..,same.symm,rfl,fun i o => delivers _ _ i o⟩
    · exact .inl ⟨k,before,ended⟩
  | completeJob =>
    rcases update_some found with ⟨same,_⟩ | ⟨_,before⟩
    · exact .inr ⟨_,_,Function.update_self ..,same.symm,rfl,fun i o => delivers _ _ i o⟩
    · exact .inl ⟨k,before,ended⟩
  | recoverUnstartedJob => exact .inl (other _ _ found nofun)
  | deleteProfile =>
    rw [Dispatch.forget_batch] at found
    obtain ⟨old,before,same⟩ := rewritten_some found
    refine .inl ⟨old,before,?_⟩
    rw [same] at ended
    split at ended <;> exact ended
  | _ => exact .inl ⟨k,found,ended⟩

-- A deliverer with a job had it before, or has just been chosen.
theorem holder_origin (commit : Committed now x c y c') (found : c'.deliverer d = some p') (holds : p'.activeJobId = some j) :
    ∃ p, c.deliverer d = some p ∧ p.userId = p'.userId ∧
      (p.activeJobId = some j ∨ ∃ b orders caller, x = .assign b orders d caller) := by
  have changed : ∀ i old new, Function.update c.deliverer i (some new) d = some p' → c.deliverer i = some old →
      new.userId = old.userId → (new.activeJobId = none ∨ new.activeJobId = old.activeJobId) →
      ∃ p, c.deliverer d = some p ∧ p.userId = p'.userId ∧
        (p.activeJobId = some j ∨ ∃ b orders caller, x = .assign b orders d caller) := by
    intro i old new found at_i user active
    rcases update_some found with ⟨hit,same⟩ | ⟨_,before⟩
    · subst hit
      subst same
      rcases active with none | kept
      · rw [none] at holds; cases holds
      · exact ⟨old,at_i,user.symm,.inl (kept.symm.trans holds)⟩
    · exact ⟨p',before,rfl,.inl holds⟩
  cases commit with
  | assign _ _ _ at_deliverer =>
    rcases update_some found with ⟨hit,same⟩ | ⟨_,before⟩
    · subst hit
      subst same
      exact ⟨_,at_deliverer,rfl,.inr ⟨_,_,_,rfl⟩⟩
    · exact ⟨p',before,rfl,.inl holds⟩
  | completeLast _ _ _ _ _ _ _ _ at_deliverer => exact changed _ _ _ found at_deliverer rfl (.inl rfl)
  | completeJob _ _ _ _ at_deliverer => exact changed _ _ _ found at_deliverer rfl (.inl rfl)
  | writeLocation at_deliverer => exact changed _ _ _ found at_deliverer rfl (.inr rfl)
  | recoverUnstartedJob at_deliverer => exact changed _ _ _ found at_deliverer rfl (.inl rfl)
  | writeProfile =>
    dsimp only at found
    obtain ⟨p,before,same⟩ := rewritten_some found
    refine ⟨p,before,?_⟩
    rw [same] at holds ⊢
    split at holds <;> rename_i hit <;> simp only [hit] <;> exact ⟨rfl,.inl holds⟩
  | deleteProfile =>
    rw [Dispatch.forget_deliverer] at found
    exact ⟨p',(removed_some.mp found).1,rfl,.inl holds⟩
  | createProfile =>
    rcases update_some found with ⟨_,same⟩ | ⟨_,before⟩
    · rw [same] at holds; cases holds
    · exact ⟨p',before,rfl,.inl holds⟩
  | _ => exact ⟨p',found,rfl,.inl holds⟩

section Preservation
variable {c c' : Dispatch}

theorem handed_commit (jobs : Jobs c) (covers : Coverage c) (commit : Committed now x c y c')
    (at_job : c'.job j = some job) (taken : job.status ≠ .pending) (found : c'.order i = some o')
    (part : o'.deliveryBatchId = some job.batchId) : o'.deliveryJobId = some j := by
  have unique := (jobs_commit jobs commit).unique
  -- The job was not waiting before, or it is being assigned.
  have jobChange := job_change commit at_job
  have orderChange := order_change commit found
  generalize job₀ : c.job j = priorJob at jobChange
  generalize order₀ : c.order i = priorOrder at orderChange
  have earlier : (∃ old, c.job j = some old ∧ old.batchId = job.batchId ∧ old.status ≠ .pending) ∨
      ∃ b orders d caller, x = .assign b orders d caller ∧ job.batchId = b := by
    cases jobChange with
    | kept => exact .inl ⟨job,job₀,rfl,taken⟩
    | assigned => exact .inr ⟨_,_,_,_,rfl,rfl⟩
    | started _ ready => exact .inl ⟨_,job₀,rfl,by rw [ready]; exact nofun⟩
    | completed started => exact .inl ⟨_,job₀,rfl,by rw [started]; exact nofun⟩
    | recovered => exact absurd rfl taken
    | forgotten => exact .inl ⟨_,job₀,rfl,taken⟩
  rcases earlier with ⟨old,before,batch,active⟩ | ⟨b,orders,d,caller,same,batch⟩
  · have kept : ∀ o, c.order i = some o → o.deliveryBatchId = some job.batchId → o.deliveryJobId = some j := by
      intro o at_order inBatch
      exact covers.handed j old i o before active at_order (by rw [batch]; exact inBatch)
    cases orderChange with
    | placed => cases part
    | readied _ at_batch pending =>
      -- Nobody joins a batch that has a job.
      cases part
      obtain ⟨k,at_k,closed⟩ := jobs.closed j old before
      obtain ⟨k',after,still⟩ := batch_kept commit at_k
      rw [batch,at_batch] at after
      cases after
      exact absurd pending (still closed)
    | handed _ _ _ at_its same _ inBatch =>
      have one := Option.some.inj (inBatch.symm.trans part)
      exact congrArg some (unique _ _ _ _ at_its at_job (same.trans one))
    | released _ _ inJob after =>
      have own := kept _ order₀ part
      rw [inJob] at own
      rw [Option.some.inj own,at_job] at after
      cases after
      exact absurd rfl taken
    | _ =>
      have own := kept _ order₀ part
      exact own
  · subst same
    obtain ⟨j',job',own,at_its,its⟩ := assign_reaches commit found (by rw [part,batch])
    rw [own,unique _ _ _ _ at_its at_job (its.trans batch.symm)]

theorem finished_commit (jobs : Jobs c) (held : Held c) (members : Members c) (covers : Coverage c)
    (commit : Committed now x c y c') (decides : DecidesPending x c) (found : c'.order i = some o')
    (part : o'.deliveryBatchId = some b) (at_batch : c'.batch b = some k) (ended : k.status = .completed) :
    o'.status = .completed := by
  rcases finish_reaches commit at_batch ended with ⟨old,before,done⟩ | ⟨j,job,at_job,batch,phase,delivers⟩
  · -- The batch was completed before, and no order of it can move any more.
    have finished : ∀ o, c.order i = some o → o.deliveryBatchId = some b → o.status = .completed :=
      fun o at_order inBatch => covers.finished i o b old at_order inBatch before done
    have running : ∀ o j job, c.order i = some o → o.deliveryJobId = some j → c.job j = some job →
        job.status = .assigned → o.deliveryBatchId ≠ some b := by
      intro o j job at_order inJob at_job ready inBatch
      obtain ⟨its,at_its,same⟩ := members.job i o j at_order inJob
      rw [at_job] at at_its
      cases at_its
      rw [inBatch] at same
      cases same
      obtain ⟨_,_,k',_,_,_,at_k,_,open_⟩ := held.active j job at_job (.inl ready)
      rw [before] at at_k
      cases at_k
      rw [done] at open_; cases open_
    have change := order_change commit found
    generalize order₀ : c.order i = prior at change
    cases change with
    | kept => exact finished _ order₀ part
    | placed => cases part
    | readied _ at_its pending =>
      cases part
      rw [at_batch] at at_its
      cases at_its
      rw [ended] at pending; cases pending
    | decided =>
      have pending := decides _ _ _ _ rfl order₀
      have done := finished _ order₀ part
      rw [pending] at done; cases done
    | handed at_its _ closed _ _ _ inBatch =>
      have one := Option.some.inj (inBatch.symm.trans part)
      rw [one,before] at at_its
      cases at_its
      rw [done] at closed; cases closed
    | underway at_its ready inJob =>
      have other := running _ _ _ order₀ inJob at_its ready
      exact absurd part other
    | dropped => rfl
    | finished => rfl
    | released at_its ready inJob =>
      have other := running _ _ _ order₀ inJob at_its ready
      exact absurd part other
    | forgotten =>
      have done := finished _ order₀ part
      exact done
  · refine delivers i o' found ?_
    exact handed_commit jobs covers commit at_job (by rw [phase]; exact nofun) found (by rw [part,batch])

theorem coverage_commit (jobs : Jobs c) (held : Held c) (members : Members c) (covers : Coverage c)
    (commit : Committed now x c y c') (decides : DecidesPending x c) (kept : ∀ userId, x ≠ .deleteProfile userId)
    (chosen : ∀ d ∈ x.considered, Candidate d c) : Coverage c' := by
  refine ⟨fun j job i o => handed_commit jobs covers commit,
    fun i o b k => finished_commit jobs held members covers commit decides,?_,?_⟩
  · intro b k found
    have change := batch_change commit found
    generalize before : c.batch b = prior at change
    cases change with
    | kept => exact covers.phase b k before
    | claimed => have phase := covers.phase b _ before; exact phase
    | forgotten => have phase := covers.phase b _ before; exact phase
    | _ => exact nofun
  · intro d p' j found holds
    have chosen : ∃ p u, c.deliverer d = some p ∧ p.userId = p'.userId ∧ c.user p'.userId = some u ∧
        u.lastSeenAt ≠ none := by
      obtain ⟨p,before,user,held | ⟨b,orders,caller,same⟩⟩ := holder_origin commit found holds
      · obtain ⟨u,at_user,seen⟩ := covers.seen d p j before held
        exact ⟨p,u,before,user,by rw [← user]; exact at_user,seen⟩
      · obtain ⟨q,u,at_deliverer,at_user,seen⟩ := chosen d (by rw [same]; exact List.mem_singleton_self d)
        rw [before] at at_deliverer
        cases at_deliverer
        exact ⟨p,u,before,user,by rw [← user]; exact at_user,seen⟩
    obtain ⟨_,u,_,_,at_user,seen⟩ := chosen
    obtain ⟨u',after,same | ⟨_,marked⟩⟩ := user_kept commit at_user
    · exact ⟨u',after,by rw [same]; exact seen⟩
    · exact ⟨u',after,by rw [marked]; exact nofun⟩

end Preservation

-- A batch that one of the three sweep filters selects, age conditions aside.
inductive Covered (c : Dispatch) (b : Nat) (k : DeliveryBatch) : Prop where
  | expired (pending : k.status = .pending)
  | stuck (closed : k.status = .inProgress) (unclaimed : k.delivererId = none)
  | stale (at_deliverer : c.deliverer d = some p) (own : k.delivererId = some d) (holds : p.activeJobId = some j)
      (at_job : c.job j = some job) (same : job.batchId = b) (active : job.status.Active)
      (at_user : c.user p.userId = some u) (seen : u.lastSeenAt ≠ none)

-- The filters as the code has them.
def Selected (env : Env) (v : Database) (b : Nat) : Prop :=
  b ∈ expiredBatches env.WINDOW_MIN v ∨ b ∈ stuckBatches v ∨
    ∃ s ∈ staleDeliverers env v, ∃ job, s.job = some job ∧ job.batchId = b ∧ job.status.Active

theorem selected_of_covered {env : Env} {v : Database} (found : (dispatch v).batch b = some k)
    (covered : Covered (dispatch v) b k) : ∃ age, ∀ ms, age ≤ ms → Selected env (v.tick ms) b := by
  cases covered with
  | expired pending =>
    refine ⟨k.createdAt+(env.WINDOW_MIN+1)*60000+1,?_⟩
    intro ms old
    refine .inl (List.mem_map.mpr ⟨(b,k),Db.mem_matching _ |>.mpr ⟨found,?_⟩,rfl⟩)
    have late : k.createdAt+(env.WINDOW_MIN+1)*60000 < (v.tick ms).clock := by
      rw [Db.tick_clock]; omega
    exact decide_eq_true ⟨pending,late⟩
  | stuck closed unclaimed =>
    refine ⟨k.createdAt+STUCK_BATCH_MIN_AGE_MS+1,?_⟩
    intro ms old
    refine .inr (.inl (List.mem_map.mpr ⟨(b,k),(List.mem_insertionSort _).mpr (Db.mem_matching _ |>.mpr ⟨found,?_⟩),rfl⟩))
    have late : k.createdAt+STUCK_BATCH_MIN_AGE_MS < (v.tick ms).clock := by
      rw [Db.tick_clock]; omega
    exact decide_eq_true ⟨closed,unclaimed,late⟩
  | @stale d p j job u at_deliverer own holds at_job same active at_user seen =>
    obtain ⟨last,at_last⟩ := Option.ne_none_iff_exists'.mp seen
    refine ⟨last+DELIVERER_GRACE_MS+1,?_⟩
    intro ms old
    have late : last+DELIVERER_GRACE_MS < (v.tick ms).clock := by
      rw [Db.tick_clock]; omega
    refine .inr (.inr ⟨⟨d,p.userId,last,j,some job,(v.tick ms).matching .order fun _ (o : Order) =>
      o.deliveryJobId = some j⟩,?_,job,rfl,same,active⟩)
    unfold staleDeliverers
    refine List.mem_filterMap.mpr ⟨(d,p),(env.scan_perm _ _).mem_iff.mpr (Db.mem_all _ |>.mpr at_deliverer),?_⟩
    have user : (v.tick ms).rows .user p.userId = some u := at_user
    have job' : (v.tick ms).rows .deliveryJob j = some job := at_job
    simp only [staleDeliverer,holds,user,at_last,late,if_true,job']

theorem covered_of_parts (jobs : Jobs c) (held : Held c) (members : Members c) (settled : Settled c) (covers : Coverage c)
    (found : c.order i = some o) (waiting : o.status.batched = true) (open_ : o.status ≠ .completed) :
    ∃ b k, o.deliveryBatchId = some b ∧ c.batch b = some k ∧ Covered c b k := by
  obtain ⟨b,part⟩ := Option.isSome_iff_exists.mp ((settled i o found).trans waiting)
  obtain ⟨k,at_batch⟩ := members.batch i o b found part
  refine ⟨b,k,part,at_batch,?_⟩
  generalize phase : k.status = status
  cases status with
  | pending => exact .expired phase
  | assigned => exact absurd phase (covers.phase b k at_batch)
  | completed => exact absurd (covers.finished i o b k found part at_batch phase) open_
  | inProgress =>
    generalize holder : k.delivererId = who
    cases who with
    | none => exact .stuck phase holder
    | some d =>
      obtain ⟨j,job,at_job,same,active,own⟩ := ((exclusive_of_held jobs held).claimed b k d at_batch phase).mp holder
      obtain ⟨e,p,_,its,at_deliverer,holds,_⟩ := held.active j job at_job active
      rw [own] at its
      cases its
      obtain ⟨u,at_user,seen⟩ := covers.seen d p j at_deliverer holds
      exact .stale at_deliverer holder holds at_job same active at_user seen

-- Any requests and timers, queued jobs lost or doubled, processes stopped anywhere;
-- sweeps one after another, no removal, no race of a vendor's decision.
def Enduring (w : Market) (m : MarketMove) : Prop := Excluding w m ∧ Guarded DecidesPending w m

def chosen : LocalFacts := ⟨fun _ _ _ => True,fun _ _ _ => True,Candidate⟩

structure Agreed (w : Market) : Prop where
  jobs : Jobs (dispatch w.db)
  held : Held (dispatch w.db)
  members : Members (dispatch w.db)
  settled : Settled (dispatch w.db)
  remains : ∀ p x, w.threads p = some x → x.kind ≠ .removal

theorem agreed_reached {env : Env} (opening : Opening start) (path : Reached (market env) Enduring start w) : Agreed w := by
  have excluding := reached_mono (fun _ _ allowed => allowed.1) path
  have deciding : Reached (market env) Deciding start w :=
    reached_mono (fun _ _ allowed => ⟨allowed.1.1,allowed.2⟩) path
  obtain ⟨jobs,held⟩ := (exclusive_holds opening excluding).inv
  obtain ⟨members,settled⟩ := settled_holds opening deciding
  exact ⟨jobs,held,members,settled,
    no_removal (fun _ _ allowed => allowed.2.2) (fun _ _ allowed => allowed.1) opening excluding⟩

theorem kept_coverage (env : Env) : Kept env Coverage chosen fun w m => Enduring w m ∧ Agreed w where
  admitted _ _ allowed := allowed.1.1.1
  later _ _ _ _ known := known
  snapshot _ _ _ _ := trivial
  read _ _ _ := trivial
  available _ _ member := candidate_read member
  commit w p i x y c valid found allowed hit commit := by
    obtain ⟨jobs,held,members,settled,remains⟩ := allowed.2
    refine coverage_commit jobs held members valid.inv commit (allowed.1.2 p i x rfl found) ?_
      (valid.fact p x found).candidate
    intro userId same
    exact remains p x found (by rw [same]; rfl)
  stale _ _ _ _ _ _ _ _ _ _ _ _ _ _ _ _ _ _ := trivial
  orders _ _ _ _ _ _ _ _ _ _ _ _ _ _ := trivial
  candidate w p i x y c d valid found allowed hit commit known := by
    refine candidate_commit known commit ?_
    intro userId same
    exact allowed.2.remains p x found (by rw [same]; rfl)

theorem opening_coverage (opening : Opening w) : Coverage (dispatch w.db) := by
  refine ⟨?_,?_,?_,?_⟩
  · intro j job i o found; rw [opening.job j] at found; cases found
  · intro i o b k found; rw [opening.order i] at found; cases found
  · intro b k found; rw [opening.batch b] at found; cases found
  · intro d p j found holds; rw [opening.free d p found] at holds; cases holds

-- A lost queue job cannot strand an order: its batch is one that a sweep selects,
-- and the filter of that sweep does select it once it is old enough.
theorem order_never_stranded {env : Env} (opening : Opening start) (path : Reached (market env) Enduring start w)
    (found : (dispatch w.db).order i = some o)
    (waiting : o.status = .readyForDelivery ∨ o.status = .waitingForDeliverer ∨ o.status = .inProgress) :
    ∃ b k, o.deliveryBatchId = some b ∧ (dispatch w.db).batch b = some k ∧ Covered (dispatch w.db) b k ∧
      ∃ age, ∀ ms, age ≤ ms → Selected env (w.db.tick ms) b := by
  obtain ⟨jobs,held,members,settled,_⟩ := agreed_reached opening path
  have covers := (kept_reached (kept_coverage env) opening (opening_coverage opening)
    (reached_knowing (fun _ prior => agreed_reached opening prior) path)).inv
  have phase : o.status.batched = true ∧ o.status ≠ .completed := by
    rcases waiting with same | same | same <;> rw [same] <;> exact ⟨rfl,nofun⟩
  obtain ⟨b,k,part,at_batch,covered⟩ := covered_of_parts jobs held members settled covers found phase.1 phase.2
  exact ⟨b,k,part,at_batch,covered,selected_of_covered at_batch covered⟩

-- The batch is closed, and the queued assignment is lost.
def lostAssignment : List MarketMove :=
  ask (.createOrder ⟨[],none,some 0,some 0,none,none⟩ 0 0) 0 3 ++ ask (.vendorMarkReady 0 1) 1 5 ++
    (.work 0::steps 2 2) ++ [.lose 0]

theorem order_never_stranded_lost :
    ∃ o b k, (dispatch (morning.run (market village) lostAssignment).db).order 0 = some o ∧
      o.deliveryBatchId = some b ∧ (dispatch (morning.run (market village) lostAssignment).db).batch b = some k ∧
      Covered (dispatch (morning.run (market village) lostAssignment).db) b k ∧
      ∃ age, ∀ ms, age ≤ ms → Selected village ((morning.run (market village) lostAssignment).db.tick ms) b := by
  have path : Reached (market village) Enduring morning (morning.run (market village) lostAssignment) :=
    undisturbed_reached lostAssignment (fun _ _ calm => ⟨⟨calm.admitted,calm.apart,calm.unremoved⟩,calm.decides⟩)
      (by decide +kernel)
  have ready : ((dispatch (morning.run (market village) lostAssignment).db).order 0).map Order.status =
      some .readyForDelivery := by decide +kernel
  obtain ⟨o,found,waiting⟩ := Option.map_eq_some_iff.mp ready
  exact ⟨o,_,_,found,(order_never_stranded opening_morning path found (.inl waiting)).choose_spec.choose_spec⟩

end MesyafMarket
