import MesyafMarket.TimelineStatus
import MesyafMarket.Dispatch.Board
import MesyafMarket.Dispatch.Handover
import MesyafMarket.Relational.Drafts

namespace MesyafMarket
open Relational OrderService DelivererAssignmentService DelivererJobService DelivererRecoveryService

-- The calls whose commits leave the board as it is, by where they go on.
def Proc.idles : Proc → Proc → Bool
  | claimReady .., scheduleBatchTimeout .. => false
  | closeBatch .., queueAssignment .. => false
  | completeDropOff .., flushToDb .. => false
  | assign .., _ | startJob .., _ | completeJob .., _ | recoverUnstartedJob .., _ | createProfile _, _ => false
  | _,_ => true

-- The deed that a committed call has done.
inductive Does : Proc → Proc → Deed → Prop where
  | opens : Does (.claimReady o customerId orderType) (.scheduleBatchTimeout ⟨b,true,false⟩ customerId o) (.opens b)
  | closes : Does (.closeBatch b caller) (.queueAssignment b caller) (.closes b)
  | assigns : Does (.assign b orders d caller) (.notifyAssigned j b d orders caller) (.assigns b d j)
  | starts : Does (.startJob j d) (.returned .done) (.starts j d)
  | finishes : Does (.completeDropOff j s d) (.flushToDb d (.afterJob (.jobCompleted true))) (.finishes j d)
  | completes : Does (.completeJob j d) (.flushToDb d (.afterJob .done)) (.finishes j d)
  | recovers : Does (.recoverUnstartedJob s job rest) (.recordEvent (recoveredEvent s.jobId) (.recovered job.batchId rest))
      (.recovers s.jobId s.id job.batchId)
  | hires : Does (.createProfile userId) (.returned .done) (.hires d)
  | nothing (idle : x.idles y = true) : Does x y .nothing

def boarding : Overlay Row Key Proc where
  inv _ := True
  fact _ _ := True
  change _ _ _ := True
  ends x y a b := Carries x y ∧ ∃ deed, Does x y deed ∧ (dispatch a).board.Step deed (dispatch b).board
  change_idle _ := trivial
  change_trans _ _ := trivial
  change_more _ _ := trivial
  inv_idle _ _ := trivial
  fact_idle _ _ := trivial
  fact_change _ _ := trivial

abbrev posting : Protocol Row Key Proc := locking.over boarding

theorem posting_framed : posting.Framed := fun _ _ _ changed => changed.1.rows

-- What a transaction has to do with the board.
structure Plan where
  job : Slip Errand
  batch : Slip Load
  deliverer : Slip (Option Nat)

def Plan.blank : Plan := ⟨.blank,.blank,.blank⟩

structure Planned (plan : Plan) (h : List MarketLock) (w : Writes Row) (db : Database) : Prop where
  job : Drafted (t := .deliveryJob) DeliveryJob.errand plan.job h w db
  batch : Drafted (t := .deliveryBatch) DeliveryBatch.load plan.batch h w db
  deliverer : Drafted (t := .delivererProfile) DelivererProfile.activeJobId plan.deliverer h w db

def Offboard (t : Tab) : Prop := t ≠ .deliveryJob ∧ t ≠ .deliveryBatch ∧ t ≠ .delivererProfile

section Plans
variable {x y : Proc} {plan : Plan} {h : List MarketLock} {w : Writes Row} {db : Database}

theorem planned_stable : posting.Stable x (Planned plan) := fun T h w db later planned sees =>
  ⟨drafted_stable posting_framed T h w db later planned.job sees,drafted_stable posting_framed T h w db later planned.batch sees,
    drafted_stable posting_framed T h w db later planned.deliverer sees⟩

theorem planned_start : Planned .blank [] .none db := ⟨drafted_start,drafted_start,drafted_start⟩

theorem planned_quiet {e : Effect Row Key} (planned : Planned plan h w db) (quiet : ∀ t, ¬Offboard t → ∀ i, e.writes.rows t i = none) :
    Planned plan (h ++ e.locks) (w.over e.writes) (db.reserve e.writes) :=
  ⟨drafted_quiet planned.job (quiet _ (by simp [Offboard])),drafted_quiet planned.batch (quiet _ (by simp [Offboard])),
    drafted_quiet planned.deliverer (quiet _ (by simp [Offboard]))⟩

-- The board in view is the committed one with the posts on it.
theorem planned_view (planned : Planned plan h w db) : (dispatch (db.apply w)).board =
    ⟨posted plan.job.posts (dispatch db).board.job,posted plan.batch.posts (dispatch db).board.batch,
      posted plan.deliverer.posts (dispatch db).board.deliverer⟩ :=
  Board.ext planned.job.view planned.batch.view planned.deliverer.view

-- The commit is one deed, done to the board that it finds.
def Enacts (x y : Proc) : Mark Row Key := fun h w db => ∀ T later, posting.Sees x T h w db later →
  ∃ deed, Does x y deed ∧ (dispatch later).board.Step deed (dispatch (later.apply w)).board

theorem enacts_commits (enacts : Enacts x y h w db) (carries : Carries x y) : boarding.Commits locking x y h w db :=
  fun T later sees => ⟨trivial,trivial,trivial,carries,enacts T later sees⟩

theorem enacts_planned {A : Mark Row Key} (stable : posting.Stable x A) (now : A h w db)
    (does : ∀ db : Database, A h w db → ∃ deed, Does x y deed ∧ (dispatch db).board.Step deed (dispatch (db.apply w)).board) :
    Enacts x y h w db := fun T later sees => does later (stable T h w db later now sees)

theorem enacts_nothing (planned : Planned .blank h w db) (idle : x.idles y = true) : Enacts x y h w db := by
  refine enacts_planned planned_stable planned fun db planned => ⟨.nothing,.nothing idle,?_⟩
  rw [planned_view planned]
  exact .nothing

theorem keeps_offboard {t : Transaction α} (within : Confined Offboard t) (planned : Planned plan h w db) :
    t.Keeps posting x (fun _ => Planned plan) h w db :=
  keeps_confined within planned_stable (fun _ _ _ _ quiet planned => planned_quiet planned quiet) planned

theorem keeps_between {t : Transaction α} {f : α → Transaction β} {Q : β → Mark Row Key} (within : Confined Offboard t)
    (planned : Planned plan h w db) (rest : ∀ a h w db, Planned plan h w db → (f a).Keeps posting x Q h w db) :
    (t >>= f).Keeps posting x Q h w db :=
  keeps_bind (keeps_mono (fun a h w db planned => rest a h w db planned) (keeps_offboard within planned))

theorem keeps_idle {t : Transaction α} {f : α → Proc} (keeps : t.Keeps posting x (fun _ => Planned .blank) [] .none db)
    (idle : ∀ a, x.idles (f a) = true) :
    (t >>= fun a => pure (f a)).Keeps posting x (Enacts x) [] .none db :=
  keeps_bind (keeps_mono (fun a _ _ _ planned => enacts_nothing planned (idle a)) keeps)

theorem offboard_event (params : EventLogService.Params) : Confined Offboard (EventLogService.recordEvent params) :=
  confined_recordEvent (by simp [Offboard]) (by simp [Offboard]) (by simp [Offboard])

theorem offboard_createOrderTx : Confined Offboard (createOrderTx dto vendorId costumerId vendor) := by
  refine confined_bind confined_select fun referenced => ?_
  split
  · trivial
  · refine confined_bind (confined_create (by simp [Offboard])) fun order => ?_
    refine confined_bind (confined_createMany (by simp [Offboard])) fun _ => ?_
    exact confined_bind (offboard_event _) fun _ => trivial

-- Profiles change in columns that are not on the board.
theorem keeps_profiles {p : Nat → DelivererProfile → Bool} {f : Nat → DelivererProfile → DelivererProfile} {missing : Err}
    (same : ∀ now d, (f now d).activeJobId = d.activeJobId) (planned : Planned .blank h w db) :
    (Tx.update .delivererProfile p f missing).Keeps posting x (fun _ => Planned .blank) h w db := by
  refine keeps_stmt planned_stable planned ?_
  intro T db planned sees
  split
  · trivial
  · exact ⟨drafted_quiet planned.job fun i => by simp [Tx.updatesEffect],
      drafted_quiet planned.batch fun i => by simp [Tx.updatesEffect],drafted_overlooked planned.deliverer (same db.clock)⟩

section Updates
variable {e : Effect Row Key} {extra : List MarketLock} (planned : Planned plan h w db)
include planned

theorem planned_job {p : Nat → DeliveryJob → Bool} {f : DeliveryJob → DeliveryJob} (same : e = Tx.updatesEffect (db.apply w) .deliveryJob p f extra)
    (first : plan.job.posts = []) (keyed : ∀ k job, p k job = true → k = j) (found : (db.apply w).rows .deliveryJob j = some job)
    (hit : p j job = true) :
    Planned {plan with job := plan.job.take j (some job.errand) (f job).errand} (h ++ e.locks) (w.over e.writes) (db.reserve e.writes) := by
  subst same
  exact ⟨drafted_take planned.job first keyed found hit,drafted_quiet planned.batch fun i => by simp [Tx.updatesEffect],
    drafted_quiet planned.deliverer fun i => by simp [Tx.updatesEffect]⟩

theorem planned_batch {p : Nat → DeliveryBatch → Bool} {f : DeliveryBatch → DeliveryBatch}
    (same : e = Tx.updatesEffect (db.apply w) .deliveryBatch p f extra) (first : plan.batch.posts = [])
    (keyed : ∀ i k, p i k = true → i = b) (found : (db.apply w).rows .deliveryBatch b = some k) (hit : p b k = true) :
    Planned {plan with batch := plan.batch.take b (some k.load) (f k).load} (h ++ e.locks) (w.over e.writes) (db.reserve e.writes) := by
  subst same
  exact ⟨drafted_quiet planned.job fun i => by simp [Tx.updatesEffect],drafted_take planned.batch first keyed found hit,
    drafted_quiet planned.deliverer fun i => by simp [Tx.updatesEffect]⟩

theorem planned_deliverer {p : Nat → DelivererProfile → Bool} {f : DelivererProfile → DelivererProfile}
    (same : e = Tx.updatesEffect (db.apply w) .delivererProfile p f extra) (first : plan.deliverer.posts = [])
    (keyed : ∀ i row, p i row = true → i = d) (found : (db.apply w).rows .delivererProfile d = some row) (hit : p d row = true) :
    Planned {plan with deliverer := plan.deliverer.take d (some row.activeJobId) (f row).activeJobId}
      (h ++ e.locks) (w.over e.writes) (db.reserve e.writes) := by
  subst same
  exact ⟨drafted_quiet planned.job fun i => by simp [Tx.updatesEffect],drafted_quiet planned.batch fun i => by simp [Tx.updatesEffect],
    drafted_take planned.deliverer first keyed found hit⟩

end Updates

theorem keeps_closeBatch : (closeBatchUpdate b >>= fun count => pure (if count = 0 then Proc.closed caller else .queueAssignment b caller)).Keeps
    posting (.closeBatch b caller) (Enacts (.closeBatch b caller)) [] .none db := by
  refine keeps_updateMany planned_stable planned_start ?_
  intro T db planned sees e same
  by_cases none : ((db.apply Writes.none).matching .deliveryBatch fun i (k : DeliveryBatch) => i = b ∧ k.status = .pending).length = 0
  · rw [if_pos none,same]
    refine enacts_nothing ⟨drafted_quiet planned.job fun i => by simp [Tx.updatesEffect],
      drafted_missed planned.batch (List.length_eq_zero_iff.mp none),
      drafted_quiet planned.deliverer fun i => by simp [Tx.updatesEffect]⟩ ?_
    cases caller with
    | expired rest => cases rest <;> rfl
    | _ => rfl
  · rw [if_neg none]
    obtain ⟨i,k,found,hit⟩ := matching_length none
    obtain ⟨rfl,pending⟩ := of_decide_eq_true hit
    have made := planned_batch planned same rfl (fun _ _ hit => (of_decide_eq_true hit).1) found hit
    refine enacts_planned planned_stable made fun db made => ⟨.closes i,.closes,?_⟩
    have at_batch := (made.batch.read _ List.mem_cons_self).2
    rw [planned_view made]
    refine .closes (d := k.delivererId) (at_batch.trans ?_)
    rw [DeliveryBatch.load,pending]

-- An order that is marked ready joins an open batch, or a new one is opened for it.
inductive Joining (h : List MarketLock) (w : Writes Row) (db : Database) : BatchOutcome → Prop where
  | open (planned : Planned .blank h w db) : Joining h w db ⟨b,false,close⟩
  | new (planned : Planned {Plan.blank with batch := Slip.blank.take b none ⟨none,.pending⟩} h w db) : Joining h w db ⟨b,true,false⟩

theorem offboard_connectOrder : Confined Offboard (connectOrder b o) := confined_connectOrder (by simp [Offboard])

theorem keeps_batchLoop {env : Env} (batches : List OpenBatch) (planned : Planned .blank h w db) :
    (assignToBatchLoop env o order batches).Keeps posting x (fun outcome h w db => Joining h w db outcome) h w db := by
  induction batches with
  | nil =>
    refine keeps_create planned_stable planned ?_
    intro T db planned sees e same
    have made : Planned {Plan.blank with batch := Slip.blank.take ((db.apply w).seq .deliveryBatch) none ⟨none,.pending⟩}
        (h ++ e.locks) (w.over e.writes) (db.reserve e.writes) := by
      subst same
      exact ⟨drafted_quiet planned.job fun i => by simp [Tx.insertsEffect],drafted_insert planned.batch (⟨none,.pending,db.clock⟩ : DeliveryBatch),
        drafted_quiet planned.deliverer fun i => by simp [Tx.insertsEffect]⟩
    exact keeps_between offboard_connectOrder made fun _ _ _ _ planned => .new planned
  | cons batch rest ih =>
    unfold assignToBatchLoop
    split
    · exact ih
    · exact keeps_between offboard_connectOrder planned fun _ _ _ _ planned => .open planned

theorem keeps_vendorMarkReady {env : Env} : (vendorMarkReadyTx env o orderType).Keeps posting x
    (fun outcome h w db => Joining h w db outcome) [] .none db := by
  refine keeps_between (confined_updateMany (by simp [Offboard])) planned_start ?_
  intro claimed h w db planned
  split
  · trivial
  refine keeps_between confined_findUniqueOrThrow planned ?_
  intro readyOrder h w db planned
  refine keeps_bind (keeps_mono (Q := fun outcome h w db => Joining h w db outcome) ?_ ?_)
  · intro outcome h w db joining
    cases joining with
    | «open» planned => exact keeps_between (offboard_event _) planned fun _ _ _ _ planned => .open planned
    | new planned => exact keeps_between (offboard_event _) planned fun _ _ _ _ planned => .new planned
  · refine keeps_between confined_selectLocking planned ?_
    intro _ h w db planned
    refine keeps_between confined_select planned ?_
    intro pending h w db planned
    refine keeps_between confined_selectLocking planned ?_
    exact fun batches h w db planned => keeps_batchLoop batches planned

theorem joining_enacts (joining : Joining h w db outcome) (same : x = .claimReady o customerId orderType) :
    Enacts x (if outcome.created then Proc.scheduleBatchTimeout outcome customerId o
      else .afterBatching outcome customerId o) h w db := by
  subst same
  cases joining with
  | «open» planned =>
    refine enacts_nothing planned ?_
    simp only [Bool.false_eq_true,if_false]
    unfold Proc.afterBatching
    split <;> rfl
  | @new b planned =>
    refine enacts_planned planned_stable planned fun db planned => ⟨.opens b,.opens,?_⟩
    rw [planned_view planned]
    exact .opens (planned.batch.read _ List.mem_cons_self).2

-- An assignment that has its batch's job.
structure Assigning (j b : Nat) (plan : Plan) (h : List MarketLock) (w : Writes Row) (db : Database) : Prop where
  planned : Planned plan h w db
  sole : Sole j b h (dispatch db)
  held : .row .deliveryJob j ∈ h

theorem assigning_stable : posting.Stable x (Assigning j b plan) := fun T h w db later assigning sees =>
  ⟨planned_stable T h w db later assigning.planned sees,sole_sees assigning.held sees.changed.1 assigning.sole,assigning.held⟩

theorem assigning_next {plan' : Plan} {e : Effect Row Key} (assigning : Assigning j b plan h w db)
    (planned : Planned plan' (h ++ e.locks) (w.over e.writes) (db.reserve e.writes)) :
    Assigning j b plan' (h ++ e.locks) (w.over e.writes) (db.reserve e.writes) := by
  refine ⟨planned,?_,List.mem_append_left _ assigning.held⟩
  rcases assigning.sole with found | ⟨none,key,free⟩
  · exact .inl found
  · exact .inr ⟨none,List.mem_append_left _ key,free⟩

theorem keeps_assigning {t : Transaction α} {f : α → Transaction β} {Q : β → Mark Row Key} (within : Confined Offboard t)
    (assigning : Assigning j b plan h w db) (rest : ∀ a h w db, Assigning j b plan h w db → (f a).Keeps posting x Q h w db) :
    (t >>= f).Keeps posting x Q h w db := by
  refine keeps_bind (keeps_mono (fun a h w db assigning => rest a h w db assigning) (keeps_confined within assigning_stable ?_ assigning))
  exact fun _ _ _ _ quiet assigning => assigning_next assigning (planned_quiet assigning.planned quiet)

def Plan.upserting (j b d : Nat) : Plan := {Plan.blank with job := Slip.blank.post j ⟨b,.assigned,some d⟩}

theorem Upserted.assigning {e : Effect Row Key} (upserted : Upserted db j b d n e) :
    Assigning j b (.upserting j b d) ([] ++ e.locks) (Writes.none.over e.writes) (db.reserve e.writes) := by
  have quiet : ∀ t, t ≠ .deliveryJob → ∀ i, e.writes.rows t i = none := fun t apart i => upserted.unwritten apart
  have view : (dispatch ((db.apply .none).apply e.writes)).board.job =
      Function.update (dispatch (db.apply .none)).board.job j (some ⟨b,.assigned,some d⟩) := by
    rw [Db.apply_none,upserted.rows]
    funext i
    simp only [Dispatch.board,Function.update_apply]
    split <;> rfl
  refine ⟨⟨drafted_post drafted_start upserted.row view,drafted_quiet drafted_start (quiet _ (by decide)),
    drafted_quiet drafted_start (quiet _ (by decide))⟩,?_,List.mem_append_right _ upserted.row⟩
  rcases upserted.job with old | ⟨none,free⟩
  · exact .inl old
  · exact .inr ⟨none,List.mem_append_right _ upserted.key,free⟩

theorem keeps_upserting {next : Nat → Transaction α} {Q : α → Mark Row Key}
    (rest : ∀ j h w db, Assigning j b (.upserting j b d) h w db → (next j).Keeps posting x Q h w db) :
    (upsertJob b d n >>= next).Keeps posting x Q [] .none db := by
  refine keeps_stmt planned_stable planned_start ?_
  intro T db _ sees
  rw [Db.apply_none]
  have go : ∀ j e, Upserted db j b d n e →
      ((if (db.rows .delivererProfile d).isNone then .throw .foreignKeyViolation else .ret j : Transaction Nat) >>= next).Keeps
        posting x Q ([] ++ e.locks) (Writes.none.over e.writes) (db.reserve e.writes) := by
    intro j e upserted
    split
    · trivial
    · exact rest j _ _ _ upserted.assigning
  cases found : jobOfBatch db b with
  | some entry =>
    obtain ⟨j,old⟩ := entry
    simp only [found]
    exact go j _ (upserted_updates found)
  | none =>
    simp only [found]
    exact go _ _ (upserted_inserts found)

def Plan.assigning (j b d : Nat) : Plan where
  job := Slip.blank.post j ⟨b,.assigned,some d⟩
  batch := Slip.blank.take b (some ⟨none,.inProgress⟩) ⟨some d,.inProgress⟩
  deliverer := Slip.blank.take d (some none) (some j)

theorem keeps_claimDeliverer {next : Unit → Transaction α} {Q : α → Mark Row Key}
    (assigning : Assigning j b {Plan.assigning j b d with deliverer := .blank} h w db)
    (rest : ∀ h w db, Assigning j b (.assigning j b d) h w db → (next ()).Keeps posting x Q h w db) :
    (claimDeliverer d j >>= next).Keeps posting x Q h w db := by
  refine keeps_stmt assigning_stable assigning ?_
  intro T db assigning sees
  beta_reduce
  split
  · trivial
  rename_i some
  split
  · trivial
  obtain ⟨i,p,found,hit⟩ := matching_some fun empty => some (List.isEmpty_iff.mpr empty)
  obtain ⟨rfl,_,free⟩ := of_decide_eq_true hit
  refine rest _ _ _ (assigning_next assigning ?_)
  have made := planned_deliverer (e := Tx.updatesEffect (db.apply w) .delivererProfile (claimable i)
    (fun row => {row with availability := false,activeJobId := .some j}) [.key (.activeJob j)])
    assigning.planned rfl rfl (fun _ _ hit => (of_decide_eq_true hit).1) found hit
  rw [free] at made
  exact made

theorem keeps_assigns : (assignTx b orders d).Keeps posting x (fun j => Assigning j b (.assigning j b d)) [] .none db := by
  refine keeps_upserting ?_
  intro j h w db assigning
  refine keeps_updateMany assigning_stable assigning ?_
  intro T db assigning sees e same
  split
  · trivial
  rename_i some
  obtain ⟨i,k,found,hit⟩ := matching_length some
  obtain ⟨rfl,unclaimed,closed⟩ := of_decide_eq_true hit
  have made := planned_batch assigning.planned same rfl (fun _ _ hit => (of_decide_eq_true hit).1) found hit
  simp only [DeliveryBatch.load,unclaimed,closed] at made
  refine keeps_claimDeliverer (assigning_next assigning made) ?_
  intro h w db assigning
  refine keeps_assigning (confined_updateMany (by simp [Offboard])) assigning ?_
  intro _ h w db assigning
  refine keeps_assigning (confined_deleteMany (by simp [Offboard])) assigning ?_
  intro _ h w db assigning
  refine keeps_assigning (confined_createMany (by simp [Offboard])) assigning ?_
  intro _ h w db assigning
  exact keeps_assigning (offboard_event _) assigning fun _ _ _ _ assigning => assigning

theorem assigning_enacts (assigning : Assigning j b (.assigning j b d) h w db) (does : Does x y (.assigns b d j)) :
    Enacts x y h w db := by
  refine enacts_planned assigning_stable assigning fun db assigning => ⟨_,does,?_⟩
  rw [planned_view assigning.planned]
  refine .assigns (assigning.planned.batch.read _ List.mem_cons_self).2 (assigning.planned.deliverer.read _ List.mem_cons_self).2 ?_
  rcases assigning.sole with ⟨job,found,own⟩ | ⟨none,_,free⟩
  · exact .inl ⟨job.errand,board_job found,own⟩
  · refine .inr ⟨by simp [Dispatch.board,none],fun k t found => board_jobs free found⟩

theorem keeps_starts : (startJobTx j d).Keeps posting x (fun _ h w db => ∃ b,
    Planned {Plan.blank with job := Slip.blank.take j (some ⟨b,.assigned,some d⟩) ⟨b,.inProgress,some d⟩} h w db) [] .none db := by
  refine keeps_updateMany planned_stable planned_start ?_
  intro T db planned sees e same
  split
  · intro T now sees
    dsimp only [Tx.bind]
    split
    · trivial
    · split <;> trivial
  · rename_i some
    obtain ⟨i,job,found,hit⟩ := matching_length some
    obtain ⟨rfl,own,assigned⟩ := of_decide_eq_true hit
    have made := planned_job planned same rfl (fun _ _ hit => (of_decide_eq_true hit).1) found hit
    simp only [DeliveryJob.errand,own,assigned] at made
    refine keeps_between (confined_updateMany (by simp [Offboard])) made ?_
    intro _ h w db made
    exact keeps_mono (fun _ _ _ _ made => ⟨job.batchId,made⟩) (keeps_offboard (offboard_event _) made)

theorem starts_enacts (planned : Planned {Plan.blank with job := Slip.blank.take j (some ⟨b,.assigned,some d⟩) ⟨b,.inProgress,some d⟩} h w db)
    (does : Does x y (.starts j d)) : Enacts x y h w db := by
  refine enacts_planned planned_stable planned fun db planned => ⟨_,does,?_⟩
  rw [planned_view planned]
  exact .starts (planned.job.read _ List.mem_cons_self).2

-- A completion has read and locked its job.
def Plan.reading (j : Nat) (t : Errand) : Plan := {Plan.blank with job := Slip.blank.read j (some t)}

theorem reading_row (planned : Planned (.reading j t) h w db) (found : (db.apply w).rows .deliveryJob j = some job) : job.errand = t := by
  have committed := drafted_committed (i := j) planned.job (by simp [Plan.reading,Slip.read,Plan.blank,Slip.blank])
  have known := (planned.job.read _ List.mem_cons_self).2
  simp only [Db.seen,found] at committed
  exact Option.some.inj (committed.trans known)

theorem keeps_lockJob {next : Unit → Transaction α} {Q : α → Mark Row Key} (completes : x.completes = some j)
    (rest : ∀ t h w db, Planned (.reading j t) h w db → (next ()).Keeps posting x Q h w db) :
    ((Tx.lock fun v => if (v.rows .deliveryJob j).isSome then [.row .deliveryJob j] else []) >>= next).Keeps posting x Q [] .none db := by
  refine keeps_selectLocking planned_stable planned_start ?_
  intro T db planned sees e writes locks
  obtain ⟨job,found⟩ := sees.fact.1.serves.job j completes
  have present : db.rows .deliveryJob j = some job := found
  rw [Db.apply_none,present] at locks
  have made := planned_quiet (e := e) planned (by simp [writes,Writes.none])
  refine rest job.errand _ _ _ ⟨drafted_read made.job ?_ ?_,made.batch,made.deliverer⟩
  · rw [locks]
    exact List.mem_singleton_self _
  · simp [Db.seen,present]

def Plan.finished (j d b : Nat) (k : Load) (i : Option Nat) : Plan where
  job := (Slip.blank.read j (some ⟨b,.inProgress,some d⟩)).take j (some ⟨b,.inProgress,some d⟩) ⟨b,.completed,some d⟩
  batch := Slip.blank.take b (some k) ⟨k.delivererId,.completed⟩
  deliverer := Slip.blank.take d (some i) none

theorem keeps_finishes (planned : Planned (.reading j ⟨b,.inProgress,some d⟩) h w db) :
    (finishJob j d b).Keeps posting x (fun _ h w db => ∃ k i, Planned (.finished j d b k i) h w db) h w db := by
  refine keeps_updateMany planned_stable planned ?_
  intro T db planned sees e same
  split
  · trivial
  rename_i some
  obtain ⟨i,job,found,hit⟩ := matching_length some
  obtain ⟨rfl,_⟩ := of_decide_eq_true hit
  have read := reading_row planned found
  have made := planned_job planned same rfl (fun _ _ hit => (of_decide_eq_true hit).1) found hit
  rw [read] at made
  obtain ⟨rfl,_,own⟩ := Errand.mk.inj read
  simp only [DeliveryJob.errand,own] at made
  refine keeps_update planned_stable made ?_
  intro T db made sees e same some
  obtain ⟨_,k,at_batch,hit⟩ := matching_some some
  obtain rfl := of_decide_eq_true hit
  have made := planned_batch made same rfl (fun _ _ hit => of_decide_eq_true hit) at_batch hit
  refine keeps_update planned_stable made ?_
  intro T db made sees e same some
  obtain ⟨_,p,at_deliverer,hit⟩ := matching_some some
  obtain rfl := of_decide_eq_true hit
  have made := planned_deliverer made same rfl (fun _ _ hit => of_decide_eq_true hit) at_deliverer hit
  refine keeps_between (confined_updateMany (by simp [Offboard])) made ?_
  intro _ h w db made
  exact keeps_mono (fun _ _ _ _ made => ⟨k.load,p.activeJobId,made⟩) (keeps_offboard (offboard_event _) made)

theorem finished_enacts (planned : Planned (.finished j d b k i) h w db) (does : Does x y (.finishes j d)) :
    Enacts x y h w db := by
  refine enacts_planned planned_stable planned fun db planned => ⟨_,does,?_⟩
  rw [planned_view planned]
  exact .finishes (planned.job.read _ List.mem_cons_self).2 (planned.batch.read _ List.mem_cons_self).2
    (planned.deliverer.read _ List.mem_cons_self).2

-- A completion that goes on knows its job as its own and IN_PROGRESS.
theorem keeps_ownJob {next : DeliveryJob → Transaction α} {Q : α → Mark Row Key} (planned : Planned (.reading j t) h w db)
    (rest : ∀ job h w db, Planned (.reading j ⟨job.batchId,.inProgress,some d⟩) h w db → (next job).Keeps posting x Q h w db) :
    ((Tx.findUnique Tab.deliveryJob j : Transaction (Option DeliveryJob)) >>= fun job => match job with
      | none => .throw (.notFound "Job not found")
      | some job =>
        if job.delivererId ≠ some d then .throw (.forbidden "Not your job")
        else if job.status ≠ .inProgress then .throw (.badRequest "Job not in progress")
        else next job).Keeps posting x Q h w db := by
  refine keeps_select planned_stable planned ?_
  intro T db planned sees
  split
  · trivial
  rename_i job found
  split
  · trivial
  rename_i own
  split
  · trivial
  rename_i started
  have read := reading_row planned found
  rw [← read] at planned
  simp only [DeliveryJob.errand,not_not.mp own,not_not.mp started] at planned
  exact rest job _ _ _ planned

theorem offboard_orderCompleted (orderId n : Nat) : Confined Offboard (recordOrderCompleted orderId n) := by
  unfold recordOrderCompleted
  split
  · exact offboard_event _
  · trivial

theorem keeps_completeDropOff (completes : x.completes = some j) : (completeDropOffTx j s d).Keeps posting x (fun completed h w db =>
    (completed = false ∧ ∃ t, Planned (.reading j t) h w db) ∨
      (completed = true ∧ ∃ b k i, Planned (.finished j d b k i) h w db)) [] .none db := by
  refine keeps_lockJob completes ?_
  intro t h w db planned
  refine keeps_ownJob planned ?_
  intro job h w db planned
  refine keeps_between (confined_updateMany (by simp [Offboard])) planned ?_
  intro claimed h w db planned
  split
  · trivial
  refine keeps_between confined_findUniqueOrThrow planned ?_
  intro dropOff h w db planned
  refine keeps_between (confined_updateMany (by simp [Offboard])) planned ?_
  intro orderDone h w db planned
  refine keeps_between (offboard_orderCompleted _ _) planned ?_
  intro _ h w db planned
  refine keeps_between confined_select planned ?_
  intro remaining h w db planned
  split
  · refine keeps_bind (keeps_mono ?_ (keeps_finishes planned))
    exact fun _ _ _ _ finished => .inr ⟨rfl,job.batchId,finished⟩
  · exact .inl ⟨rfl,_,planned⟩

theorem keeps_completeJob (completes : x.completes = some j) : (completeJobTx j d).Keeps posting x
    (fun _ h w db => ∃ b k i, Planned (.finished j d b k i) h w db) [] .none db := by
  refine keeps_lockJob completes ?_
  intro t h w db planned
  refine keeps_ownJob planned ?_
  intro job h w db planned
  exact keeps_mono (fun _ _ _ _ finished => ⟨job.batchId,finished⟩) (keeps_finishes planned)

theorem reading_enacts (planned : Planned (.reading j t) h w db) (idle : x.idles y = true) : Enacts x y h w db := by
  refine enacts_planned planned_stable planned fun db planned => ⟨.nothing,.nothing idle,?_⟩
  rw [planned_view planned]
  exact .nothing

def Plan.recovered (j d b b' : Nat) (e : Option Nat) (k : Load) (i : Option Nat) : Plan where
  job := Slip.blank.take j (some ⟨b',.assigned,e⟩) ⟨b',.pending,none⟩
  batch := Slip.blank.take b (some k) ⟨none,.inProgress⟩
  deliverer := Slip.blank.take d (some i) none

theorem keeps_recovers : (recoverTx d j b).Keeps posting x
    (fun _ h w db => ∃ b' e k i, Planned (.recovered j d b b' e k i) h w db) [] .none db := by
  refine keeps_update planned_stable planned_start ?_
  intro T db planned sees e same some
  obtain ⟨_,p,at_deliverer,hit⟩ := matching_some some
  obtain rfl := of_decide_eq_true hit
  have made := planned_deliverer planned same rfl (fun _ _ hit => of_decide_eq_true hit) at_deliverer hit
  refine keeps_update planned_stable made ?_
  intro T db made sees e same some
  obtain ⟨_,job,at_job,hit⟩ := matching_some some
  obtain ⟨rfl,assigned⟩ := of_decide_eq_true hit
  have made := planned_job made same rfl (fun _ _ hit => (of_decide_eq_true hit).1) at_job hit
  simp only [DeliveryJob.errand,assigned] at made
  refine keeps_update planned_stable made ?_
  intro T db made sees e same some
  obtain ⟨_,k,at_batch,hit⟩ := matching_some some
  obtain rfl := of_decide_eq_true hit
  have made := planned_batch made same rfl (fun _ _ hit => of_decide_eq_true hit) at_batch hit
  refine keeps_mono ?_ (keeps_offboard (confined_bind (confined_updateMany (by simp [Offboard])) fun _ => trivial) made)
  exact fun _ _ _ _ made => ⟨job.batchId,job.delivererId,k.load,p.activeJobId,made⟩

theorem recovered_enacts (planned : Planned (.recovered j d b b' e k i) h w db) (does : Does x y (.recovers j d b)) :
    Enacts x y h w db := by
  refine enacts_planned planned_stable planned fun db planned => ⟨_,does,?_⟩
  rw [planned_view planned]
  exact .recovers (planned.job.read _ List.mem_cons_self).2 (planned.batch.read _ List.mem_cons_self).2
    (planned.deliverer.read _ List.mem_cons_self).2

theorem keeps_creates : (AdminService.createProfileTx userId).Keeps posting x
    (fun _ h w db => ∃ d, Planned {Plan.blank with deliverer := Slip.blank.take d none none} h w db) [] .none db := by
  refine keeps_between confined_select planned_start ?_
  intro found h w db planned
  refine keeps_between confined_select planned ?_
  intro user h w db planned
  split
  · trivial
  split
  · trivial
  refine keeps_create planned_stable planned ?_
  intro T db planned sees e same
  subst same
  exact ⟨_,drafted_quiet planned.job fun i => by simp [Tx.insertsEffect],drafted_quiet planned.batch fun i => by simp [Tx.insertsEffect],
    drafted_insert planned.deliverer (⟨userId,none,none,true,none⟩ : DelivererProfile)⟩

theorem creates_enacts (planned : Planned {Plan.blank with deliverer := Slip.blank.take d none none} h w db)
    (does : Does x y (.hires d)) : Enacts x y h w db := by
  refine enacts_planned planned_stable planned fun db planned => ⟨_,does,?_⟩
  rw [planned_view planned]
  exact .hires (planned.deliverer.read _ List.mem_cons_self).2

end Plans
end MesyafMarket
