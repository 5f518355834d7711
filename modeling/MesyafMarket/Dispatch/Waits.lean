import MesyafMarket.Dispatch.Bodies

namespace MesyafMarket
open Relational OrderService DelivererAssignmentService DelivererJobService DelivererRecoveryService

section Jobs
variable {x : Proc} {loose : Nat → Prop} {h : List MarketLock} {w : Writes Row} {db : Database} {A : Mark Row Key}

-- A first statement that updates rows of one table, none of them a row of a batch.
section First
variable {t : Tab} {p : Nat → Row t → Bool} {f : Nat → Row t → Row t} {Q : α → Mark Row Key}

theorem safe_firstUpdates {next : Database → Transaction α} (linked : Linked Tight (dispatch db))
    (outside : ∀ db : Database, Linked Tight (dispatch db) → ∀ i row, db.rows t i = some row → p i row = true →
      ∀ b, ¬OfBatch (dispatch db) b (.row t i))
    (links : ∀ db : Database, Linked Tight (dispatch db) → ∀ L : MarketLock → Prop,
      Linked Tight (dispatch (db.apply (db.updates t p (f db.clock)))) ∧
        Respects L (dispatch db) (dispatch (db.apply (db.updates t p (f db.clock)))))
    (rest : ∀ db e, e = Tx.updatesEffect db t p (f db.clock) [] → Linked Tight (dispatch db) → Knows x db.clock (dispatch db) →
      Working Tight e.locks e.writes (db.reserve e.writes) →
      (next db).Safe locking x Q e.locks e.writes (db.reserve e.writes)) :
    (Tx.stmt (fun v => Tx.updatesEffect v t p (f v.clock) []) next).Safe locking x Q [] .none db := by
  refine safe_first linked ?_
  intro T db linked sees
  have drawn : Drawn db (Tx.updatesEffect (db.apply .none) t p (f db.clock) []) := drawn_updates (by simp)
  rw [Db.apply_none] at drawn
  have parts : ∀ k ∈ (Tx.updatesEffect db t p (f db.clock) [] : Effect Row Key).locks,
      ∃ i row, db.rows t i = some row ∧ p i row = true ∧ k = .row t i := by
    intro k member
    rcases List.mem_append.mp member with row | key
    · obtain ⟨entry,hit,rfl⟩ := List.mem_map.mp row
      obtain ⟨found,holds⟩ := db.mem_matching.mp hit
      exact ⟨entry.1,entry.2,found,holds,rfl⟩
    · cases key
  refine ⟨drawn,rest db _ rfl linked sees.fact (working_first linked (sheltered_first ?_ ?_ ?_) (links db linked _))⟩
  · intro k member b
    obtain ⟨i,row,found,holds,rfl⟩ := parts k member
    exact outside db linked i row found holds b
  · intro b member
    obtain ⟨_,_,_,_,same⟩ := parts _ member
    cases same
  · intro j member
    obtain ⟨_,_,_,_,same⟩ := parts _ member
    cases same

theorem safe_firstUpdateMany {next : Nat → Transaction α} (linked : Linked Tight (dispatch db))
    (outside : ∀ db : Database, Linked Tight (dispatch db) → ∀ i row, db.rows t i = some row → p i row = true →
      ∀ b, ¬OfBatch (dispatch db) b (.row t i))
    (links : ∀ db : Database, Linked Tight (dispatch db) → ∀ L : MarketLock → Prop,
      Linked Tight (dispatch (db.apply (db.updates t p (f db.clock)))) ∧
        Respects L (dispatch db) (dispatch (db.apply (db.updates t p (f db.clock)))))
    (rest : ∀ db e, e = Tx.updatesEffect db t p (f db.clock) [] → Linked Tight (dispatch db) → Knows x db.clock (dispatch db) →
      Working Tight e.locks e.writes (db.reserve e.writes) →
      (next (db.matching t p).length).Safe locking x Q e.locks e.writes (db.reserve e.writes)) :
    (Tx.updateMany t p f >>= next).Safe locking x Q [] .none db := safe_firstUpdates linked outside links rest

theorem safe_firstUpdate {next : Unit → Transaction α} (linked : Linked Tight (dispatch db))
    (outside : ∀ db : Database, Linked Tight (dispatch db) → ∀ i row, db.rows t i = some row → p i row = true →
      ∀ b, ¬OfBatch (dispatch db) b (.row t i))
    (links : ∀ db : Database, Linked Tight (dispatch db) → ∀ L : MarketLock → Prop,
      Linked Tight (dispatch (db.apply (db.updates t p (f db.clock)))) ∧
        Respects L (dispatch db) (dispatch (db.apply (db.updates t p (f db.clock)))))
    (rest : ∀ db e, e = Tx.updatesEffect db t p (f db.clock) [] → Linked Tight (dispatch db) → Knows x db.clock (dispatch db) →
      Working Tight e.locks e.writes (db.reserve e.writes) → db.matching t p ≠ [] →
      (next ()).Safe locking x Q e.locks e.writes (db.reserve e.writes)) :
    (Tx.update t p f missing >>= next).Safe locking x Q [] .none db := by
  refine safe_firstUpdates linked outside links ?_
  intro db e same linked knows working
  exact safe_found fun some => rest db e same linked knows working some

end First

theorem job_outside (i : Nat) : ¬OfBatch c b (.row .deliveryJob i) := fun part => by cases part
theorem deliverer_outside (i : Nat) : ¬OfBatch c b (.row .delivererProfile i) := fun part => by cases part

theorem unready_underway : (underway o).status ∉ READYABLE_STATUSES := by simp [underway,READYABLE_STATUSES]
theorem unready_delivered : (delivered now o).status ∉ READYABLE_STATUSES := by simp [delivered,READYABLE_STATUSES]
theorem unready_released : (released o).status ∉ READYABLE_STATUSES := by simp [released,READYABLE_STATUSES]
theorem unready_handed : (handed d j o).status ∉ READYABLE_STATUSES := by simp [handed,READYABLE_STATUSES]

-- The orders that carry the job's id.
theorem safe_jobOrders {p : Nat → Order → Bool} {f : Nat → Order → Order} {next : Nat → Transaction α} {Q : α → Mark Row Key}
    (working : Working loose h w db) (holds : Holds j b h w db) (stable : locking.Stable x A) (lasting : Lasting A) (known : A h w db)
    (part : ∀ i o, p i o = true → o.deliveryJobId = some j)
    (same : ∀ now o, (f now o).deliveryBatchId = o.deliveryBatchId ∧
      ((f now o).deliveryJobId = o.deliveryJobId ∨ (f now o).deliveryJobId = none) ∧ (f now o).status ∉ READYABLE_STATUSES)
    (rest : ∀ n h w db, Working loose h w db → Holds j b h w db → A h w db → (next n).Safe locking x Q h w db) :
    (Tx.updateMany .order p f >>= next).Safe locking x Q h w db := by
  refine safe_next loose (stable_and holds_stable stable) (lasting_and holds_lasting lasting) working ⟨holds,known⟩ ?_
  rintro T db working ⟨holds,known⟩ sees
  refine ⟨fits_orders working sees.locked ?_ ?_,fun h w db working both => rest _ h w db working both.1 both.2⟩
  · intro i o _ found hit
    exact holds.order working.1.committed found (part i o hit)
  · intro i o found _
    obtain ⟨batch,job,unready⟩ := same (db.apply w).clock o
    exact rejoins_same working.1.view found batch job unready

theorem stable_true : locking.Stable x fun _ _ _ => True := fun _ _ _ _ _ _ _ => trivial
theorem lasting_true : Lasting fun _ _ _ => True := fun _ _ _ _ _ _ _ => trivial

-- The job that a conditional update has found.
theorem holds_updated {p : Nat → DeliveryJob → Bool} {f : DeliveryJob → DeliveryJob} {db : Database} {e : Effect Row Key}
    (same : e = Tx.updatesEffect db .deliveryJob p f []) (found : (dispatch db).job j = some job) (hit : p j job = true)
    (kept : (f job).batchId = job.batchId) : Holds j job.batchId e.locks e.writes (db.reserve e.writes) := by
  have held : .row .deliveryJob j ∈ e.locks := by
    rw [same]
    exact List.mem_append_left _ (Tx.mem_locksOf.mpr ⟨job,found,hit⟩)
  have view : dispatch ((db.reserve e.writes).apply e.writes) = dispatch (db.apply e.writes) := dispatch_rows rfl
  refine ⟨held,.inl ⟨j,job,found,rfl,held⟩,?_,f job,?_,kept⟩
  · intro job' found'
    cases found.symm.trans found'
    rfl
  · rw [view,same]
    simp only [Tx.updatesEffect,dispatch_updates_job]
    rw [rewritten_of found,if_pos hit]

theorem safe_startJobTx (linked : Linked Tight (dispatch db)) :
    (startJobTx j d).Safe locking x (fun _ => Midway Tight) [] .none db := by
  refine safe_firstUpdateMany linked (fun _ _ i _ _ _ _ => job_outside i) ?_ ?_
  · intro db linked L
    rw [dispatch_updates_job]
    exact linked_jobs linked fun i job _ hit => ⟨rfl,fun pending => absurd pending (by simp [(of_decide_eq_true hit).2.2])⟩
  · intro db e same linked knows working
    split
    · refine safe_select stable_true working trivial ?_
      intro T db working _ sees
      split
      · trivial
      · split <;> trivial
    · rename_i some
      obtain ⟨i,job,found,hit⟩ := matching_length some
      obtain ⟨rfl,_⟩ := of_decide_eq_true hit
      have holds := holds_updated same found hit rfl
      refine safe_jobOrders working holds stable_true lasting_true trivial (fun _ _ => of_decide_eq_true)
        (fun now o => ⟨rfl,.inl rfl,unready_underway⟩) ?_
      intro n h w db working holds _
      refine safe_mono ?_ (safe_recordEvent stable_true lasting_true working trivial _)
      exact fun _ _ _ _ both => both.1.1

theorem linked_deliverers {v : Database} {p : Nat → DelivererProfile → Bool} {f : DelivererProfile → DelivererProfile}
    (linked : Linked loose (dispatch v)) : Linked loose (dispatch (v.apply (v.updates .delivererProfile p f))) ∧
      Respects L (dispatch v) (dispatch (v.apply (v.updates .delivererProfile p f))) := by
  rw [dispatch_updates_deliverer]
  exact linked_aside linked

theorem linked_jobUpdates {v : Database} {p : Nat → DeliveryJob → Bool} {f : DeliveryJob → DeliveryJob}
    (linked : Linked loose (dispatch v))
    (each : ∀ i job, (dispatch v).job i = some job → p i job = true →
      (f job).batchId = job.batchId ∧ (job.status = .pending → (f job).status = .pending)) :
    Linked loose (dispatch (v.apply (v.updates .deliveryJob p f))) ∧
      Respects L (dispatch v) (dispatch (v.apply (v.updates .deliveryJob p f))) := by
  rw [dispatch_updates_job]
  exact linked_jobs linked each

-- The job's own row, which the transaction has.
theorem fits_job {p : Nat → DeliveryJob → Bool} {f : DeliveryJob → DeliveryJob} (working : Working loose h w db)
    (held : .row .deliveryJob j ∈ h) (only : ∀ i job, p i job = true → i = j)
    (each : ∀ i job, p i job = true → (f job).batchId = job.batchId ∧ (job.status = .pending → (f job).status = .pending)) :
    Fits loose h w db (Tx.updatesEffect (db.apply w) .deliveryJob p f []) := by
  have row : ∀ k ∈ (Tx.updatesEffect (db.apply w) .deliveryJob p f [] : Effect Row Key).locks, k ∈ h := by
    intro k member
    rcases List.mem_append.mp member with row | key
    · obtain ⟨entry,hit,rfl⟩ := List.mem_map.mp row
      rw [only _ _ ((db.apply w).mem_matching.mp hit).2]
      exact held
    · cases key
  refine ⟨fun k member => .held (row k member),fun k member => .inr (row k member),drawn_updates (by simp),?_⟩
  simp only [Tx.updatesEffect,dispatch_updates_job]
  exact linked_jobs working.1.view fun i job _ => each i job

theorem safe_finishJob (working : Working Tight h w db) (holds : Holds j b h w db) (calm : Calm j h w db) :
    (finishJob j d b).Safe locking x (fun _ => Midway Tight) h w db := by
  have stable : locking.Stable x fun h w db => Holds j b h w db ∧ Calm j h w db := stable_and holds_stable calm_stable
  have lasting : Lasting fun h w db => Holds j b h w db ∧ Calm j h w db := lasting_and holds_lasting calm_lasting
  refine safe_updateMany Tight stable lasting working ⟨holds,calm⟩ ?_
  rintro T db working ⟨holds,calm⟩ sees
  refine ⟨fits_job working holds.row (fun _ _ hit => (of_decide_eq_true hit).1) fun _ job hit => ⟨rfl,fun pending => absurd pending (by simp [(of_decide_eq_true hit).2])⟩,?_⟩
  rintro h w db working known
  split
  · trivial
  · refine safe_update Tight stable lasting working known ?_
    rintro T db working ⟨holds,calm⟩ sees
    refine ⟨fits_batches working sees.locked ?_ ?_ (fun _ _ _ _ no => absurd no id),fun h w db working known _ => ?_⟩
    · intro i k _ found hit
      obtain rfl := of_decide_eq_true hit
      exact holds.batch found
    · intro i k _ claimed
      split <;> exact claimed
    · refine safe_step stable working known ?_
      rintro T db working ⟨holds,calm⟩ sees e same
      have asks : ∀ k ∈ e.locks, MayAsk h db k := by
        rw [same]
        exact asks_updates (fun _ _ _ _ => calm.deliverer) (by simp)
      have links : Linked Tight (dispatch ((db.apply w).apply e.writes)) ∧
          Respects (· ∈ h ++ e.locks) (dispatch (db.apply w)) (dispatch ((db.apply w).apply e.writes)) := by
        rw [same]
        exact linked_deliverers working.1.view
      refine ⟨asks,by rw [same]; exact drawn_updates (by simp),safe_found fun _ => ?_⟩
      refine safe_jobOrders (working_next working asks links) (holds.next links.2) stable_true lasting_true trivial
        (fun _ _ hit => (of_decide_eq_true hit).1) (fun now o => ⟨rfl,.inl rfl,unready_delivered⟩) ?_
      intro n h w db working holds _
      refine safe_mono ?_ (safe_recordEvent stable_true lasting_true working trivial _)
      exact fun _ _ _ _ both => both.1.1

-- A completion takes its job's row before it reads it.
theorem safe_readJob {next : Option DeliveryJob → Transaction α} {Q : α → Mark Row Key} (linked : Linked Tight (dispatch db))
    (completes : x.completes = some j)
    (rest : ∀ db job, Working Tight [.row .deliveryJob j] .none db → (dispatch db).job j = some job →
      (next (some job)).Safe locking x Q [.row .deliveryJob j] .none db) :
    (Tx.lock (fun v => if (v.rows .deliveryJob j).isSome then [.row .deliveryJob j] else []) >>= fun _ =>
      Tx.findUnique .deliveryJob j >>= next).Safe locking x Q [] .none db := by
  refine safe_first linked ?_
  intro T db linked sees
  obtain ⟨job,found⟩ := sees.fact.serves.job j completes
  have present : (db.rows .deliveryJob j).isSome = true := by
    rw [show db.rows .deliveryJob j = some job from found]; rfl
  simp only [present,if_true,reserve_none]
  have working : Working Tight [.row .deliveryJob j] .none db := by
    refine ⟨⟨linked,?_,?_⟩,sheltered_first ?_ (by simp) (by simp)⟩
    · rw [Db.apply_none]; exact linked
    · rw [Db.apply_none]; exact .refl
    · intro k member b
      rw [List.mem_singleton.mp member]
      exact job_outside j
  refine ⟨?_,?_⟩
  · intro t i member
    cases List.mem_singleton.mp member
    exact Nat.lt_of_lt_of_le (db.below found) (Nat.le_max_left _ _)
  · refine safe_select (A := fun h w db => .row .deliveryJob j ∈ h ∧ w = .none ∧ ∃ job, (dispatch db).job j = some job) ?_ working
      ⟨List.mem_singleton_self _,rfl,job,found⟩ ?_
    · rintro T h w db later ⟨held,none,job,found⟩ sees
      exact ⟨held,none,job,(job_sees sees.changed held).trans found⟩
    · rintro T db working ⟨_,_,job,found⟩ sees
      rw [Db.apply_none,show db.rows .deliveryJob j = some job from found]
      exact rest db job working found

theorem calm_read {job : DeliveryJob} (found : (dispatch db).job j = some job) (started : job.status = .inProgress) :
    Calm j [.row .deliveryJob j] .none db := by
  refine ⟨List.mem_singleton_self _,fun k member => .inr (List.mem_singleton.mp member),?_⟩
  intro job' found'
  cases found.symm.trans found'
  rw [started]; simp

theorem holds_read {job : DeliveryJob} (found : (dispatch db).job j = some job) :
    Holds j job.batchId [.row .deliveryJob j] .none db := by
  refine ⟨List.mem_singleton_self _,owns_held (List.mem_singleton_self _) found,?_,job,?_,rfl⟩
  · intro job' found'
    cases found.symm.trans found'
    rfl
  · rw [Db.apply_none]; exact found

theorem safe_completeJobTx (linked : Linked Tight (dispatch db)) (completes : x.completes = some j) :
    (completeJobTx j d).Safe locking x (fun _ => Midway Tight) [] .none db := by
  refine safe_readJob linked completes ?_
  intro db job working found
  dsimp only
  split
  · trivial
  · split
    · trivial
    · rename_i started
      exact safe_finishJob working (holds_read found) (calm_read found (not_not.mp started))

-- The stop that a completion has taken is one of its job's.
structure TakenStop (j s : Nat) (h : List MarketLock) (w : Writes Row) (db : Database) : Prop where
  row : .row .deliveryDropOff s ∈ h
  part : ∀ stop, (dispatch (db.apply w)).stop s = some stop → stop.jobId = j

-- The order that it goes on with is of the job's batch.
def OfItsBatch (i b : Nat) : Mark Row Key := fun _ w db => ∃ o, (dispatch (db.apply w)).order i = some o ∧ o.deliveryBatchId = some b

theorem ofItsBatch_stable : locking.Stable x (OfItsBatch i b) := by
  rintro T h w db later ⟨o,found,joined⟩ sees
  exact order_ofView sees.locked sees.changed found joined

theorem ofItsBatch_lasting : Lasting (OfItsBatch i b) := by
  rintro h w db e _ respects ⟨o,found,joined⟩
  obtain ⟨o',after,joined'⟩ := respects.order i o b found joined
  refine ⟨o',?_,joined'⟩
  rw [dispatch_own]
  exact after

theorem view_held {t : Tab} (held : .row t i ∈ h) (others : Altering (· ∉ h) db later) :
    (later.apply w).rows t i = (db.apply w).rows t i := by
  rw [Db.apply_rows,Db.apply_rows,others.rows t i (not_not.mpr held)]

theorem takenStop_stable : locking.Stable x (TakenStop j s) := by
  rintro T h w db later ⟨held,part⟩ sees
  refine ⟨held,?_⟩
  intro stop found
  exact part stop ((view_held held sees.changed).symm.trans found)

theorem fits_stops {p : Nat → DeliveryDropOff → Bool} {f : DeliveryDropOff → DeliveryDropOff} (working : Working loose h w db)
    (locked : Locked h w)
    (rows : ∀ i stop, (dispatch db).stop i = some stop → p i stop = true → MayAsk h db (.row .deliveryDropOff i))
    (each : ∀ stop, (f stop).jobId = stop.jobId ∧ (f stop).orderId = stop.orderId) :
    Fits loose h w db (Tx.updatesEffect (db.apply w) .deliveryDropOff p f []) := by
  refine ⟨asks_updates (asks_committed locked fun i stop _ => rows i stop) (by simp),?_,drawn_updates (by simp),?_⟩
  · exact fun k member => .inl (low_updates (fun _ => rfl) (by simp) k member)
  · simp only [Tx.updatesEffect,dispatch_updates_stop]
    refine linked_stops working.1.view ?_
    intro s stop found
    obtain ⟨old,before,rfl⟩ := rewritten_some found
    have same : (if p s old then f old else old).jobId = old.jobId ∧ (if p s old then f old else old).orderId = old.orderId := by
      split
      · exact each old
      · exact ⟨rfl,rfl⟩
    rw [same.1,same.2]
    exact working.1.view.stop s old before

theorem takenStop_claimed {f : DeliveryDropOff → DeliveryDropOff} {e : Effect Row Key}
    (same : e = Tx.updatesEffect (db.apply w) .deliveryDropOff (fun i stop => i = s ∧ openStop j stop) f [])
    (kept : ∀ stop, (f stop).jobId = stop.jobId)
    (some : ¬((db.apply w).matching .deliveryDropOff fun i stop => i = s ∧ openStop j stop).length = 0) :
    TakenStop j s (h ++ e.locks) (w.over e.writes) (db.reserve e.writes) := by
  obtain ⟨i,stop,found,hit⟩ := matching_length some
  obtain ⟨rfl,opened⟩ := of_decide_eq_true hit
  have at_view : (dispatch (db.apply w)).stop i = .some stop := found
  refine ⟨List.mem_append_right _ ?_,?_⟩
  · rw [same]
    exact List.mem_append_left _ (Tx.mem_locksOf.mpr ⟨stop,found,hit⟩)
  · intro stop' after
    rw [dispatch_own,same] at after
    simp only [Tx.updatesEffect,dispatch_updates_stop] at after
    rw [rewritten_of at_view,if_pos hit] at after
    cases after
    exact (kept stop).trans (of_decide_eq_true opened).1

theorem safe_recordOrderCompleted (stable : locking.Stable x A) (lasting : Lasting A) (working : Working loose h w db)
    (known : A h w db) : (recordOrderCompleted orderId orderDone).Safe locking x (fun _ h w db => Working loose h w db ∧ A h w db) h w db := by
  unfold recordOrderCompleted
  split
  · exact safe_recordEvent stable lasting working known _
  · exact ⟨working,known⟩

theorem safe_completeDropOffTx (linked : Linked Tight (dispatch db)) (completes : x.completes = some j) :
    (completeDropOffTx j s d).Safe locking x (fun _ => Midway Tight) [] .none db := by
  refine safe_readJob linked completes ?_
  intro db job working found
  dsimp only
  split
  · trivial
  · split
    · trivial
    · rename_i started
      have stable : locking.Stable x fun h w db => Holds j job.batchId h w db ∧ Calm j h w db := stable_and holds_stable calm_stable
      have lasting : Lasting fun h w db => Holds j job.batchId h w db ∧ Calm j h w db := lasting_and holds_lasting calm_lasting
      refine safe_updateManyHere stable working ⟨holds_read found,calm_read found (not_not.mp started)⟩ ?_
      rintro T db working known sees e same
      have fits : Fits Tight [.row .deliveryJob j] .none db e := by
        rw [same]
        refine fits_stops working sees.locked (fun i stop found hit => ?_) fun stop => ⟨rfl,rfl⟩
        exact known.1.dropOff working.1.committed found (of_decide_eq_true (of_decide_eq_true hit).2).1
      refine ⟨fits.asks,fits.drawn,?_⟩
      have working := working_next working fits.asks fits.links
      have known := lasting _ _ _ _ fits.low fits.links.2 known
      split
      · trivial
      · rename_i some
        refine safe_findUniqueOrThrow (stable_and stable takenStop_stable) working
          ⟨known,takenStop_claimed same (fun _ => rfl) some⟩ ?_
        rintro T db dropOff working ⟨known,taken⟩ sees at_stop
        obtain ⟨job',o,at_job,at_order,joined⟩ := working.1.view.stop s dropOff at_stop
        rw [taken.part dropOff at_stop] at at_job
        obtain ⟨job'',at_job'',batch⟩ := known.1.view
        cases at_job.symm.trans at_job''
        rw [batch] at joined
        refine safe_updateMany Tight (stable_and stable ofItsBatch_stable) (lasting_and lasting ofItsBatch_lasting) working
          ⟨known,o,at_order,joined⟩ ?_
        rintro T db working ⟨known,o,at_order,joined⟩ sees
        refine ⟨fits_orders working sees.locked ?_ ?_,fun h w db working both => ?_⟩
        · intro i r view found hit
          obtain ⟨rfl,_⟩ := of_decide_eq_true hit
          cases view.symm.trans at_order
          exact known.1.joined found joined
        · intro i r found _
          exact rejoins_same working.1.view found rfl (.inl rfl) unready_delivered
        · refine safe_bind (safe_mono ?_ (safe_recordOrderCompleted stable lasting working both.1))
          rintro _ h w db ⟨working,known⟩
          refine safe_select stable working known ?_
          rintro T db working ⟨holds,calm⟩ sees
          split
          · exact safe_bind (safe_mono (fun _ _ _ _ midway => midway) (safe_finishJob working holds calm))
          · exact working.1

-- The job that a recovery has taken back.
structure TakenBack (j : Nat) (h : List MarketLock) (w : Writes Row) (db : Database) : Prop where
  row : .row .deliveryJob j ∈ h
  pending : ∀ job, (dispatch (db.apply w)).job j = some job → job.status = .pending

theorem takenBack_stable : locking.Stable x (TakenBack j) := by
  rintro T h w db later ⟨held,pending⟩ sees
  refine ⟨held,?_⟩
  intro job found
  exact pending job ((view_held held sees.changed).symm.trans found)

-- Its batch is then free to be claimed again.
theorem linked_freed {p : Nat → DeliveryBatch → Bool} {f : DeliveryBatch → DeliveryBatch} (linked : Linked Tight (dispatch v))
    (found : (dispatch v).job j = some job) (pending : job.status = .pending) (held : L (.row .deliveryJob j))
    (only : ∀ i k, p i k = true → i = job.batchId) :
    Linked Tight (dispatch (v.apply (v.updates .deliveryBatch p f))) ∧
      Respects L (dispatch v) (dispatch (v.apply (v.updates .deliveryBatch p f))) := by
  rw [dispatch_updates_batch]
  refine ⟨linked_batches linked ?_,respects_batches ?_⟩
  · intro j' job' found' begun _
    obtain ⟨k,at_k,claimed⟩ := linked.claimed j' job' found' begun id
    refine ⟨_,rewritten_of at_k,?_⟩
    split
    · rename_i hit
      obtain rfl := linked.unique j' j job' job found' found (only _ k hit)
      cases found.symm.trans found'
      exact absurd pending begun
    · exact claimed
  · intro i k at_i claimed
    cases hit : p i k with
    | true => exact .inr ⟨j,job,found,(only i k hit).symm,held⟩
    | false => exact .inl ⟨_,rewritten_of at_i,by rw [if_neg (by simp [hit])]; exact claimed⟩

theorem safe_freed (working : Working Tight h w db) (holds : Holds j b h w db) (back : TakenBack j h w db) :
    (do
      Tx.update .deliveryBatch (fun i _ => i = b) (fun _ k => {k with delivererId := none,status := .inProgress}) .recordNotFound
      let _ ← Tx.updateMany .order (fun _ (o : Order) => o.deliveryJobId = some j) fun _ => released : Transaction Unit).Safe
        locking x (fun _ => Midway Tight) h w db := by
  refine safe_step (stable_and holds_stable takenBack_stable) working ⟨holds,back⟩ ?_
  rintro T db working ⟨holds,back⟩ sees e same
  obtain ⟨job,at_job,own⟩ := holds.view
  have asks : ∀ k ∈ e.locks, MayAsk h db k := by
    rw [same]
    refine asks_updates (asks_committed sees.locked ?_) (by simp)
    intro k row _ found hit
    obtain rfl := of_decide_eq_true hit
    exact holds.batch found
  have links : Linked Tight (dispatch ((db.apply w).apply e.writes)) ∧
      Respects (· ∈ h ++ e.locks) (dispatch (db.apply w)) (dispatch ((db.apply w).apply e.writes)) := by
    rw [same]
    exact linked_freed working.1.view at_job (back.pending job at_job) (List.mem_append_left _ back.row)
      fun k _ hit => (of_decide_eq_true hit).trans own.symm
  refine ⟨asks,by rw [same]; exact drawn_updates (by simp),safe_found fun _ => ?_⟩
  refine safe_jobOrders (working_next working asks links) (holds.next links.2) stable_true lasting_true trivial
    (fun _ _ => of_decide_eq_true) (fun now o => ⟨rfl,.inr rfl,unready_released⟩) ?_
  exact fun _ _ _ _ working _ _ => working.1

-- A recovery knows its job and the job's batch from the snapshot; they are still what they were.
theorem safe_recoverTx (linked : Linked Tight (dispatch db))
    (snapshot : ∀ now c, Knows x now c → ∃ job, c.job j = some job ∧ job.batchId = b) :
    (recoverTx d j b).Safe locking x (fun _ => Midway Tight) [] .none db := by
  refine safe_firstUpdate linked (fun _ _ i _ _ _ _ => deliverer_outside i) (fun _ linked L => linked_deliverers linked) ?_
  intro db e same linked knows working _
  have deliverers : ∀ k ∈ e.locks, ∃ i, k = .row .delivererProfile i := by
    intro k member
    rw [same] at member
    rcases List.mem_append.mp member with row | key
    · obtain ⟨entry,_,rfl⟩ := List.mem_map.mp row
      exact ⟨entry.1,rfl⟩
    · cases key
  refine safe_step (stable_own fun h _ => ∀ k ∈ h, ∃ i, k = .row .delivererProfile i) working deliverers ?_
  intro T db working deliverers sees e' same
  have asks : ∀ k ∈ e'.locks, MayAsk e.locks db k := by
    rw [same]
    refine asks_updates (asks_committed sees.locked ?_) (by simp)
    intro i job _ found hit
    obtain ⟨rfl,assigned⟩ := of_decide_eq_true hit
    exact .job found assigned deliverers
  have links : Linked Tight (dispatch ((db.apply e.writes).apply e'.writes)) ∧
      Respects (· ∈ e.locks ++ e'.locks) (dispatch (db.apply e.writes)) (dispatch ((db.apply e.writes).apply e'.writes)) := by
    rw [same]
    exact linked_jobUpdates working.1.view fun i job _ _ => ⟨rfl,by simp⟩
  refine ⟨asks,by rw [same]; exact drawn_updates (by simp),safe_found fun some => ?_⟩
  have sees_view := working.1.respects
  have working := working_next working asks links
  obtain ⟨job,at_job,rfl⟩ := snapshot _ _ sees.fact
  obtain ⟨i,seen,found,hit⟩ := matching_some some
  obtain ⟨rfl,assigned⟩ := of_decide_eq_true hit
  have at_view : (dispatch (db.apply e.writes)).job i = .some seen := found
  have batch : seen.batchId = job.batchId := by
    obtain ⟨job',after,kept⟩ := sees_view.job i job at_job
    cases after.symm.trans at_view
    exact kept
  have held : .row .deliveryJob i ∈ e.locks ++ e'.locks := by
    rw [same]
    exact List.mem_append_right _ (List.mem_append_left _ (Tx.mem_locksOf.mpr ⟨seen,found,hit⟩))
  have after : (dispatch ((db.reserve e'.writes).apply (e.writes.over e'.writes))).job i =
      .some {seen with status := .pending,delivererId := none} := by
    rw [dispatch_own,same]
    simp only [Tx.updatesEffect,dispatch_updates_job]
    rw [rewritten_of at_view,if_pos hit]
  have holds : Holds i job.batchId (e.locks ++ e'.locks) (e.writes.over e'.writes) (db.reserve e'.writes) := by
    refine ⟨held,owns_held held at_job,?_,_,after,batch⟩
    intro job' found'
    cases at_job.symm.trans found'
    rfl
  have back : TakenBack i (e.locks ++ e'.locks) (e.writes.over e'.writes) (db.reserve e'.writes) := by
    refine ⟨held,?_⟩
    intro job' found'
    cases after.symm.trans found'
    simp
  exact safe_freed working holds back

-- What an assignment's upsert takes and writes.
structure Upserted (db : Database) (j b d n : Nat) (e : Effect Row Key) : Prop where
  row : .row .deliveryJob j ∈ e.locks
  key : .key (.jobOfBatch b) ∈ e.locks
  only : ∀ k ∈ e.locks, k = .row .deliveryJob j ∨ k = .key (.jobOfBatch b)
  rows : dispatch (db.apply e.writes) =
    {dispatch db with job := Function.update (dispatch db).job j (some (assignedJob b d n db.clock))}
  batches : ∀ i, e.writes.rows .deliveryBatch i = none
  job : (∃ old, (dispatch db).job j = some old ∧ old.batchId = b) ∨
    ((dispatch db).job j = none ∧ ∀ i old, (dispatch db).job i = some old → old.batchId ≠ b)

-- The transaction has written no batch yet, and its locks are its job's and lower ones.
def Preparing (j : Nat) (h : List MarketLock) (w : Writes Row) : Prop :=
  (∀ k ∈ h, lockRank k = 0 ∨ k = .row .deliveryJob j) ∧ ∀ i, w.rows .deliveryBatch i = none

theorem Upserted.working {e : Effect Row Key} (upserted : Upserted db j b d n e) (linked : Linked Tight (dispatch db)) :
    Working (· = j) e.locks e.writes (db.reserve e.writes) := by
  refine working_first linked (sheltered_first ?_ ?_ ?_) ?_
  · intro k member b'
    rcases upserted.only k member with rfl | rfl
    · exact job_outside j
    · exact fun part => by cases part
  · intro b' member
    rcases upserted.only _ member with same | same <;> cases same
  · intro j' member
    rcases upserted.only _ member with same | same <;> cases same
  · rw [upserted.rows]
    refine linked_job linked ?_ (fun _ => upserted.key) (fun _ no => absurd no id) rfl
    intro i job found
    rcases upserted.job with ⟨old,at_j,same⟩ | ⟨none,others⟩
    · constructor
      · rintro rfl
        cases found.symm.trans at_j
        exact same
      · exact fun batch => linked.unique i j job old found at_j (batch.trans same.symm)
    · constructor
      · rintro rfl
        cases found.symm.trans none
      · exact fun batch => absurd batch (others i job found)

theorem Upserted.holds {e : Effect Row Key} (upserted : Upserted db j b d n e) :
    Holds j b e.locks e.writes (db.reserve e.writes) := by
  have view : dispatch ((db.reserve e.writes).apply e.writes) = dispatch (db.apply e.writes) := dispatch_rows rfl
  refine ⟨upserted.row,?_,?_,assignedJob b d n db.clock,?_,rfl⟩
  · rcases upserted.job with ⟨old,at_j,same⟩ | ⟨_,others⟩
    · exact .inl ⟨j,old,at_j,same,upserted.row⟩
    · exact .inr ⟨upserted.key,others⟩
  · intro job found
    rcases upserted.job with ⟨old,at_j,same⟩ | ⟨none,_⟩
    · cases at_j.symm.trans found
      exact same
    · cases none.symm.trans found
  · rw [view,upserted.rows]
    exact Function.update_self ..

theorem Upserted.preparing {e : Effect Row Key} (upserted : Upserted db j b d n e) : Preparing j e.locks e.writes := by
  refine ⟨?_,upserted.batches⟩
  intro k member
  rcases upserted.only k member with rfl | rfl
  · exact .inr rfl
  · exact .inl rfl

theorem upserted_updates {old : DeliveryJob} (found : jobOfBatch db b = some (j,old)) :
    Upserted db j b d n (Tx.updatesEffect db .deliveryJob (fun i _ => i = j) (fun _ => assignedJob b d n db.clock)
      [.key (.jobOfBatch b)]) := by
  obtain ⟨at_j,same⟩ := jobOfBatch_some found
  refine ⟨?_,List.mem_append_right _ (List.mem_singleton_self _),?_,?_,?_,.inl ⟨old,at_j,same⟩⟩
  · exact List.mem_append_left _ (Tx.mem_locksOf.mpr ⟨old,at_j,by simp⟩)
  · intro k member
    rcases List.mem_append.mp member with row | key
    · obtain ⟨entry,hit,rfl⟩ := List.mem_map.mp row
      exact .inl (by rw [of_decide_eq_true (db.mem_matching.mp hit).2])
    · exact .inr (List.mem_singleton.mp key)
  · simp only [Tx.updatesEffect,dispatch_updates_job]
    rw [rewritten_only at_j]
  · simp [Tx.updatesEffect]

theorem upserted_inserts (none : jobOfBatch db b = .none) :
    Upserted db (db.seq .deliveryJob) b d n (Tx.insertsEffect db .deliveryJob [assignedJob b d n db.clock] [.key (.jobOfBatch b)]) := by
  have fresh : ∀ i, db.seq .deliveryJob ≤ i → (dispatch db).job i = .none := fun i above => db.bounded .deliveryJob i above
  refine ⟨?_,List.mem_append_right _ (List.mem_singleton_self _),?_,?_,?_,.inr ⟨fresh _ (Nat.le_refl _),fun i old => jobOfBatch_none none⟩⟩
  · exact List.mem_append_left _ (by simp)
  · intro k member
    rcases List.mem_append.mp member with row | key
    · obtain ⟨i,inside,rfl⟩ := List.mem_map.mp row
      have first : i = 0 := by simpa using inside
      exact .inl (by rw [first]; rfl)
    · exact .inr (List.mem_singleton.mp key)
  · simp only [Tx.insertsEffect,dispatch_inserts_job]
    rw [inserted_one fresh]
  · simp [Tx.insertsEffect]

theorem safe_upsertJob {next : Nat → Transaction α} {Q : α → Mark Row Key} (linked : Linked Tight (dispatch db))
    (rest : ∀ j h w db, Working (· = j) h w db → Holds j b h w db → Preparing j h w → (next j).Safe locking x Q h w db) :
    (upsertJob b d n >>= next).Safe locking x Q [] .none db := by
  refine safe_first linked ?_
  intro T db linked sees
  have go : ∀ j e, Upserted db j b d n e → Drawn db e → Drawn db e ∧
      ((if (db.rows .delivererProfile d).isNone then .throw .foreignKeyViolation else .ret j : Transaction Nat) >>= next).Safe
        locking x Q e.locks e.writes (db.reserve e.writes) := by
    intro j e upserted drawn
    refine ⟨drawn,?_⟩
    split
    · trivial
    · exact rest j _ _ _ (upserted.working linked) upserted.holds upserted.preparing
  cases found : jobOfBatch db b with
  | some entry =>
    obtain ⟨j,old⟩ := entry
    have drawn : Drawn db (Tx.updatesEffect (db.apply .none) .deliveryJob (fun i _ => i = j)
      (fun _ => assignedJob b d n db.clock) [.key (.jobOfBatch b)]) := drawn_updates (by simp)
    rw [Db.apply_none] at drawn
    simp only [found]
    exact go j _ (upserted_updates found) drawn
  | none =>
    have drawn : Drawn db (Tx.insertsEffect (db.apply .none) .deliveryJob [assignedJob b d n db.clock]
      [.key (.jobOfBatch b)]) := drawn_inserts (by simp)
    rw [Db.apply_none] at drawn
    simp only [found]
    exact go _ _ (upserted_inserts found) drawn

theorem safe_claimDeliverer {next : Unit → Transaction α} {Q : α → Mark Row Key} (working : Working Tight h w db)
    (holds : Holds j b h w db) (calm : Calm j h w db)
    (rest : ∀ h w db, Working Tight h w db → Holds j b h w db → (next ()).Safe locking x Q h w db) :
    (claimDeliverer d j >>= next).Safe locking x Q h w db := by
  refine safe_step (stable_and holds_stable calm_stable) working ⟨holds,calm⟩ ?_
  rintro T db working ⟨holds,calm⟩ sees e same
  have asks : ∀ k ∈ e.locks, MayAsk h db k := by
    rw [same]
    refine asks_updates (fun _ _ _ _ => calm.deliverer) ?_
    intro k member
    rw [List.mem_singleton.mp member]
    exact .active holds.row
  have links : Linked Tight (dispatch ((db.apply w).apply e.writes)) ∧
      Respects (· ∈ h ++ e.locks) (dispatch (db.apply w)) (dispatch ((db.apply w).apply e.writes)) := by
    rw [same]
    exact linked_deliverers working.1.view
  refine ⟨asks,by rw [same]; exact drawn_updates (by simp),?_⟩
  have go : ∀ t : Transaction Unit, t = .ret () ∨ (∃ e, t = .throw e) →
      (t >>= next).Safe locking x Q (h ++ e.locks) (w.over e.writes) (db.reserve e.writes) := by
    rintro t (rfl | ⟨e,rfl⟩)
    · exact rest _ _ _ (working_next working asks links) (holds.next links.2)
    · trivial
  refine go _ ?_
  beta_reduce
  split
  · exact .inr ⟨_,rfl⟩
  · split
    · exact .inr ⟨_,rfl⟩
    · exact .inl rfl

-- Nobody waits for a deliverer's row with the job in hand once the batch is the transaction's.
theorem Preparing.calm {k : DeliveryBatch} {e : Effect Row Key} (preparing : Preparing j h w) (holds : Holds j b h w db)
    (linked : Linked Tight (dispatch db)) (found : (db.apply w).rows .deliveryBatch b = some k) (unclaimed : k.delivererId = none)
    (low : ∀ k ∈ e.locks, lockRank k = 0) : Calm j (h ++ e.locks) (w.over e.writes) (db.reserve e.writes) := by
  refine ⟨List.mem_append_left _ holds.row,?_,?_⟩
  · intro l member
    rcases List.mem_append.mp member with before | new
    · exact preparing.1 l before
    · exact .inl (low l new)
  · intro job at_job assigned
    obtain ⟨k',at_k,claimed⟩ := linked.claimed j job at_job (by simp [assigned]) id
    rw [holds.part job at_job] at at_k
    have committed : (db.apply w).rows .deliveryBatch b = some k' := by
      rw [Db.apply_rows,preparing.2 b]
      exact at_k
    cases committed.symm.trans found
    exact claimed unclaimed

-- The job's stops give way to new ones, one for each order that was read.
theorem fits_cleared (working : Working Tight h w db) (holds : Holds j b h w db) (locked : Locked h w) :
    Fits Tight h w db (Tx.deletesEffect (db.apply w) .deliveryDropOff fun _ (stop : DeliveryDropOff) => stop.jobId = j) := by
  refine ⟨asks_deletes (asks_committed locked ?_),?_,drawn_deletes,?_⟩
  · exact fun i stop _ found hit => holds.dropOff working.1.committed found (of_decide_eq_true hit)
  · intro k member
    obtain ⟨entry,_,rfl⟩ := List.mem_map.mp member
    exact .inl rfl
  · simp only [Tx.deletesEffect,dispatch_deletes_stop]
    refine linked_stops working.1.view ?_
    intro s stop found
    exact working.1.view.stop s stop (removed_some.mp found).1

theorem fits_dropOffs (working : Working Tight h w db) (holds : Holds j b h w db)
    (joined : ∀ e ∈ orders, ∃ o, (dispatch db).order e.1 = some o ∧ o.deliveryBatchId = some b) :
    Fits Tight h w db (Tx.insertsEffect (db.apply w) .deliveryDropOff (dropOffs j orders) []) := by
  refine fits_inserts (fun _ => rfl) ?_
  rw [dispatch_inserts_stop]
  have each : ∀ s stop, inserted ((db.apply w).seq .deliveryDropOff) (dropOffs j orders) (dispatch (db.apply w)).stop s = some stop →
      ∃ job o, (dispatch (db.apply w)).job stop.jobId = some job ∧ (dispatch (db.apply w)).order stop.orderId = some o ∧
        o.deliveryBatchId = some job.batchId := by
    intro s stop found
    unfold inserted at found
    split at found
    · obtain ⟨job,at_job,own⟩ := holds.view
      unfold dropOffs at found
      rw [List.getElem?_mapIdx] at found
      obtain ⟨e,at_e,rfl⟩ := Option.map_eq_some_iff.mp found
      obtain ⟨o,at_order,part⟩ := joined e (List.mem_of_getElem? at_e)
      obtain ⟨o',at_view,part'⟩ := working.1.respects.order _ o b at_order part
      exact ⟨job,o',at_job,at_view,by rw [own]; exact part'⟩
    · exact working.1.view.stop s stop found
  exact ⟨(linked_stops (L := fun _ => True) working.1.view each).1,fun L => (linked_stops working.1.view each).2⟩

theorem safe_assignTx (linked : Linked Tight (dispatch db))
    (joined : ∀ now c, Knows x now c → ∀ e ∈ orders, ∃ o, c.order e.1 = some o ∧ o.deliveryBatchId = some b) :
    (assignTx b orders d).Safe locking x (fun _ => Midway Tight) [] .none db := by
  refine safe_upsertJob linked ?_
  intro j h w db working holds preparing
  refine safe_updateManyHere (stable_and holds_stable (stable_own (Preparing j))) working ⟨holds,preparing⟩ ?_
  rintro T db working ⟨holds,preparing⟩ sees e same
  have rows : ∀ i k, (dispatch (db.apply w)).batch i = some k → (dispatch db).batch i = some k →
      decide (i = b ∧ k.delivererId = none ∧ k.status = .inProgress) = true → MayAsk h db (.row .deliveryBatch i) := by
    intro i k _ found hit
    obtain ⟨rfl,_⟩ := of_decide_eq_true hit
    exact holds.batch found
  have asks : ∀ k ∈ e.locks, MayAsk h db k := by
    rw [same]
    exact asks_updates (asks_committed sees.locked rows) (by simp)
  have low : ∀ k ∈ e.locks, lockRank k = 0 := by
    rw [same]
    exact low_updates (fun _ => rfl) (by simp)
  refine ⟨asks,by rw [same]; exact drawn_updates (by simp),?_⟩
  split
  · trivial
  · rename_i some
    obtain ⟨i,k,found,hit⟩ := matching_length some
    obtain ⟨rfl,unclaimed,_⟩ := of_decide_eq_true hit
    have calm := preparing.calm holds working.1.committed found unclaimed low
    have links : Linked Tight (dispatch ((db.apply w).apply e.writes)) ∧
        Respects (· ∈ h ++ e.locks) (dispatch (db.apply w)) (dispatch ((db.apply w).apply e.writes)) := by
      rw [same]
      refine (fits_batches working sees.locked rows ?_ ?_).links
      · intro i k _ claimed
        split
        · simp
        · exact claimed
      · rintro _ job at_job _ rfl _
        obtain ⟨job',at_job',own⟩ := holds.view
        cases at_job.symm.trans at_job'
        rw [own]
        exact ⟨k,found,by rw [if_pos hit]; simp⟩
    refine safe_claimDeliverer (working_next working asks links) (holds.next links.2) calm ?_
    intro h w db working holds
    refine safe_updateMany Tight holds_stable holds_lasting working holds ?_
    intro T db working holds sees
    obtain ⟨job,at_job,own⟩ := holds.view
    refine ⟨fits_orders working sees.locked ?_ ?_,fun h w db working holds => ?_⟩
    · exact fun i o _ found hit => holds.joined found (of_decide_eq_true hit)
    · intro i o found hit
      refine ⟨fun _ same => same,?_,fun ready => absurd ready unready_handed⟩
      intro j' part
      cases part
      exact ⟨job,at_job,by rw [own]; exact of_decide_eq_true hit⟩
    · refine safe_deleteMany Tight holds_stable holds_lasting working holds ?_
      intro T db working holds sees
      refine ⟨fits_cleared working holds sees.locked,fun h w db working holds => ?_⟩
      refine safe_createMany Tight holds_stable holds_lasting working holds ?_
      intro T db working holds sees
      refine ⟨fits_dropOffs working holds (joined _ _ sees.fact),fun h w db working holds => ?_⟩
      refine safe_bind (safe_mono ?_ (safe_recordEvent stable_true lasting_true working trivial _))
      exact fun _ _ _ _ both => both.1.1

end Jobs
end MesyafMarket
