import MesyafMarket.Dispatch.Locking

namespace MesyafMarket
open Relational OrderService DelivererAssignmentService DelivererJobService DelivererRecoveryService

section Rules
variable {x : Proc} {loose wider : Nat → Prop} {h : List MarketLock} {w : Writes Row} {db : Database} {A : Mark Row Key}

-- A statement that fits what the transaction has done so far, and asks for nothing
-- that others in turn may wait for.
structure Fits (wider : Nat → Prop) (h : List MarketLock) (w : Writes Row) (db : Database) (e : Effect Row Key) : Prop where
  asks : ∀ k ∈ e.locks, MayAsk h db k
  low : ∀ k ∈ e.locks, lockRank k = 0 ∨ k ∈ h
  drawn : Drawn db e
  links : Linked wider (dispatch ((db.apply w).apply e.writes)) ∧
    Respects (· ∈ h ++ e.locks) (dispatch (db.apply w)) (dispatch ((db.apply w).apply e.writes))

-- What a transaction knows outlasts such a statement of its own.
def Lasting (A : Mark Row Key) : Prop := ∀ h w db (e : Effect Row Key), (∀ k ∈ e.locks, lockRank k = 0 ∨ k ∈ h) →
  Respects (· ∈ h ++ e.locks) (dispatch (db.apply w)) (dispatch ((db.apply w).apply e.writes)) → A h w db →
  A (h ++ e.locks) (w.over e.writes) (db.reserve e.writes)

theorem lasting_and (one : Lasting A) (two : Lasting B) : Lasting fun h w db => A h w db ∧ B h w db :=
  fun h w db e low respects both => ⟨one h w db e low respects both.1,two h w db e low respects both.2⟩

theorem safe_next (wider : Nat → Prop) {effect : Database → Effect Row Key} {next : Database → Transaction α} {Q : α → Mark Row Key}
    (stable : locking.Stable x A) (lasting : Lasting A) (working : Working loose h w db) (known : A h w db)
    (step : ∀ T db, Working loose h w db → A h w db → locking.Sees x T h w db db → Fits wider h w db (effect (db.apply w)) ∧
      ∀ h' w' db', Working wider h' w' db' → A h' w' db' → (next (db.apply w)).Safe locking x Q h' w' db') :
    (Tx.stmt effect next).Safe locking x Q h w db := by
  refine safe_step stable working known ?_
  rintro T now working known sees e rfl
  obtain ⟨fits,rest⟩ := step T now working known sees
  exact ⟨fits.asks,fits.drawn,
    rest _ _ _ (working_next working fits.asks fits.links) (lasting _ _ _ _ fits.low fits.links.2 known)⟩

theorem safe_found {found : List β} {next : Unit → Transaction α} {Q : α → Mark Row Key}
    (rest : found ≠ [] → (next ()).Safe locking x Q h w db) :
    ((if found.isEmpty then .throw missing else .ret () : Transaction Unit) >>= next).Safe locking x Q h w db := by
  cases found with
  | nil => trivial
  | cons => exact rest (List.cons_ne_nil _ _)

section Updates
variable (wider) {t : Tab} {p : Nat → Row t → Bool} {f : Nat → Row t → Row t} {Q : α → Mark Row Key}
  (stable : locking.Stable x A) (lasting : Lasting A) (working : Working loose h w db) (known : A h w db)
include stable lasting working known

theorem safe_updateMany {next : Nat → Transaction α}
    (step : ∀ T db, Working loose h w db → A h w db → locking.Sees x T h w db db →
      Fits wider h w db (Tx.updatesEffect (db.apply w) t p (f db.clock) []) ∧ ∀ h' w' db', Working wider h' w' db' → A h' w' db' →
        (next ((db.apply w).matching t p).length).Safe locking x Q h' w' db') :
    (Tx.updateMany t p f >>= next).Safe locking x Q h w db := safe_next wider stable lasting working known step

theorem safe_update {next : Unit → Transaction α}
    (step : ∀ T db, Working loose h w db → A h w db → locking.Sees x T h w db db →
      Fits wider h w db (Tx.updatesEffect (db.apply w) t p (f db.clock) []) ∧ ∀ h' w' db', Working wider h' w' db' → A h' w' db' →
        (db.apply w).matching t p ≠ [] → (next ()).Safe locking x Q h' w' db') :
    (Tx.update t p f missing >>= next).Safe locking x Q h w db := by
  refine safe_next wider stable lasting working known ?_
  intro T db working known sees
  obtain ⟨fits,rest⟩ := step T db working known sees
  exact ⟨fits,fun h w db working known => safe_found (rest h w db working known)⟩

theorem safe_deleteMany {next : Nat → Transaction α}
    (step : ∀ T db, Working loose h w db → A h w db → locking.Sees x T h w db db →
      Fits wider h w db (Tx.deletesEffect (db.apply w) t p) ∧ ∀ h' w' db', Working wider h' w' db' → A h' w' db' →
        (next ((db.apply w).matching t p).length).Safe locking x Q h' w' db') :
    (Tx.deleteMany t p >>= next).Safe locking x Q h w db := safe_next wider stable lasting working known step

theorem safe_createMany {new : Nat → List (Row t)} {next : Unit → Transaction α}
    (step : ∀ T db, Working loose h w db → A h w db → locking.Sees x T h w db db →
      Fits wider h w db (Tx.insertsEffect (db.apply w) t (new db.clock) []) ∧ ∀ h' w' db', Working wider h' w' db' → A h' w' db' →
        (next ()).Safe locking x Q h' w' db') :
    (Tx.createMany t new >>= next).Safe locking x Q h w db := safe_next wider stable lasting working known step

theorem safe_create {new : Nat → Row t} {next : Nat × Row t → Transaction α}
    (step : ∀ T db, Working loose h w db → A h w db → locking.Sees x T h w db db →
      Fits wider h w db (Tx.insertsEffect (db.apply w) t [new db.clock] []) ∧ ∀ h' w' db', Working wider h' w' db' → A h' w' db' →
        (next ((db.apply w).seq t,new db.clock)).Safe locking x Q h' w' db') :
    (Tx.create t new >>= next).Safe locking x Q h w db := safe_next wider stable lasting working known step

omit lasting in
theorem safe_updateManyHere {next : Nat → Transaction α}
    (step : ∀ T db, Working loose h w db → A h w db → locking.Sees x T h w db db →
      ∀ e, e = Tx.updatesEffect (db.apply w) t p (f db.clock) [] → (∀ k ∈ e.locks, MayAsk h db k) ∧ Drawn db e ∧
        (next ((db.apply w).matching t p).length).Safe locking x Q (h ++ e.locks) (w.over e.writes) (db.reserve e.writes)) :
    (Tx.updateMany t p f >>= next).Safe locking x Q h w db := safe_step stable working known step

end Updates

theorem fits_none (working : Working loose h w db) : Fits loose h w db .none := by
  refine ⟨by simp [Effect.none],by simp [Effect.none],drawn_none,?_⟩
  simp only [Effect.none,Db.apply_none]
  exact ⟨working.1.view,.refl⟩

-- A read keeps everything as it is.
theorem safe_reads {next : Database → Transaction α} {Q : α → Mark Row Key} (stable : locking.Stable x A)
    (working : Working loose h w db) (known : A h w db)
    (rest : ∀ T db, Working loose h w db → A h w db → locking.Sees x T h w db db →
      (next (db.apply w)).Safe locking x Q h w db) : (Tx.stmt (fun _ => .none) next).Safe locking x Q h w db := by
  refine safe_step stable working known ?_
  rintro T now working known sees e rfl
  refine ⟨by simp [Effect.none],drawn_none,?_⟩
  simp only [Effect.none,List.append_nil,Writes.over_none,reserve_none]
  exact rest T now working known sees

theorem safe_select {query : Database → β} {next : β → Transaction α} {Q : α → Mark Row Key} (stable : locking.Stable x A)
    (working : Working loose h w db) (known : A h w db)
    (rest : ∀ T db, Working loose h w db → A h w db → locking.Sees x T h w db db →
      (next (query (db.apply w))).Safe locking x Q h w db) : (Tx.select query >>= next).Safe locking x Q h w db :=
  safe_reads stable working known rest

theorem safe_findUniqueOrThrow {t : Tab} {next : Row t → Transaction α} {Q : α → Mark Row Key} (stable : locking.Stable x A)
    (working : Working loose h w db) (known : A h w db)
    (rest : ∀ T db row, Working loose h w db → A h w db → locking.Sees x T h w db db → (db.apply w).rows t i = some row →
      (next row).Safe locking x Q h w db) : (Tx.findUniqueOrThrow t i missing >>= next).Safe locking x Q h w db := by
  refine safe_reads stable working known ?_
  intro T db working known sees
  beta_reduce
  split
  · rename_i row found
    exact rest T db row working known sees found
  · trivial

-- The locks on rows that the transaction has not written itself are on committed rows.
theorem asks_committed {t : Tab} {p : Nat → Row t → Bool} (locked : Locked h w)
    (rows : ∀ i row, (db.apply w).rows t i = some row → db.rows t i = some row → p i row = true → MayAsk h db (.row t i)) :
    ∀ i row, (db.apply w).rows t i = some row → p i row = true → MayAsk h db (.row t i) := by
  intro i row found hit
  cases written : w.rows t i with
  | some version => exact .held (locked t i (by rw [written]; exact Option.some_ne_none _))
  | none => exact rows i row found (by simpa [written] using found) hit

theorem low_updates {t : Tab} {p : Nat → Row t → Bool} {f : Row t → Row t} {extra : List MarketLock}
    (rank : ∀ i, lockRank (.row t i) = 0) (keys : ∀ k ∈ extra, lockRank k = 0) :
    ∀ k ∈ (Tx.updatesEffect v t p f extra).locks, lockRank k = 0 := by
  intro k member
  rcases List.mem_append.mp member with row | key
  · obtain ⟨entry,_,rfl⟩ := List.mem_map.mp row
    exact rank _
  · exact keys k key

theorem low_inserts {t : Tab} {new : List (Row t)} (rank : ∀ i, lockRank (.row t i) = 0) :
    ∀ k ∈ (Tx.insertsEffect v t new [] : Effect Row Key).locks, lockRank k = 0 := by
  intro k member
  rcases List.mem_append.mp member with row | key
  · obtain ⟨n,_,rfl⟩ := List.mem_map.mp row
    exact rank _
  · cases key

theorem fits_inserts {t : Tab} {new : List (Row t)} (rank : ∀ i, lockRank (.row t i) = 0)
    (links : Linked wider (dispatch ((db.apply w).apply ((db.apply w).inserts t new))) ∧
      ∀ L : MarketLock → Prop, Respects L (dispatch (db.apply w)) (dispatch ((db.apply w).apply ((db.apply w).inserts t new)))) :
    Fits wider h w db (Tx.insertsEffect (db.apply w) t new []) :=
  ⟨asks_inserts,fun k member => .inl (low_inserts rank k member),drawn_inserts (by simp),links.1,links.2 _⟩

-- An event and its projection: new rows that dispatching does not look at.
theorem fits_aside {t : Tab} {new : List (Row t)} (aside : Aside t) (working : Working loose h w db) :
    Fits loose h w db (Tx.insertsEffect (db.apply w) t new []) := by
  refine fits_inserts (fun i => ?_) ?_
  · cases aside <;> rfl
  · rw [dispatch_inserts_aside _ aside]
    exact ⟨working.1.view,fun _ => .refl⟩

section Events
variable (stable : locking.Stable x A) (lasting : Lasting A) (working : Working loose h w db) (known : A h w db)
include stable lasting working known

theorem safe_unlessPresent {t : Tab} {p : Nat → Row t → Bool} {new : Row t} (aside : Aside t) :
    (Tx.createUnlessPresent t p new : Transaction Nat).Safe locking x (fun _ h w db => Working loose h w db ∧ A h w db) h w db := by
  refine safe_next loose stable lasting working known ?_
  intro T now working known sees
  refine ⟨?_,fun _ _ _ working known => ⟨working,known⟩⟩
  split
  · exact fits_aside aside working
  · exact fits_none working

theorem safe_projectEvent (id : Nat) (event : EventLog) :
    (EventLogService.projectEvent id event).Safe locking x (fun _ h w db => Working loose h w db ∧ A h w db) h w db := by
  unfold EventLogService.projectEvent OrderTimelineProjectionService.project JobTimelineProjectionService.project
  split <;> split
  · exact ⟨working,known⟩
  · exact safe_bind (safe_unlessPresent stable lasting working known .orderTimeline)
  · exact ⟨working,known⟩
  · exact safe_bind (safe_unlessPresent stable lasting working known .jobTimeline)

theorem safe_createEvent (params : EventLogService.Params) :
    (EventLogService.createEvent params).Safe locking x (fun _ h w db => Working loose h w db ∧ A h w db) h w db :=
  safe_next loose stable lasting working known fun _ _ working _ _ =>
    ⟨fits_aside .eventLog working,fun _ _ _ working known => ⟨working,known⟩⟩

theorem safe_recordEvent (params : EventLogService.Params) :
    (EventLogService.recordEvent params).Safe locking x (fun _ h w db => Working loose h w db ∧ A h w db) h w db :=
  safe_bind (safe_mono (fun _ _ _ _ both => safe_projectEvent stable lasting both.1 both.2 _ _)
    (safe_createEvent stable lasting working known params))

end Events

-- The transaction that has the job `j` of the batch `b`.
structure Holds (j b : Nat) (h : List MarketLock) (w : Writes Row) (db : Database) : Prop where
  row : .row .deliveryJob j ∈ h
  owns : Owns h (dispatch db) b
  part : ∀ job, (dispatch db).job j = some job → job.batchId = b
  view : ∃ job, (dispatch (db.apply w)).job j = some job ∧ job.batchId = b

theorem holds_stable : locking.Stable x (Holds j b) := by
  intro T h w db later holds sees
  obtain ⟨job,found,same⟩ := holds.view
  obtain ⟨job',after,kept⟩ := job_ofView sees.locked sees.changed found
  refine ⟨holds.row,owns_sees sees.changed holds.owns,?_,job',after,kept.trans same⟩
  intro job found
  exact holds.part job ((job_sees sees.changed holds.row).symm.trans found)

theorem dispatch_own {e : Effect Row Key} :
    dispatch ((db.reserve e.writes).apply (w.over e.writes)) = dispatch ((db.apply w).apply e.writes) := by
  rw [← Db.apply_over]
  exact dispatch_rows rfl

theorem Holds.next {e : Effect Row Key} (holds : Holds j b h w db)
    (respects : Respects (· ∈ h ++ e.locks) (dispatch (db.apply w)) (dispatch ((db.apply w).apply e.writes))) :
    Holds j b (h ++ e.locks) (w.over e.writes) (db.reserve e.writes) := by
  obtain ⟨job,found,same⟩ := holds.view
  obtain ⟨job',after,kept⟩ := respects.job j job found
  refine ⟨List.mem_append_left _ holds.row,owns_more (fun _ => List.mem_append_left _) holds.owns,holds.part,job',?_,kept.trans same⟩
  rw [dispatch_own]
  exact after

theorem holds_lasting : Lasting (Holds j b) := fun _ _ _ _ _ respects holds => holds.next respects

-- It asks for the job's rows.
section Asks
variable (holds : Holds j b h w db) (linked : Linked Tight (dispatch db))
include holds

theorem Holds.joined (found : db.rows .order i = some o) (joined : o.deliveryBatchId = some b) : MayAsk h db (.row .order i) :=
  .guarded (.order found joined) holds.owns

theorem Holds.batch (found : db.rows .deliveryBatch b = some k) : MayAsk h db (.row .deliveryBatch b) :=
  .guarded (.batch found) holds.owns

include linked

theorem Holds.order (found : db.rows .order i = some o) (part : o.deliveryJobId = some j) : MayAsk h db (.row .order i) := by
  obtain ⟨job,at_j,joined⟩ := linked.job i o j found part
  rw [holds.part job at_j] at joined
  exact holds.joined found joined

theorem Holds.dropOff (found : db.rows .deliveryDropOff s = some stop) (part : stop.jobId = j) :
    MayAsk h db (.row .deliveryDropOff s) := by
  obtain ⟨job,_,at_j,_⟩ := linked.stop s stop found
  exact .guarded (.stop found at_j (holds.part job (by rw [← part]; exact at_j))) holds.owns

end Asks

-- It may still take the deliverer: its other locks are on rows of the batch, and the
-- job is not one that a recovery waits for.
structure Calm (j : Nat) (h : List MarketLock) (w : Writes Row) (db : Database) : Prop where
  row : .row .deliveryJob j ∈ h
  below : ∀ k ∈ h, lockRank k = 0 ∨ k = .row .deliveryJob j
  ended : ∀ job, (dispatch db).job j = some job → job.status ≠ .assigned

theorem calm_stable : locking.Stable x (Calm j) := by
  intro T h w db later calm sees
  refine ⟨calm.row,calm.below,?_⟩
  intro job found
  exact calm.ended job ((job_sees sees.changed calm.row).symm.trans found)

theorem calm_lasting : Lasting (Calm j) := by
  intro h w db e low _ calm
  refine ⟨List.mem_append_left _ calm.row,?_,calm.ended⟩
  intro k member
  rcases List.mem_append.mp member with before | new
  · exact calm.below k before
  · rcases low k new with least | held
    · exact .inl least
    · exact calm.below k held

theorem Calm.deliverer (calm : Calm j h w db) : MayAsk h db (.row .delivererProfile d) := by
  refine .deliverer ?_ ?_ ?_
  · intro i member
    rcases calm.below _ member with low | same
    · cases low
    · cases same
  · intro member
    rcases calm.below _ member with low | same
    · cases low
    · cases same
  · intro j' job member found
    rcases calm.below _ member with low | same
    · cases low
    · cases same
      exact calm.ended job found

theorem owns_held (held : .row .deliveryJob j ∈ h) (found : (dispatch db).job j = some job) : Owns h (dispatch db) job.batchId :=
  .inl ⟨j,job,found,rfl,held⟩

-- An update of the job's orders, and of any other rows that rank lowest.
theorem fits_orders {p : Nat → Order → Bool} {f : Order → Order} (working : Working loose h w db) (locked : Locked h w)
    (rows : ∀ i o, (dispatch (db.apply w)).order i = some o → (dispatch db).order i = some o → p i o = true →
      MayAsk h db (.row .order i))
    (each : ∀ i o, (dispatch (db.apply w)).order i = some o → p i o = true → Rejoins (dispatch (db.apply w)) o (f o)) :
    Fits loose h w db (Tx.updatesEffect (db.apply w) .order p f []) := by
  refine ⟨asks_updates (asks_committed locked rows) (by simp),?_,drawn_updates (by simp),?_⟩
  · exact fun k member => .inl (low_updates (fun _ => rfl) (by simp) k member)
  · simp only [Tx.updatesEffect,dispatch_updates_order]
    exact linked_orders working.1.view each

-- An update of batches that gives no claim up.
theorem fits_batches {p : Nat → DeliveryBatch → Bool} {f : DeliveryBatch → DeliveryBatch} (working : Working loose h w db)
    (locked : Locked h w)
    (rows : ∀ i k, (dispatch (db.apply w)).batch i = some k → (dispatch db).batch i = some k → p i k = true →
      MayAsk h db (.row .deliveryBatch i))
    (claims : ∀ i k, (dispatch (db.apply w)).batch i = some k → k.delivererId ≠ none →
      (if p i k then f k else k).delivererId ≠ none)
    (more : ∀ j job, (dispatch (db.apply w)).job j = some job → job.status ≠ .pending → loose j → ¬wider j →
      ∃ k, (dispatch (db.apply w)).batch job.batchId = some k ∧ (if p job.batchId k then f k else k).delivererId ≠ none) :
    Fits wider h w db (Tx.updatesEffect (db.apply w) .deliveryBatch p f []) := by
  refine ⟨asks_updates (asks_committed locked rows) (by simp),?_,drawn_updates (by simp),?_⟩
  · exact fun k member => .inl (low_updates (fun _ => rfl) (by simp) k member)
  · simp only [Tx.updatesEffect,dispatch_updates_batch]
    refine ⟨linked_batches working.1.view ?_,respects_batches ?_⟩
    · intro j job found begun tight
      by_cases inside : loose j
      · obtain ⟨k,at_k,claimed⟩ := more j job found begun inside tight
        exact ⟨_,rewritten_of at_k,claimed⟩
      · obtain ⟨k,at_k,claimed⟩ := working.1.view.claimed j job found begun inside
        exact ⟨_,rewritten_of at_k,claims _ k at_k claimed⟩
    · intro i k found claimed
      exact .inl ⟨_,rewritten_of found,claims i k found claimed⟩

end Rules
end MesyafMarket
