import MesyafMarket.EventBooks

namespace MesyafMarket
open Relational OrderService DelivererAssignmentService DelivererJobService DelivererRecoveryService
open EventLogService VendorService SessionService DelivererService DelivererLocationService AdminService

-- A relation of the rows before a transaction to those after it that everything
-- written to tables of `T` keeps to, and every recorded event.
structure Recording (T : Tab → Prop) (R : Database → Database → Prop) : Prop where
  order : T .order
  orderItem : T .orderItem
  batch : T .deliveryBatch
  job : T .deliveryJob
  stop : T .deliveryDropOff
  deliverer : T .delivererProfile
  refl : ∀ v, R v v
  trans : ∀ a b c, R a b → R b c → R a c
  plain : ∀ {α} {x : Transaction α}, Confined T x → Follows R x
  recorded : ∀ params, Follows R (recordEvent params)

section Bodies
variable {T : Tab → Prop} {R : Database → Database → Prop} (keeps : Recording T R)
include keeps

theorem Recording.bind {x : Transaction α} {f : α → Transaction β} (first : Follows R x)
    (rest : ∀ a, Follows R (f a)) : Follows R (x >>= f) := follows_bind keeps.trans first rest

theorem Recording.after {x : Transaction α} {f : α → Transaction β} (within : Confined T x)
    (rest : ∀ a, Follows R (f a)) : Follows R (x >>= f) := keeps.bind (keeps.plain within) rest

theorem Recording.ret (a : α) : Follows R (.ret a : Transaction α) := follows_ret keeps.refl a

theorem recording_createOrderTx : Follows R (createOrderTx dto vendorId costumerId vendor) := by
  refine keeps.after confined_select fun referenced => ?_
  split
  · exact follows_throw _
  · refine keeps.after (confined_create keeps.order) fun order => ?_
    refine keeps.after (confined_createMany keeps.orderItem) fun _ => ?_
    exact keeps.bind (keeps.recorded _) fun _ => keeps.ret _

theorem recording_vendorMarkReadyTx {env : Env} : Follows R (vendorMarkReadyTx env o orderType) := by
  refine keeps.after (confined_updateMany keeps.order) fun claimed => ?_
  split
  · exact follows_throw _
  · refine keeps.after confined_findUniqueOrThrow fun readyOrder => ?_
    refine keeps.after (confined_assignToBatch keeps.order keeps.batch) fun batching => ?_
    exact keeps.bind (keeps.recorded _) fun _ => keeps.ret _

theorem recording_assignTx : Follows R (assignTx b orders d) := by
  refine keeps.after (confined_upsertJob keeps.job) fun jobId => ?_
  refine keeps.after (confined_updateMany keeps.batch) fun updatedBatch => ?_
  split
  · exact follows_throw _
  · refine keeps.after (confined_claimDeliverer keeps.deliverer) fun _ => ?_
    refine keeps.after (confined_updateMany keeps.order) fun _ => ?_
    refine keeps.after (confined_deleteMany keeps.stop) fun _ => ?_
    refine keeps.after (confined_createMany keeps.stop) fun _ => ?_
    exact keeps.bind (keeps.recorded _) fun _ => keeps.ret _

theorem recording_startJobTx : Follows R (startJobTx j d) := by
  refine keeps.after (confined_updateMany keeps.job) fun started => ?_
  split
  · refine keeps.after confined_select fun job => ?_
    split
    · exact follows_throw _
    · split <;> exact follows_throw _
  · exact keeps.after (confined_updateMany keeps.order) fun _ => keeps.recorded _

theorem recording_finishJob : Follows R (finishJob j d b) := by
  refine keeps.after (confined_updateMany keeps.job) fun done => ?_
  split
  · exact follows_throw _
  · refine keeps.after (confined_update keeps.batch) fun _ => ?_
    refine keeps.after (confined_update keeps.deliverer) fun _ => ?_
    exact keeps.after (confined_updateMany keeps.order) fun _ => keeps.recorded _

theorem recording_recordOrderCompleted : Follows R (recordOrderCompleted o n) := by
  unfold recordOrderCompleted
  split
  · exact keeps.recorded _
  · exact keeps.ret _

theorem recording_completeDropOffTx : Follows R (completeDropOffTx j s d) := by
  refine keeps.after confined_selectLocking fun _ => keeps.after confined_select fun job => ?_
  split
  · exact follows_throw _
  · split
    · exact follows_throw _
    · split
      · exact follows_throw _
      · refine keeps.after (confined_updateMany keeps.stop) fun claimed => ?_
        split
        · exact follows_throw _
        · refine keeps.after confined_findUniqueOrThrow fun dropOff => ?_
          refine keeps.after (confined_updateMany keeps.order) fun orderDone => ?_
          refine keeps.bind (recording_recordOrderCompleted keeps) fun _ => keeps.after confined_select fun remaining => ?_
          split
          · exact keeps.bind (recording_finishJob keeps) fun _ => keeps.ret _
          · exact keeps.ret _

theorem recording_completeJobTx : Follows R (completeJobTx j d) := by
  refine keeps.after confined_selectLocking fun _ => keeps.after confined_select fun job => ?_
  split
  · exact follows_throw _
  · split
    · exact follows_throw _
    · split
      · exact follows_throw _
      · exact recording_finishJob keeps

end Bodies

section Accounts

theorem confined_deleteProfileTx {T : Tab → Prop} (deliverer : T .delivererProfile) (job : T .deliveryJob)
    (batch : T .deliveryBatch) (order : T .order) : Confined T (deleteProfileTx userId) := by
  refine confined_bind confined_select fun found => ?_
  cases found with
  | none => trivial
  | some d =>
    have references : Confined T (forgetDeliverer d.1) := confined_bind (confined_updateMany job) fun _ =>
      confined_bind (confined_updateMany batch) fun _ => confined_bind (confined_updateMany order) fun _ => trivial
    exact confined_bind references fun _ => confined_bind (confined_deleteMany deliverer) fun _ => trivial

theorem confined_createProfileTx {T : Tab → Prop} (deliverer : T .delivererProfile) :
    Confined T (createProfileTx userId) := by
  refine confined_bind confined_select fun found => confined_bind confined_select fun user => ?_
  split
  · trivial
  · split
    · trivial
    · exact confined_bind (confined_create deliverer) fun _ => trivial

end Accounts

-- What no service undoes: events are only added and carry the time they are added
-- at, vendor profiles stay, and a user's lastSeenAt is left or set to the time.
structure Ongoing (v v' : Database) : Prop where
  clock : v'.clock = v.clock
  vendors : v'.rows .vendorProfile = v.rows .vendorProfile
  seen : ∀ i u, v.rows .user i = some u → ∃ u', v'.rows .user i = some u' ∧
    (u'.lastSeenAt = u.lastSeenAt ∨ u'.lastSeenAt = some v.clock)
  grows : v.seq .eventLog ≤ v'.seq .eventLog
  kept : ∀ i, i < v.seq .eventLog → v'.rows .eventLog i = v.rows .eventLog i
  added : ∀ i event, v.seq .eventLog ≤ i → v'.rows .eventLog i = some event → event.createdAt = v.clock

theorem Ongoing.refl (v : Database) : Ongoing v v := by
  refine ⟨rfl,rfl,fun _ u found => ⟨u,found,.inl rfl⟩,Nat.le_refl _,fun _ _ => rfl,?_⟩
  intro i event above found
  rw [v.bounded .eventLog i above] at found; cases found

theorem Ongoing.trans (v v₁ v₂ : Database) (first : Ongoing v v₁) (second : Ongoing v₁ v₂) : Ongoing v v₂ := by
  refine ⟨second.clock.trans first.clock,second.vendors.trans first.vendors,?_,Nat.le_trans first.grows second.grows,
    ?_,?_⟩
  · intro i u found
    obtain ⟨u₁,found₁,one⟩ := first.seen i u found
    obtain ⟨u₂,found₂,two⟩ := second.seen i u₁ found₁
    refine ⟨u₂,found₂,?_⟩
    rcases two with same | now
    · rw [same]; exact one
    · rw [now,first.clock]; exact .inr rfl
  · intro i below
    rw [second.kept i (Nat.lt_of_lt_of_le below first.grows)]; exact first.kept i below
  · intro i event above found
    by_cases early : i < v₁.seq .eventLog
    · rw [second.kept i early] at found; exact first.added i event above found
    · rw [second.added i event (by omega) found]; exact first.clock

def Tab.plain (t : Tab) : Prop := t ≠ .user ∧ t ≠ .vendorProfile ∧ t ≠ .eventLog

instance (t : Tab) : Decidable t.plain := inferInstanceAs (Decidable (_ ∧ _))

theorem ongoing_plain {x : Transaction α} (within : Confined Tab.plain x) : Follows Ongoing x := by
  intro v r ran
  have same : ∀ t, ¬Tab.plain t → r.2.rows t = v.rows t ∧ r.2.seq t = v.seq t := fun t other =>
    confined_run within ran other
  obtain ⟨log,seq⟩ := same .eventLog fun plain => plain.2.2 rfl
  refine ⟨run_clock ran,(same .vendorProfile fun plain => plain.2.1 rfl).1,?_,by rw [seq],fun _ _ => by rw [log],?_⟩
  · intro i u found
    rw [(same .user fun plain => plain.1 rfl).1]
    exact ⟨u,found,.inl rfl⟩
  · intro i event above found
    rw [log,v.bounded .eventLog i above] at found; cases found

theorem ongoing_createEvent : Follows Ongoing (createEvent params) := by
  intro v r ran
  have outside : ∀ t, t ≠ .eventLog → r.2.rows t = v.rows t := fun t other =>
    (confined_run (confined_create (T := (· = .eventLog)) rfl) ran other).1
  obtain ⟨_,log,seq,_,_⟩ := createEvent_books ran
  refine ⟨run_clock ran,outside .vendorProfile nofun,?_,by omega,?_,?_⟩
  · intro i u found
    rw [outside .user nofun]
    exact ⟨u,found,.inl rfl⟩
  · intro i below
    rw [log,Function.update_of_ne (Nat.ne_of_lt below)]
  · intro i event above found
    rw [log] at found
    rcases update_some found with ⟨_,rfl⟩ | ⟨_,before⟩
    · rfl
    · rw [v.bounded .eventLog i above] at before; cases before

theorem ongoing_projectEvent : Follows Ongoing (projectEvent eventId event) :=
  ongoing_plain (confined_projectEvent (by decide) (by decide))

theorem ongoing_recordEvent : Follows Ongoing (recordEvent params) :=
  follows_bind Ongoing.trans ongoing_createEvent fun _ => ongoing_projectEvent

theorem ongoing_recording : Recording Tab.plain Ongoing where
  order := by decide
  orderItem := by decide
  batch := by decide
  job := by decide
  stop := by decide
  deliverer := by decide
  refl := Ongoing.refl
  trans := Ongoing.trans
  plain := ongoing_plain
  recorded _ := ongoing_recordEvent

theorem ongoing_updateUser {f : Nat → User → User}
    (seen : ∀ now u, (f now u).lastSeenAt = u.lastSeenAt ∨ (f now u).lastSeenAt = some now) :
    Follows Ongoing (updateUser userId f) := by
  intro v r ran
  have outside : ∀ t, t ≠ .user → r.2.rows t = v.rows t ∧ r.2.seq t = v.seq t := fun t other =>
    confined_run (confined_update (T := (· = .user)) rfl) ran other
  obtain ⟨log,seq⟩ := outside .eventLog nofun
  obtain ⟨same,_⟩ := update_parts ran
  refine ⟨run_clock ran,(outside .vendorProfile nofun).1,?_,by rw [seq],fun _ _ => by rw [log],?_⟩
  · intro i u found
    rw [same,Db.apply_updates]
    dsimp only
    rw [found,Option.map_some]
    refine ⟨_,rfl,?_⟩
    split
    · exact seen v.clock u
    · exact .inl rfl
  · intro i event above found
    rw [log,v.bounded .eventLog i above] at found; cases found

-- Every transaction of every service process.
theorem ongoing_commit {env : Env} {x : Proc} (at_tx : Proc.next env x = .tx body) : Follows Ongoing body := by
  cases x <;> simp only [Proc.next,reduceCtorEq] at at_tx
  case notifyCustomers => split at at_tx <;> cases at_tx
  case requeue => split at at_tx <;> cases at_tx
  all_goals cases at_tx
  case insertOrder => exact ongoing_recording.bind (recording_createOrderTx ongoing_recording) fun _ => ongoing_recording.ret _
  case claimReady => exact ongoing_recording.bind (recording_vendorMarkReadyTx ongoing_recording) fun _ => ongoing_recording.ret _
  case closeBatch => exact ongoing_recording.after (confined_updateMany (by decide)) fun _ => ongoing_recording.ret _
  case updateDecided => exact ongoing_recording.after (confined_update (by decide)) fun _ => ongoing_recording.ret _
  case recordEvent => exact ongoing_recording.bind ongoing_createEvent fun _ => ongoing_recording.ret _
  case projectEvent => exact ongoing_recording.bind ongoing_projectEvent fun _ => ongoing_recording.ret _
  case assign => exact ongoing_recording.bind (recording_assignTx ongoing_recording) fun _ => ongoing_recording.ret _
  case startJob => exact ongoing_recording.bind (recording_startJobTx ongoing_recording) fun _ => ongoing_recording.ret _
  case completeDropOff => exact ongoing_recording.bind (recording_completeDropOffTx ongoing_recording) fun _ => ongoing_recording.ret _
  case completeJob => exact ongoing_recording.bind (recording_completeJobTx ongoing_recording) fun _ => ongoing_recording.ret _
  case writeLocation => exact ongoing_recording.after (confined_update (by decide)) fun _ => ongoing_recording.ret _
  case recoverUnstartedJob =>
    exact ongoing_recording.after (confined_recoverTx (by decide) (by decide) (by decide) (by decide)) fun _ => ongoing_recording.ret _
  case writeProfile => exact ongoing_recording.after (confined_update (by decide)) fun _ => ongoing_recording.ret _
  case markPresence presence _ =>
    refine ongoing_recording.bind (ongoing_updateUser fun now u => ?_) fun _ => ongoing_recording.ret _
    cases presence <;> exact .inr rfl
  case deleteProfile =>
    exact ongoing_recording.after (confined_deleteProfileTx (by decide) (by decide) (by decide) (by decide)) fun _ => ongoing_recording.ret _
  case demote => exact ongoing_recording.bind (ongoing_updateUser fun _ _ => .inl rfl) fun _ => ongoing_recording.ret _
  case promote => exact ongoing_recording.bind (ongoing_updateUser fun _ _ => .inl rfl) fun _ => ongoing_recording.ret _
  case createProfile => exact ongoing_recording.after (confined_createProfileTx (by decide)) fun _ => ongoing_recording.ret _

end MesyafMarket
