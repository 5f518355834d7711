import MesyafMarket.EventBooks
import MesyafMarket.Dispatch.Tally
import MesyafMarket.Dispatch.Waits

namespace MesyafMarket
open Relational OrderService DelivererAssignmentService DelivererJobService DelivererRecoveryService

-- The tables that jobs, their stops and their orders are not in.
def Outside (t : Tab) : Prop := t ≠ .deliveryJob ∧ t ≠ .deliveryDropOff ∧ t ≠ .order

section Statements
variable {own : Nat → Prop} {v : Database}

theorem updates_written {t : Tab} {p : Nat → Row t → Bool} {f : Row t → Row t} (written : (v.updates t p f).rows t i ≠ none) :
    ∃ row, v.rows t i = some row ∧ p i row = true := by
  rw [Db.updates_rows] at written
  cases found : v.rows t i with
  | none => rw [found] at written; exact absurd rfl written
  | some row =>
    rw [found] at written
    cases hit : p i row with
    | true => exact ⟨row,rfl,hit⟩
    | false => simp [hit] at written

theorem within_jobs {p : Nat → DeliveryJob → Bool} {f : DeliveryJob → DeliveryJob} {extra : List MarketLock}
    (only : ∀ i job, p i job = true → own i) : Within own v (Tx.updatesEffect v .deliveryJob p f extra) := by
  refine ⟨?_,?_,?_⟩
  · intro i written
    obtain ⟨job,_,hit⟩ := updates_written (t := .deliveryJob) written
    exact only i job hit
  · exact fun s written => absurd (congrFun (v.updates_other (by decide)) s) written
  · exact fun i written => absurd (congrFun (v.updates_other (by decide)) i) written

theorem within_orders {p : Nat → Order → Bool} {f : Order → Order} {extra : List MarketLock}
    (each : ∀ i o, (dispatch v).order i = some o → p i o = true → (∀ j, o.deliveryJobId = some j → own j) ∧
      ∀ j, (f o).deliveryJobId = some j → own j) : Within own v (Tx.updatesEffect v .order p f extra) := by
  refine ⟨?_,?_,?_⟩
  · exact fun i written => absurd (congrFun (v.updates_other (by decide)) i) written
  · exact fun s written => absurd (congrFun (v.updates_other (by decide)) s) written
  · intro i written
    obtain ⟨o,found,hit⟩ := updates_written (t := .order) written
    have at_order : (dispatch v).order i = some o := found
    obtain ⟨before,after⟩ := each i o at_order hit
    refine ⟨?_,?_⟩
    · intro o' j found'
      cases found.symm.trans found'
      exact before j
    · intro o' j found'
      simp only [Tx.updatesEffect,dispatch_updates_order] at found'
      rw [rewritten_of at_order,if_pos hit] at found'
      cases found'
      exact after j

theorem within_stops {p : Nat → DeliveryDropOff → Bool} {f : DeliveryDropOff → DeliveryDropOff} {extra : List MarketLock}
    (each : ∀ s stop, p s stop = true → own stop.jobId ∧ (f stop).jobId = stop.jobId) :
    Within own v (Tx.updatesEffect v .deliveryDropOff p f extra) := by
  refine ⟨?_,?_,?_⟩
  · exact fun i written => absurd (congrFun (v.updates_other (by decide)) i) written
  · intro s written
    obtain ⟨stop,found,hit⟩ := updates_written (t := .deliveryDropOff) written
    have at_stop : (dispatch v).stop s = some stop := found
    obtain ⟨mine,same⟩ := each s stop hit
    refine ⟨?_,?_⟩
    · intro stop' found'
      cases found.symm.trans found'
      exact mine
    · intro stop' found'
      simp only [Tx.updatesEffect,dispatch_updates_stop] at found'
      rw [rewritten_of at_stop,if_pos hit] at found'
      cases found'
      rw [same]
      exact mine
  · exact fun i written => absurd (congrFun (v.updates_other (by decide)) i) written

theorem quiet_event (params : EventLogService.Params) : Confined Outside (EventLogService.recordEvent params) :=
  confined_recordEvent (by simp [Outside]) (by simp [Outside]) (by simp [Outside])

end Statements

section Bodies
variable {x y : Proc} {j b d : Nat} {a c : Dispatch} {h : List MarketLock} {w : Writes Row} {db : Database}
  {P : Dispatch → Dispatch → Prop}

theorem keeps_aside {t : Transaction α} {f : α → Transaction β} {Q : β → Mark Row Key} (within : Confined Outside t)
    (about : Private j P) (owning : Owning j b P h w db)
    (rest : ∀ a h w db, Owning j b P h w db → (f a).Keeps completion x Q h w db) : (t >>= f).Keeps completion x Q h w db :=
  keeps_bind (keeps_mono (fun a h w db owning => rest a h w db owning)
    (keeps_quiet within (by simp [Outside]) (by simp [Outside]) (by simp [Outside]) about owning))

-- The first statement that takes the job.
theorem owning_first {e : Effect Row Key} {job : DeliveryJob} (foot : Footprint (fun _ => False) h w db)
    (within : Within (· = j) (db.apply w) e) (held : .row .deliveryJob j ∈ e.locks) (found : (dispatch db).job j = some job)
    (now : P (dispatch db) (dispatch ((db.apply w).apply e.writes))) :
    Owning j job.batchId P (h ++ e.locks) (w.over e.writes) (db.reserve e.writes) := by
  refine ⟨footprint_next foot (fun _ no => no.elim) (fun i same => ?_) within,.inl ⟨job,found,rfl⟩,?_⟩
  · rw [same]; exact List.mem_append_right _ held
  · rw [dispatch_own]; exact now

-- A job that has not been started before, nor is it COMPLETED after.
structure Unstarted (status : JobStatus) (j : Nat) (a b : Dispatch) : Prop where
  job : ∃ job, a.job j = some job ∧ job.status = .assigned ∧ ∃ job', b.job j = some job' ∧ job'.status = status
  stop : ∀ s stop, stop.jobId = j → (b.stop s = some stop ↔ a.stop s = some stop)
  order : status ≠ .pending → ∀ i o, a.order i = some o → o.deliveryJobId = some j →
    ∃ o', b.order i = some o' ∧ o'.deliveryJobId = some j

theorem unstarted_private : Private j (Unstarted status j) := by
  intro a a' b b' same same' unstarted
  obtain ⟨job,at_a,assigned,job',at_b,now⟩ := unstarted.job
  refine ⟨⟨job,same.job.trans at_a,assigned,job',same'.job.trans at_b,now⟩,?_,?_⟩
  · intro s stop part
    rw [same'.stop s stop part,same.stop s stop part]
    exact unstarted.stop s stop part
  · intro begun i o found carries
    obtain ⟨o',after,carries'⟩ := unstarted.order begun i o ((same.order i o carries).mp found) carries
    exact ⟨o',(same'.order i o' carries').mpr after,carries'⟩

theorem unstarted_leaves (unstarted : Unstarted status j a c) (tallied : Tallied a) (open_ : status ≠ .completed)
    (undropped : x.dropsOff = none) : Leaves x y j a c := by
  obtain ⟨job,at_a,assigned,job',at_b,now⟩ := unstarted.job
  have unbegun : ∀ s stop, c.stop s = some stop → stop.jobId = j → stop.status ≠ .completed := by
    intro s stop found part completed
    obtain ⟨begun,at_j,ready⟩ := (tallied j).begun s stop ((unstarted.stop s stop part).mp found) part completed
    cases at_a.symm.trans at_j
    rcases ready with progress | done
    · rw [assigned] at progress; cases progress
    · rw [assigned] at done; cases done
  have unreported : x.reports y = none := by
    cases x <;> first | rfl | cases undropped
  refine ⟨⟨?_,?_,?_,?_⟩,?_,?_,?_,?_,?_⟩
  · intro row found
    cases at_b.symm.trans found
    refine iff_of_false (by rw [now]; exact open_) ?_
    intro all
    have incomplete : ¬∀ s stop, a.stop s = some stop → stop.jobId = j → stop.status = .completed := by
      rw [← (tallied j).all job at_a,assigned]
      decide
    exact incomplete fun s stop found part => all s stop ((unstarted.stop s stop part).mpr found) part
  · exact fun s stop found part completed => absurd completed (unbegun s stop found part)
  · intro s stop row found part at_j begun
    cases at_b.symm.trans at_j
    have before := (unstarted.stop s stop part).mp found
    obtain ⟨o,at_o,carries,_⟩ := (tallied j).carried s stop job before part at_a (by simp [assigned])
    obtain ⟨o',after,carries'⟩ := unstarted.order (by rw [← now]; exact begun) _ o at_o carries
    exact ⟨o',after,carries',fun completed => absurd completed (unbegun s stop found part)⟩
  · intro i o row at_j completed
    cases at_b.symm.trans at_j
    exact absurd (now.symm.trans completed) open_
  · intro row found begun
    cases at_a.symm.trans found
    rcases begun with progress | done
    · rw [assigned] at progress; cases progress
    · rw [assigned] at done; cases done
  · intro i hit
    rw [unreported] at hit; cases hit
  · refine once_still ?_ (by simp [unreported])
    unfold jobDone
    rw [at_a,at_b]
    simp [assigned,now,open_]
  · intro s hit
    rw [undropped] at hit; cases hit
  · intro s before after
    refine once_still ?_ (by simp [undropped])
    unfold stopDone
    cases found : c.stop s with
    | some stop => rw [(unstarted.stop s stop (after stop found)).mp found]
    | none =>
      cases found' : a.stop s with
      | none => rfl
      | some stop => rw [(unstarted.stop s stop (before stop found')).mpr found'] at found; cases found

theorem owning_update {p : Nat → DeliveryJob → Bool} {f : DeliveryJob → DeliveryJob} {e : Effect Row Key} {job : DeliveryJob}
    (foot : Footprint (fun _ => False) h w db) (same : e = Tx.updatesEffect (db.apply w) .deliveryJob p f [])
    (only : ∀ i job, p i job = true → i = j) (committed : (dispatch db).job j = some job)
    (found : (dispatch (db.apply w)).job j = some job) (hit : p j job = true)
    (now : rewritten p f (dispatch (db.apply w)).job j = some (f job) →
      P (dispatch db) {dispatch (db.apply w) with job := rewritten p f (dispatch (db.apply w)).job}) :
    Owning j job.batchId P (h ++ e.locks) (w.over e.writes) (db.reserve e.writes) := by
  subst same
  have updated : rewritten p f (dispatch (db.apply w)).job j = some (f job) := by rw [rewritten_of found,if_pos hit]
  refine owning_first foot (within_jobs only) (List.mem_append_left _ (Tx.mem_locksOf.mpr ⟨job,found,hit⟩)) committed ?_
  simp only [Tx.updatesEffect,dispatch_updates_job]
  exact now updated

-- An update of the orders that carry the job.
theorem owning_orders {p : Nat → Order → Bool} {f : Order → Order} {e : Effect Row Key} {P' : Dispatch → Dispatch → Prop}
    (owning : Owning j b P h w db) (same : e = Tx.updatesEffect (db.apply w) .order p f [])
    (each : ∀ i o, (dispatch (db.apply w)).order i = some o → p i o = true → (∀ k, o.deliveryJobId = some k → k = j) ∧
      ∀ k, (f o).deliveryJobId = some k → k = j)
    (now : P' (dispatch db) {dispatch (db.apply w) with order := rewritten p f (dispatch (db.apply w)).order}) :
    Owning j b P' (h ++ e.locks) (w.over e.writes) (db.reserve e.writes) := by
  subst same
  refine owning_next owning (within_orders each) ?_
  simp only [Tx.updatesEffect,dispatch_updates_order]
  exact now

theorem unstarted_orders {f : Order → Order} {p : Nat → Order → Bool} (unstarted : Unstarted status j a c)
    (carries : status ≠ .pending → ∀ o, (f o).deliveryJobId = o.deliveryJobId) :
    Unstarted status j a {c with order := rewritten p f c.order} := by
  refine ⟨unstarted.job,unstarted.stop,?_⟩
  intro begun i o found part
  obtain ⟨o',after,part'⟩ := unstarted.order begun i o found part
  refine ⟨_,rewritten_of after,?_⟩
  split
  · rw [carries begun]; exact part'
  · exact part'

theorem keeps_startJobTx : (startJobTx j d).Keeps completion x
    (fun _ h w db => ∃ b, Owning j b (Unstarted .inProgress j) h w db) [] .none db := by
  refine keeps_updateMany (stable_under footprint_stable) footprint_start ?_
  intro T db foot sees e same
  split
  · intro T now sees
    dsimp only [Tx.bind]
    split
    · trivial
    · split <;> trivial
  · rename_i some
    obtain ⟨i,job,found,hit⟩ := matching_length some
    obtain ⟨rfl,_,assigned⟩ := of_decide_eq_true hit
    have apart := footprint_apart (j := i) foot id
    have committed : (dispatch db).job i = .some job := apart.job.symm.trans found
    have owning : Owning i job.batchId (Unstarted .inProgress i) ([] ++ e.locks) (Writes.none.over e.writes) (db.reserve e.writes) := by
      refine owning_update foot same (fun _ _ hit => (of_decide_eq_true hit).1) committed found hit fun updated => ?_
      exact ⟨⟨job,committed,assigned,_,updated,rfl⟩,apart.stop,
        fun _ k o at_k carries => ⟨o,(apart.order k o carries).mpr at_k,carries⟩⟩
    refine keeps_updateMany (owning_stable unstarted_private) owning ?_
    intro T db owning sees e same
    have owned := owning_orders owning same (fun _ _ _ hit => by
      have carries := of_decide_eq_true hit
      exact ⟨fun k part => (Option.some.inj (carries.symm.trans part)).symm,
        fun k part => (Option.some.inj (carries.symm.trans part)).symm⟩)
      (unstarted_orders owning.known fun _ _ => rfl)
    exact keeps_mono (fun _ h w db owning => ⟨_,owning⟩)
      (keeps_quiet (quiet_event _) (by simp [Outside]) (by simp [Outside]) (by simp [Outside]) unstarted_private owned)

theorem keeps_apart {t : Transaction α} {f : α → Transaction β} {Q : β → Mark Row Key} (within : Confined Outside t)
    (foot : Footprint (fun _ => False) h w db)
    (rest : ∀ a h w db, Footprint (fun _ => False) h w db → (f a).Keeps completion x Q h w db) :
    (t >>= f).Keeps completion x Q h w db :=
  keeps_bind (keeps_mono (fun a h w db foot => rest a h w db foot)
    (keeps_aloof within (by simp [Outside]) (by simp [Outside]) (by simp [Outside]) foot))

theorem keeps_recoverTx : (recoverTx d j b).Keeps completion x
    (fun _ h w db => ∃ b, Owning j b (Unstarted .pending j) h w db) [] .none db := by
  refine keeps_apart (confined_update (by simp [Outside])) footprint_start ?_
  intro _ h w db foot
  refine keeps_update (stable_under footprint_stable) foot ?_
  intro T db foot sees e same some
  obtain ⟨i,job,found,hit⟩ := matching_some some
  obtain ⟨rfl,assigned⟩ := of_decide_eq_true hit
  have apart := footprint_apart (j := i) foot id
  have owning : Owning i job.batchId (Unstarted .pending i) (h ++ e.locks) (w.over e.writes) (db.reserve e.writes) := by
    refine owning_update foot same (fun _ _ hit => (of_decide_eq_true hit).1) (apart.job.symm.trans found) found hit
      fun updated => ?_
    exact ⟨⟨job,apart.job.symm.trans found,assigned,_,updated,rfl⟩,apart.stop,fun no => absurd rfl no⟩
  refine keeps_aside (confined_update (by simp [Outside])) unstarted_private owning ?_
  intro _ h w db owning
  refine keeps_updateMany (owning_stable unstarted_private) owning ?_
  intro T db owning sees e same
  refine ⟨_,owning_orders owning same (fun _ _ _ hit => ?_) (unstarted_orders owning.known fun no => absurd rfl no)⟩
  exact ⟨fun k part => (Option.some.inj ((of_decide_eq_true hit).symm.trans part)).symm,fun k part => by cases part⟩

-- A call of completeDropOff that has completed its stop.
structure Dropping (j s : Nat) (job : DeliveryJob) (stop : DeliveryDropOff) (status : JobStatus) (a b : Dispatch) : Prop where
  running : a.job j = some job ∧ job.status = .inProgress
  now : ∃ job', b.job j = some job' ∧ job.Onward job' ∧ job'.status = status
  claimed : a.stop s = some stop ∧ stop.jobId = j ∧ stop.status ≠ .completed
  finished : ∃ stop', b.stop s = some stop' ∧ stop'.jobId = j ∧ stop'.orderId = stop.orderId ∧ stop'.status = .completed
  others : ∀ s' row, s' ≠ s → row.jobId = j → (b.stop s' = some row ↔ a.stop s' = some row)
  order : ∀ i o, a.order i = some o → o.deliveryJobId = some j →
    ∃ o', b.order i = some o' ∧ o'.deliveryJobId = some j ∧ (o.status = .completed → o'.status = .completed)

-- Its order is COMPLETED; stops of the job are open, or none is; the job's orders are COMPLETED.
def Brought (j orderId : Nat) (_ c : Dispatch) : Prop :=
  ∃ o, c.order orderId = some o ∧ o.deliveryJobId = some j ∧ o.status = .completed

def StopsOpen (j : Nat) (_ c : Dispatch) : Prop := ∃ s stop, c.stop s = some stop ∧ stop.jobId = j ∧ stop.status ≠ .completed

def StopsClosed (j : Nat) (_ c : Dispatch) : Prop := ∀ s stop, c.stop s = some stop → stop.jobId = j → stop.status = .completed

def AllBrought (j : Nat) (_ c : Dispatch) : Prop := ∀ i o, c.order i = some o → o.deliveryJobId = some j → o.status = .completed

def Dropped (j s : Nat) (completed : Bool) (a c : Dispatch) : Prop :=
  ∃ job stop, Dropping j s job stop (if completed then .completed else .inProgress) a c ∧ Brought j stop.orderId a c ∧
    if completed then StopsClosed j a c ∧ AllBrought j a c else StopsOpen j a c

theorem private_and {P' : Dispatch → Dispatch → Prop} (one : Private j P) (two : Private j P') :
    Private j fun a c => P a c ∧ P' a c :=
  fun a a' c c' same same' both => ⟨one a a' c c' same same' both.1,two a a' c c' same same' both.2⟩

theorem sameOwn_private : Private j (SameOwn j) := by
  intro a a' c c' same same' own
  refine ⟨same'.job.trans (own.job.trans same.job.symm),?_,?_⟩
  · intro s stop part
    rw [same'.stop s stop part,own.stop s stop part,same.stop s stop part]
  · intro i o carries
    rw [same'.order i o carries,own.order i o carries,same.order i o carries]

theorem dropping_private : Private j (Dropping j s job stop status) := by
  intro a a' c c' same same' dropping
  obtain ⟨at_a,progress⟩ := dropping.running
  obtain ⟨job',at_c,now⟩ := dropping.now
  obtain ⟨found,part,unfinished⟩ := dropping.claimed
  obtain ⟨stop',after,part',finished⟩ := dropping.finished
  refine ⟨⟨same.job.trans at_a,progress⟩,⟨job',same'.job.trans at_c,now⟩,⟨(same.stop s stop part).mpr found,part,unfinished⟩,
    ⟨stop',(same'.stop s stop' part').mpr after,part',finished⟩,?_,?_⟩
  · intro s' row other own
    rw [same'.stop s' row own,same.stop s' row own]
    exact dropping.others s' row other own
  · intro i o at_i carries
    obtain ⟨o',at_i',carries',kept⟩ := dropping.order i o ((same.order i o carries).mp at_i) carries
    exact ⟨o',(same'.order i o' carries').mpr at_i',carries',kept⟩

theorem brought_private : Private j (Brought j orderId) := by
  rintro a a' c c' same same' ⟨o,at_o,carries,completed⟩
  exact ⟨o,(same'.order _ o carries).mpr at_o,carries,completed⟩

theorem stopsOpen_private : Private j (StopsOpen j) := by
  rintro a a' c c' same same' ⟨s,stop,found,part,unfinished⟩
  exact ⟨s,stop,(same'.stop s stop part).mpr found,part,unfinished⟩

theorem stopsClosed_private : Private j (StopsClosed j) := by
  intro a a' c c' same same' closed s stop found part
  exact closed s stop ((same'.stop s stop part).mp found) part

theorem allBrought_private : Private j (AllBrought j) := by
  intro a a' c c' same same' all i o found carries
  exact all i o ((same'.order i o carries).mp found) carries

theorem dropped_private : Private j (Dropped j s completed) := by
  rintro a a' c c' same same' ⟨job,stop,dropping,brought,rest⟩
  refine ⟨job,stop,dropping_private a a' c c' same same' dropping,brought_private a a' c c' same same' brought,?_⟩
  cases completed with
  | true => exact ⟨stopsClosed_private a a' c c' same same' rest.1,allBrought_private a a' c c' same same' rest.2⟩
  | false => exact stopsOpen_private a a' c c' same same' rest

theorem dropped_tallied (dropped : Dropped j s completed a c) (tallied : Tallied a) : TalliedAt j c := by
  obtain ⟨job,stop,dropping,brought,rest⟩ := dropped
  obtain ⟨at_a,progress⟩ := dropping.running
  obtain ⟨job',at_c,onward,now⟩ := dropping.now
  obtain ⟨found,part,unfinished⟩ := dropping.claimed
  obtain ⟨stop',after,part',order,finished⟩ := dropping.finished
  have begun : job.Begun := .inl progress
  refine ⟨?_,fun _ _ _ _ _ => ⟨job',at_c,onward.begun begun⟩,?_,?_⟩
  · intro row at_j
    cases at_c.symm.trans at_j
    rw [now]
    cases completed with
    | true => exact iff_of_true rfl rest.1
    | false =>
      refine iff_of_false (by decide) fun all => ?_
      obtain ⟨s',other,at_s',part_s',unfinished_s'⟩ := rest
      exact unfinished_s' (all s' other at_s' part_s')
  · intro s' row _ at_s' part_s' _ _
    by_cases same : s' = s
    · rw [same] at at_s'
      cases after.symm.trans at_s'
      obtain ⟨o,at_o,carries,delivered⟩ := brought
      exact ⟨o,by rw [order]; exact at_o,carries,fun _ => delivered⟩
    · have before := (dropping.others s' row same part_s').mp at_s'
      obtain ⟨o,at_o,carries,kept⟩ := (tallied j).carried s' row job before part_s' at_a (by simp [progress])
      obtain ⟨o',at_o',carries',kept'⟩ := dropping.order _ o at_o carries
      exact ⟨o',at_o',carries',fun finished => kept' (kept finished)⟩
  · intro i o row at_j finished at_i carries
    cases at_c.symm.trans at_j
    rw [now] at finished
    cases completed with
    | true => exact rest.2 i o at_i carries
    | false => cases finished

theorem dropped_leaves (dropped : Dropped j s completed a c) (tallied : Tallied a) (call : x = .completeDropOff j s d)
    (ends : x.reports y = if completed then some j else none) : Leaves x y j a c := by
  have kept := dropped_tallied dropped tallied
  obtain ⟨job,stop,dropping,_,_⟩ := dropped
  obtain ⟨at_a,progress⟩ := dropping.running
  obtain ⟨job',at_c,onward,now⟩ := dropping.now
  obtain ⟨found,part,unfinished⟩ := dropping.claimed
  obtain ⟨stop',after,part',order,finished⟩ := dropping.finished
  have drops : x.dropsOff = some s := by rw [call]; rfl
  refine ⟨kept,?_,?_,?_,?_,?_⟩
  · intro row at_j _
    cases at_a.symm.trans at_j
    exact ⟨job',at_c,onward⟩
  · intro i reported
    rw [ends] at reported
    cases completed with
    | true => exact (Option.some.inj reported).symm
    | false => cases reported
  · have before : jobDone a j = false := by simp [jobDone,at_a,progress]
    refine ⟨?_,fun _ => before⟩
    rw [before,ends]
    unfold jobDone
    rw [at_c]
    cases completed <;> simp [now]
  · intro s' hit
    rw [drops] at hit
    cases hit
    exact ⟨stop,found,part⟩
  · intro s' owned owned'
    by_cases same : s' = s
    · have before : stopDone a s' = false := by simp [stopDone,same,found,unfinished]
      refine ⟨?_,fun _ => before⟩
      rw [before]
      simp [stopDone,same,after,finished,drops]
    · refine once_still ?_ (decide_eq_false fun hit => same (Option.some.inj (hit.symm.trans drops)))
      unfold stopDone
      cases at_s : c.stop s' with
      | some row => rw [(dropping.others s' row same (owned' row at_s)).mp at_s]
      | none =>
        cases at_s' : a.stop s' with
        | none => rfl
        | some row => rw [(dropping.others s' row same (owned row at_s')).mpr at_s'] at at_s; cases at_s

theorem owning_jobs {p : Nat → DeliveryJob → Bool} {f : DeliveryJob → DeliveryJob} {e : Effect Row Key}
    {P' : Dispatch → Dispatch → Prop} (owning : Owning j b P h w db)
    (same : e = Tx.updatesEffect (db.apply w) .deliveryJob p f []) (only : ∀ i job, p i job = true → i = j)
    (found : (dispatch (db.apply w)).job j = some job) (hit : p j job = true)
    (now : rewritten p f (dispatch (db.apply w)).job j = some (f job) →
      P' (dispatch db) {dispatch (db.apply w) with job := rewritten p f (dispatch (db.apply w)).job}) :
    Owning j b P' (h ++ e.locks) (w.over e.writes) (db.reserve e.writes) := by
  subst same
  have updated : rewritten p f (dispatch (db.apply w)).job j = some (f job) := by rw [rewritten_of found,if_pos hit]
  refine owning_next owning (within_jobs only) ?_
  simp only [Tx.updatesEffect,dispatch_updates_job]
  exact now updated

theorem owning_stops {p : Nat → DeliveryDropOff → Bool} {f : DeliveryDropOff → DeliveryDropOff} {e : Effect Row Key}
    {P' : Dispatch → Dispatch → Prop} (owning : Owning j b P h w db)
    (same : e = Tx.updatesEffect (db.apply w) .deliveryDropOff p f [])
    (only : ∀ s stop, p s stop = true → stop.jobId = j ∧ (f stop).jobId = stop.jobId)
    (now : P' (dispatch db) {dispatch (db.apply w) with stop := rewritten p f (dispatch (db.apply w)).stop}) :
    Owning j b P' (h ++ e.locks) (w.over e.writes) (db.reserve e.writes) := by
  subst same
  refine owning_next owning (within_stops only) ?_
  simp only [Tx.updatesEffect,dispatch_updates_stop]
  exact now

-- An order that is delivered still carries its job.
theorem delivered_rows {p : Nat → Order → Bool} (now : Nat) (found : c.order i = some o) (carries : o.deliveryJobId = some j) :
    ∃ o', rewritten p (delivered now) c.order i = some o' ∧ o'.deliveryJobId = some j ∧
      (p i o = true ∨ o.status = .completed → o'.status = .completed) := by
  refine ⟨_,rewritten_of found,?_⟩
  split
  · exact ⟨carries,fun _ => rfl⟩
  · rename_i missed
    exact ⟨carries,fun either => either.resolve_left missed⟩

theorem dropping_orders {p : Nat → Order → Bool} (dropping : Dropping j s job stop status a c) :
    Dropping j s job stop status a {c with order := rewritten p (delivered now) c.order} := by
  refine ⟨dropping.running,dropping.now,dropping.claimed,dropping.finished,dropping.others,?_⟩
  intro i o found carries
  obtain ⟨o',after,carries',kept⟩ := dropping.order i o found carries
  obtain ⟨o'',final,carries'',kept'⟩ := delivered_rows (p := p) now after carries'
  exact ⟨o'',final,carries'',fun completed => kept' (.inr (kept completed))⟩

theorem brought_orders {p : Nat → Order → Bool} (brought : Brought j orderId a c) :
    Brought j orderId a {c with order := rewritten p (delivered now) c.order} := by
  obtain ⟨o,found,carries,completed⟩ := brought
  obtain ⟨o',after,carries',kept⟩ := delivered_rows (p := p) now found carries
  exact ⟨o',after,carries',kept (.inr completed)⟩

theorem keeps_finishJob (owning : Owning j b (fun a c => (Dropping j s job stop .inProgress a c ∧ Brought j stop.orderId a c) ∧
    StopsClosed j a c) h w db) :
    (finishJob j d b').Keeps completion x (fun _ => Owning j b (Dropped j s true)) h w db := by
  have about : ∀ status, Private j fun a c => (Dropping j s job stop status a c ∧ Brought j stop.orderId a c) ∧ StopsClosed j a c :=
    fun status => private_and (private_and dropping_private brought_private) stopsClosed_private
  refine keeps_updateMany (owning_stable (about _)) owning ?_
  intro T db owning sees e same
  split
  · trivial
  obtain ⟨⟨dropping,brought⟩,closed⟩ := owning.known
  obtain ⟨job',at_c,onward,progress⟩ := dropping.now
  have done : Owning j b (fun a c => (Dropping j s job stop .completed a c ∧ Brought j stop.orderId a c) ∧ StopsClosed j a c)
      (h ++ e.locks) (w.over e.writes) (db.reserve e.writes) := by
    refine owning_jobs owning same (fun _ _ hit => (of_decide_eq_true hit).1) at_c (decide_eq_true ⟨rfl,progress⟩) fun updated => ?_
    exact ⟨⟨⟨dropping.running,⟨_,updated,⟨onward.batch,onward.deliverer,onward.started,.inr rfl⟩,rfl⟩,dropping.claimed,
      dropping.finished,dropping.others,dropping.order⟩,brought⟩,closed⟩
  refine keeps_aside (confined_update (by simp [Outside])) (about _) done ?_
  intro _ h w db done
  refine keeps_aside (confined_update (by simp [Outside])) (about _) done ?_
  intro _ h w db done
  refine keeps_updateMany (owning_stable (about _)) done ?_
  intro T db done sees e same
  obtain ⟨⟨dropping,brought⟩,closed⟩ := done.known
  have all : Owning j b (Dropped j s true) (h ++ e.locks) (w.over e.writes) (db.reserve e.writes) := by
    refine owning_orders done same (fun _ _ _ hit => ?_) ⟨job,stop,dropping_orders dropping,brought_orders brought,closed,?_⟩
    · have carries := (of_decide_eq_true hit).1
      exact ⟨fun k part => (Option.some.inj (carries.symm.trans part)).symm,
        fun k part => (Option.some.inj (carries.symm.trans part)).symm⟩
    · intro i o found carries
      dsimp only at found
      obtain ⟨old,before,rfl⟩ := rewritten_some found
      split
      · rfl
      · rename_i missed
        rw [if_neg missed] at carries
        exact not_not.mp fun unfinished => missed (decide_eq_true ⟨carries,unfinished⟩)
  exact keeps_quiet (quiet_event _) (by simp [Outside]) (by simp [Outside]) (by simp [Outside]) dropped_private all

theorem stops_counted {v : Database} :
    if (v.matching .deliveryDropOff fun _ => openStop j).length = 0 then StopsClosed j a (dispatch v)
    else StopsOpen j a (dispatch v) := by
  split
  · rename_i none
    intro s stop found part
    refine not_not.mp fun unfinished => ?_
    have member : (s,stop) ∈ v.matching .deliveryDropOff fun _ => openStop j :=
      v.mem_matching.mpr ⟨found,decide_eq_true ⟨part,unfinished⟩⟩
    rw [List.eq_nil_of_length_eq_zero none] at member
    cases member
  · rename_i some
    obtain ⟨s,stop,found,hit⟩ := matching_length some
    obtain ⟨part,unfinished⟩ := of_decide_eq_true hit
    exact ⟨s,stop,found,part,unfinished⟩

theorem quiet_orderCompleted (orderId n : Nat) : Confined Outside (recordOrderCompleted orderId n) := by
  unfold recordOrderCompleted
  split
  · exact quiet_event _
  · trivial

-- The call knows its job and has written nothing yet.
def Reading (j : Nat) (job : DeliveryJob) (a c : Dispatch) : Prop := SameOwn j a c ∧ a.job j = some job

theorem reading_private : Private j (Reading j job) :=
  private_and sameOwn_private fun _ _ _ _ same _ found => same.job.trans found

theorem dropping_first {p : Nat → DeliveryDropOff → Bool} {f : DeliveryDropOff → DeliveryDropOff} (reading : Reading j job a c)
    (progress : job.status = .inProgress) (found : c.stop s = some stop) (part : stop.jobId = j) (unfinished : stop.status ≠ .completed)
    (hit : p s stop = true) (only : ∀ s' stop, p s' stop = true → s' = s)
    (finishes : (f stop).jobId = stop.jobId ∧ (f stop).orderId = stop.orderId ∧ (f stop).status = .completed) :
    Dropping j s job stop .inProgress a {c with stop := rewritten p f c.stop} := by
  obtain ⟨same,at_a⟩ := reading
  have after : rewritten p f c.stop s = some (f stop) := by rw [rewritten_of found,if_pos hit]
  refine ⟨⟨at_a,progress⟩,⟨job,same.job.trans at_a,.refl job,progress⟩,⟨(same.stop s stop part).mp found,part,unfinished⟩,
    ⟨f stop,after,finishes.1.trans part,finishes.2.1,finishes.2.2⟩,?_,?_⟩
  · intro s' row other own
    rw [← same.stop s' row own]
    show rewritten p f c.stop s' = some row ↔ _
    have missed : ∀ r, p s' r = false := fun r => Bool.eq_false_iff.mpr fun hit => other (only s' r hit)
    unfold rewritten
    simp [missed]
  · exact fun i o at_i carries => ⟨o,(same.order i o carries).mpr at_i,carries,id⟩

-- It has completed its stop and not yet written an order.
def Claiming (j s : Nat) (job : DeliveryJob) (stop : DeliveryDropOff) (a c : Dispatch) : Prop :=
  Dropping j s job stop .inProgress a c ∧ ∀ i o, o.deliveryJobId = some j → (c.order i = some o ↔ a.order i = some o)

theorem claiming_private : Private j (Claiming j s job stop) := by
  refine private_and dropping_private ?_
  intro a a' c c' same same' orders i o carries
  rw [same'.order i o carries,same.order i o carries]
  exact orders i o carries

def Bringing (j s : Nat) (job : DeliveryJob) (stop : DeliveryDropOff) (a c : Dispatch) : Prop :=
  Dropping j s job stop .inProgress a c ∧ Brought j stop.orderId a c

theorem bringing_private : Private j (Bringing j s job stop) := private_and dropping_private brought_private

theorem keeps_remaining (bringing : Owning j b (Bringing j s job stop) h w db) :
    (do
      let remaining ← Tx.count .deliveryDropOff fun _ => openStop j
      if remaining = 0 then do
        finishJob j d batchId
        return true
      else return false : Transaction Bool).Keeps completion x (fun completed h w db => Owning j b (Dropped j s completed) h w db) h w db := by
  refine keeps_select (owning_stable bringing_private) bringing ?_
  intro T db bringing sees
  have counted := stops_counted (j := j) (a := dispatch db) (v := db.apply w)
  split
  · rename_i none
    rw [if_pos none] at counted
    exact keeps_bind (keeps_mono (fun _ _ _ _ done => done)
      (keeps_finishJob ⟨bringing.foot,bringing.sole,bringing.known,counted⟩))
  · rename_i open_
    rw [if_neg open_] at counted
    exact ⟨bringing.foot,bringing.sole,job,stop,bringing.known.1,bringing.known.2,counted⟩

theorem owning_brought {e : Effect Row Key} (claiming : Owning j b (Claiming j s job stop) h w db) (tallied : TalliedAt j (dispatch db))
    (order : orderId = stop.orderId)
    (same : e = Tx.updatesEffect (db.apply w) .order (fun i (o : Order) => i = orderId ∧ o.status ≠ .completed) (delivered now) []) :
    Owning j b (Bringing j s job stop) (h ++ e.locks) (w.over e.writes) (db.reserve e.writes) := by
  obtain ⟨dropping,orders⟩ := claiming.known
  obtain ⟨at_a,progress⟩ := dropping.running
  obtain ⟨o,at_o,carries,_⟩ := tallied.carried s stop job dropping.claimed.1 dropping.claimed.2.1 at_a (by simp [progress])
  have in_view := (orders stop.orderId o carries).mpr at_o
  refine owning_orders claiming same ?_ ⟨dropping_orders dropping,?_⟩
  · intro k o' found hit
    obtain ⟨rfl,_⟩ := of_decide_eq_true hit
    rw [order] at found
    cases found.symm.trans in_view
    exact ⟨fun k same => (Option.some.inj (carries.symm.trans same)).symm,
      fun k same => (Option.some.inj (carries.symm.trans same)).symm⟩
  · obtain ⟨o',after,carries',kept⟩ := delivered_rows (p := fun i (o : Order) => i = orderId ∧ o.status ≠ .completed) _ in_view carries
    refine ⟨o',after,carries',kept ?_⟩
    by_cases done : o.status = .completed
    · exact .inr done
    · exact .inl (decide_eq_true ⟨order.symm,done⟩)

theorem owning_claimed {e : Effect Row Key} (reading : Owning j b (Reading j job) h w db) (progress : job.status = .inProgress)
    (same : e = Tx.updatesEffect (db.apply w) .deliveryDropOff (fun i stop => i = s ∧ openStop j stop)
      (fun stop => {stop with status := .completed,completedAt := some now}) [])
    (some : ((db.apply w).matching .deliveryDropOff fun i stop => i = s ∧ openStop j stop).length ≠ 0) :
    ∃ stop, Owning j b (Claiming j s job stop) (h ++ e.locks) (w.over e.writes) (db.reserve e.writes) := by
  obtain ⟨i,stop,found,hit⟩ := matching_length some
  obtain ⟨rfl,unfinished⟩ := of_decide_eq_true hit
  obtain ⟨part,unfinished⟩ := of_decide_eq_true unfinished
  refine ⟨stop,owning_stops reading same ?_ ⟨?_,reading.known.1.order⟩⟩
  · exact fun s stop hit => ⟨(of_decide_eq_true (of_decide_eq_true hit).2).1,rfl⟩
  · exact dropping_first reading.known progress found part unfinished hit (fun s stop hit => (of_decide_eq_true hit).1) ⟨rfl,rfl,rfl⟩

theorem keeps_completeDropOffTx (completes : x.completes = some j) :
    (completeDropOffTx j s d).Keeps completion x (fun completed h w db => ∃ b, Owning j b (Dropped j s completed) h w db) [] .none db := by
  refine keeps_selectLocking (stable_under footprint_stable) footprint_start ?_
  intro T db foot sees e writes locks
  obtain ⟨job,found⟩ := sees.fact.1.serves.job j completes
  have apart := footprint_apart (j := j) foot id
  have present : (db.apply .none).rows .deliveryJob j = some job := apart.job.trans found
  have quiet : ∀ t i, e.writes.rows t i = none := by simp [writes,Writes.none]
  have reading : Owning j job.batchId (Reading j job) ([] ++ e.locks) (Writes.none.over e.writes) (db.reserve e.writes) := by
    refine owning_first foot (within_quiet (quiet _) (quiet _) (quiet _)) ?_ found ?_
    · rw [locks,present]
      exact List.mem_singleton_self _
    · exact ⟨sameOwn_private _ _ _ _ (sameOwn_refl _) (sameOwn_quiet (quiet _) (quiet _) (quiet _)) apart,found⟩
  refine keeps_select (owning_stable reading_private) reading ?_
  intro T db reading sees
  split
  · trivial
  rename_i row at_view
  cases at_view.symm.trans (reading.known.1.job.trans reading.known.2)
  split
  · trivial
  split
  · trivial
  rename_i progress
  refine keeps_updateMany (owning_stable reading_private) reading ?_
  intro T db reading sees e same
  split
  · trivial
  rename_i some
  obtain ⟨stop,claiming⟩ := owning_claimed reading (not_not.mp progress) same some
  refine keeps_findUniqueOrThrow (owning_stable claiming_private) claiming ?_
  intro T db dropOff claiming sees at_view
  obtain ⟨stop',after,_,order,_⟩ := claiming.known.1.finished
  cases at_view.symm.trans after
  refine keeps_updateMany (owning_stable claiming_private) claiming ?_
  intro T db claiming sees e same
  refine keeps_aside (quiet_orderCompleted _ _) bringing_private (owning_brought claiming (sees.inv.2 j) order same) ?_
  intro _ h w db bringing
  exact keeps_mono (fun _ _ _ _ owning => ⟨_,owning⟩) (keeps_remaining bringing)

end Bodies
end MesyafMarket
