import MesyafMarket.Dispatch.Completing
import MesyafMarket.Dispatch.OrderWaits

namespace MesyafMarket
open Relational OrderService DelivererAssignmentService

section Bodies
variable {x y : Proc} {j b d : Nat} {a c : Dispatch} {h : List MarketLock} {w : Writes Row} {db : Database}
  {P : Dispatch → Dispatch → Prop}

-- An assignment that has its job, then its batch, then the batch's orders.
def Upserting (j : Nat) (_ c : Dispatch) : Prop := ∃ row, c.job j = some row ∧ row.status = .assigned

def Taking (j : Nat) (a c : Dispatch) : Prop :=
  (a.job j = none ∨ ∃ old, a.job j = some old ∧ old.status = .pending) ∧ Upserting j a c

def Handing (j : Nat) (orders : List (Nat × Order)) (a c : Dispatch) : Prop :=
  Taking j a c ∧ ∀ e ∈ orders, ∃ o, c.order e.1 = some o ∧ o.deliveryJobId = some j

def Cleared (j : Nat) (_ c : Dispatch) : Prop := ∀ s stop, c.stop s = some stop → stop.jobId ≠ j

-- One stop for each of them, and none that is left from before.
structure Stopping (j : Nat) (orders : List (Nat × Order)) (a c : Dispatch) : Prop where
  handing : Handing j orders a c
  stops : ∀ s stop, c.stop s = some stop → stop.jobId = j → stop.status = .pending ∧ ∃ e ∈ orders, stop.orderId = e.1
  some : ∃ s stop, c.stop s = some stop ∧ stop.jobId = j

theorem upserting_private : Private j (Upserting j) := by
  rintro a a' c c' same same' ⟨row,found,assigned⟩
  exact ⟨row,same'.job.trans found,assigned⟩

theorem taking_private : Private j (Taking j) := by
  refine private_and ?_ upserting_private
  intro a a' c c' same same' fresh
  rw [same.job]
  exact fresh

theorem handing_private : Private j (Handing j orders) := by
  refine private_and taking_private ?_
  intro a a' c c' same same' handed e member
  obtain ⟨o,found,carries⟩ := handed e member
  exact ⟨o,(same'.order _ o carries).mpr found,carries⟩

theorem cleared_private : Private j (Cleared j) := by
  intro a a' c c' same same' cleared s stop found part
  exact cleared s stop ((same'.stop s stop part).mp found) part

theorem stopping_private : Private j (Stopping j orders) := by
  intro a a' c c' same same' stopping
  obtain ⟨s,stop,found,part⟩ := stopping.some
  exact ⟨handing_private a a' c c' same same' stopping.handing,
    fun s stop found part => stopping.stops s stop ((same'.stop s stop part).mp found) part,
    s,stop,(same'.stop s stop part).mpr found,part⟩

theorem stopping_leaves (stopping : Stopping j orders a c) (tallied : Tallied a) (undropped : x.dropsOff = none) :
    Leaves x y j a c := by
  obtain ⟨⟨fresh,row,at_c,assigned⟩,handed⟩ := stopping.handing
  have unreported : x.reports y = none := by
    cases x <;> first | rfl | cases undropped
  have unbegun : ∀ job, a.job j = some job → ¬job.Begun := by
    rintro job found (progress | done)
    all_goals
      rcases fresh with none | ⟨old,at_a,pending⟩
      · cases found.symm.trans none
      · cases found.symm.trans at_a
        simp [pending] at *
  refine ⟨⟨?_,?_,?_,?_⟩,?_,?_,?_,?_,?_⟩
  · intro job found
    cases at_c.symm.trans found
    refine iff_of_false (by simp [assigned]) fun all => ?_
    obtain ⟨s,stop,at_s,part⟩ := stopping.some
    have completed := all s stop at_s part
    rw [(stopping.stops s stop at_s part).1] at completed
    cases completed
  · intro s stop found part completed
    rw [(stopping.stops s stop found part).1] at completed
    cases completed
  · intro s stop _ found part _ _
    obtain ⟨pending,e,member,same⟩ := stopping.stops s stop found part
    obtain ⟨o,at_o,carries⟩ := handed e member
    refine ⟨o,by rw [same]; exact at_o,carries,fun completed => ?_⟩
    rw [pending] at completed
    cases completed
  · intro i o job found completed
    cases at_c.symm.trans found
    rw [assigned] at completed
    cases completed
  · exact fun job found begun => absurd begun (unbegun job found)
  · intro i hit
    rw [unreported] at hit; cases hit
  · refine once_still ?_ (by simp [unreported])
    have before : jobDone a j = false := by
      rcases fresh with none | ⟨old,at_a,pending⟩
      · simp [jobDone,none]
      · simp [jobDone,at_a,pending]
    rw [before]
    simp [jobDone,at_c,assigned]
  · intro s hit
    rw [undropped] at hit; cases hit
  · intro s before after
    refine once_still ?_ (by simp [undropped])
    have old : stopDone a s = false := by
      refine Bool.eq_false_iff.mpr fun done => ?_
      obtain ⟨stop,found,completed⟩ := stopDone_some done
      obtain ⟨job,at_a,begun⟩ := (tallied j).begun s stop found (before stop found) completed
      exact unbegun job at_a begun
    have new : stopDone c s = false := by
      refine Bool.eq_false_iff.mpr fun done => ?_
      obtain ⟨stop,found,completed⟩ := stopDone_some done
      rw [(stopping.stops s stop found (after stop found)).1] at completed
      cases completed
    rw [old,new]

theorem within_cleared {v : Database} : Within (· = j) v (Tx.deletesEffect v .deliveryDropOff fun _ (stop : DeliveryDropOff) => stop.jobId = j) := by
  refine ⟨?_,?_,?_⟩
  · exact fun i written => absurd (congrFun (v.deletes_other (by decide)) i) written
  · intro s written
    have removes : (dispatch (v.apply (v.deletes .deliveryDropOff fun _ (stop : DeliveryDropOff) => stop.jobId = j))).stop =
        removed (fun _ (stop : DeliveryDropOff) => stop.jobId = j) (dispatch v).stop := by rw [dispatch_deletes_stop]
    cases found : (dispatch v).stop s with
    | none =>
      refine ⟨fun stop no => (by cases no),fun stop after => ?_⟩
      have before := (removed_some.mp ((congrFun removes s).symm.trans after)).1
      cases found.symm.trans before
    | some old =>
      have hit : old.jobId = j := by
        refine not_not.mp fun missed => written ?_
        show (v.deletes .deliveryDropOff _).rows .deliveryDropOff s = none
        rw [Db.deletes_rows,show v.rows .deliveryDropOff s = some old from found]
        simp [missed]
      refine ⟨fun stop same => (by cases same; exact hit),fun stop after => ?_⟩
      have before := (removed_some.mp ((congrFun removes s).symm.trans after)).1
      cases found.symm.trans before
      exact hit
  · exact fun i written => absurd (congrFun (v.deletes_other (by decide)) i) written

theorem within_dropOffs {v : Database} {orders : List (Nat × Order)} :
    Within (· = j) v (Tx.insertsEffect v .deliveryDropOff (dropOffs j orders) []) := by
  refine ⟨?_,?_,?_⟩
  · exact fun i written => absurd (congrFun (v.inserts_other _ (by decide)) i) written
  · intro s written
    have above : v.seq .deliveryDropOff ≤ s := by
      refine not_lt.mp fun below => written ?_
      show (v.inserts .deliveryDropOff _).rows .deliveryDropOff s = none
      rw [Db.inserts_rows,if_neg (by omega)]
    refine ⟨?_,?_⟩
    · intro stop found
      cases (v.bounded .deliveryDropOff s above).symm.trans found
    · intro stop found
      simp only [Tx.insertsEffect,dispatch_inserts_stop,inserted,if_pos above] at found
      unfold dropOffs at found
      rw [List.getElem?_mapIdx] at found
      obtain ⟨e,_,rfl⟩ := Option.map_eq_some_iff.mp found
      rfl
  · exact fun i written => absurd (congrFun (v.inserts_other _ (by decide)) i) written

theorem stopping_made {orders : List (Nat × Order)} {base : Nat} (handing : Handing j orders a c) (cleared : Cleared j a c)
    (fresh : ∀ s, base ≤ s → c.stop s = none) (nonempty : orders ≠ []) :
    Stopping j orders a {c with stop := inserted base (dropOffs j orders) c.stop} := by
  have made : ∀ s stop, base ≤ s → (dropOffs j orders)[s-base]? = some stop →
      stop.jobId = j ∧ stop.status = .pending ∧ ∃ e ∈ orders, stop.orderId = e.1 := by
    intro s stop above found
    unfold dropOffs at found
    rw [List.getElem?_mapIdx] at found
    obtain ⟨e,at_e,rfl⟩ := Option.map_eq_some_iff.mp found
    exact ⟨rfl,rfl,e,List.mem_of_getElem? at_e,rfl⟩
  refine ⟨handing,?_,?_⟩
  · intro s stop found part
    dsimp only [inserted] at found
    split at found
    · rename_i above
      exact (made s stop above found).2
    · exact absurd part (cleared s stop found)
  · obtain ⟨first,rest,rfl⟩ := List.exists_cons_of_ne_nil nonempty
    have found : (dropOffs j (first::rest))[0]? = some ⟨j,first.1,0,.pending,first.2.customerLat,first.2.customerLng,none⟩ := by
      unfold dropOffs
      simp
    refine ⟨base,_,?_,(made base _ (Nat.le_refl _) (by rw [Nat.sub_self]; exact found)).1⟩
    dsimp only [inserted]
    rw [if_pos (Nat.le_refl _),Nat.sub_self]
    exact found

theorem Upserted.unwritten {e : Effect Row Key} (upserted : Upserted db j b d n e) (apart : t ≠ .deliveryJob) :
    e.writes.rows t i = none := by
  refine not_not.mp fun written => ?_
  rcases upserted.only _ (e.locked t i written) with same | same
  · cases same
    exact apart rfl
  · cases same

-- The transaction has its job, and has written no batch and no order.
structure Upserts (j b : Nat) (h : List MarketLock) (w : Writes Row) (db : Database) : Prop where
  owning : Owning j b (Upserting j) h w db
  batches : ∀ i, w.rows .deliveryBatch i = none
  orders : ∀ i, w.rows .order i = none

theorem upserts_stable : completion.Stable x (Upserts j b) := by
  rintro T h w db later ⟨owning,batches,orders⟩ sees
  exact ⟨owning_stable upserting_private T h w db later owning sees,batches,orders⟩

theorem Upserted.upserts {e : Effect Row Key} (upserted : Upserted db j b d n e) :
    Upserts j b ([] ++ e.locks) (Writes.none.over e.writes) (db.reserve e.writes) := by
  have same : Writes.none.over e.writes = e.writes := Writes.none_over _
  have view : dispatch ((db.reserve e.writes).apply (Writes.none.over e.writes)) = dispatch (db.apply e.writes) := by
    rw [same]
    exact dispatch_rows rfl
  refine ⟨⟨footprint_next footprint_start (fun _ no => no.elim) ?_ ?_,?_,?_⟩,?_,?_⟩
  · rintro _ rfl
    exact List.mem_append_right _ upserted.row
  · refine ⟨?_,fun s written => absurd (upserted.unwritten (by decide)) written,
      fun i written => absurd (upserted.unwritten (by decide)) written⟩
    intro i written
    rcases upserted.only _ (e.locked _ i written) with same | same <;> cases same
    rfl
  · rcases upserted.job with ⟨old,at_j,same⟩ | ⟨none,others⟩
    · exact .inl ⟨old,at_j,same⟩
    · exact .inr ⟨none,List.mem_append_right _ upserted.key,others⟩
  · rw [view,upserted.rows]
    exact ⟨_,Function.update_self ..,rfl⟩
  · rw [same]
    exact upserted.batches
  · rw [same]
    exact fun i => upserted.unwritten (by decide)

theorem keeps_upsertJob {next : Nat → Transaction α} {Q : α → Mark Row Key}
    (rest : ∀ j h w db, Upserts j b h w db → (next j).Keeps completion x Q h w db) :
    (upsertJob b d n >>= next).Keeps completion x Q [] .none db := by
  refine keeps_stmt (stable_under footprint_stable) footprint_start ?_
  intro T db _ sees
  rw [Db.apply_none]
  have go : ∀ j e, Upserted db j b d n e →
      ((if (db.rows .delivererProfile d).isNone then .throw .foreignKeyViolation else .ret j : Transaction Nat) >>= next).Keeps
        completion x Q ([] ++ e.locks) (Writes.none.over e.writes) (db.reserve e.writes) := by
    intro j e upserted
    split
    · trivial
    · exact rest j _ _ _ upserted.upserts
  cases found : jobOfBatch db b with
  | some entry =>
    obtain ⟨j,old⟩ := entry
    simp only [found]
    exact go j _ (upserted_updates found)
  | none =>
    simp only [found]
    exact go _ _ (upserted_inserts found)

-- The batch was unclaimed, so its job, if there was one, was PENDING.
theorem Upserts.taking {e : Effect Row Key} (upserts : Upserts j b h w db) (linked : Linked Tight (dispatch db))
    (same : e = Tx.updatesEffect (db.apply w) .deliveryBatch p f []) (found : (db.apply w).rows .deliveryBatch b = some k)
    (unclaimed : k.delivererId = none) :
    Owning j b (Taking j) (h ++ e.locks) (w.over e.writes) (db.reserve e.writes) := by
  have quiet : ∀ t, t ≠ .deliveryBatch → ∀ i, e.writes.rows t i = none := by
    intro t apart i
    rw [same]
    exact (updates_outside (db.apply w) apart).1 i
  refine owning_next upserts.owning (within_quiet (quiet _ (by decide)) (quiet _ (by decide)) (quiet _ (by decide))) ⟨?_,?_⟩
  · cases at_j : (dispatch db).job j with
    | none => exact .inl rfl
    | some old =>
      refine .inr ⟨old,rfl,not_not.mp fun begun => ?_⟩
      obtain ⟨k',at_k,claimed⟩ := linked.claimed j old at_j begun id
      have own : old.batchId = b := by
        rcases upserts.owning.sole with ⟨job,at_j',own⟩ | ⟨none,_⟩
        · cases at_j.symm.trans at_j'
          exact own
        · cases at_j.symm.trans none
      rw [own] at at_k
      cases at_k.symm.trans ((unwritten_rows (upserts.batches b)).symm.trans found)
      exact claimed unclaimed
  · exact upserting_private _ _ _ _ (sameOwn_refl _)
      (sameOwn_quiet (quiet _ (by decide)) (quiet _ (by decide)) (quiet _ (by decide))) upserts.owning.known

-- It has the batch too, and has written no order.
structure Claimed (j b : Nat) (h : List MarketLock) (w : Writes Row) (db : Database) : Prop where
  owning : Owning j b (Taking j) h w db
  orders : ∀ i, w.rows .order i = none

theorem claimed_stable : completion.Stable x (Claimed j b) := by
  rintro T h w db later ⟨owning,orders⟩ sees
  exact ⟨owning_stable taking_private T h w db later owning sees,orders⟩

theorem claimed_quiet {e : Effect Row Key} (claimed : Claimed j b h w db) (quiet : ∀ t, ¬Outside t → ∀ i, e.writes.rows t i = none) :
    Claimed j b (h ++ e.locks) (w.over e.writes) (db.reserve e.writes) := by
  have job := quiet .deliveryJob (by simp [Outside])
  have stop := quiet .deliveryDropOff (by simp [Outside])
  have order := quiet .order (by simp [Outside])
  refine ⟨owning_next claimed.owning (within_quiet job stop order) ?_,fun i => by simp [Writes.over,order i,claimed.orders i]⟩
  exact taking_private _ _ _ _ (sameOwn_refl _) (sameOwn_quiet job stop order) claimed.owning.known

-- Every order of the batch is handed on, and those that were read are in it.
theorem Claimed.handing {orders : List (Nat × Order)} {e : Effect Row Key} (claimed : Claimed j b h w db) (linked : Linked Tight (dispatch db))
    (joined : ReadOrders b orders (dispatch db))
    (same : e = Tx.updatesEffect (db.apply w) .order (fun _ (o : Order) => o.deliveryBatchId = some b) (handed d j) []) :
    Owning j b (Handing j orders) (h ++ e.locks) (w.over e.writes) (db.reserve e.writes) := by
  have committed : ∀ i, (dispatch (db.apply w)).order i = (dispatch db).order i := fun i => unwritten_rows (claimed.orders i)
  refine owning_orders claimed.owning same ?_ ⟨claimed.owning.known,?_⟩
  · intro i o found hit
    refine ⟨?_,fun k same => (Option.some.inj same).symm⟩
    intro k carries
    obtain ⟨job,at_k,batch⟩ := linked.job i o k ((committed i).symm.trans found) carries
    exact sole_unique linked claimed.owning.sole at_k (Option.some.inj (batch.symm.trans (of_decide_eq_true hit)))
  · intro entry member
    obtain ⟨o,found,part⟩ := joined entry member
    refine ⟨handed d j o,?_,rfl⟩
    dsimp only
    rw [rewritten_of ((committed _).trans found),if_pos (decide_eq_true part)]

theorem owning_cleared {e : Effect Row Key} (handing : Owning j b (Handing j orders) h w db)
    (same : e = Tx.deletesEffect (db.apply w) .deliveryDropOff fun _ (stop : DeliveryDropOff) => stop.jobId = j) :
    Owning j b (fun a c => Handing j orders a c ∧ Cleared j a c) (h ++ e.locks) (w.over e.writes) (db.reserve e.writes) := by
  subst same
  refine owning_next handing within_cleared ?_
  simp only [Tx.deletesEffect,dispatch_deletes_stop]
  refine ⟨handing.known,?_⟩
  intro s stop found
  dsimp only at found
  exact of_decide_eq_false (removed_some.mp found).2

theorem owning_stopped {e : Effect Row Key} (cleared : Owning j b (fun a c => Handing j orders a c ∧ Cleared j a c) h w db)
    (stocked : orders ≠ []) (same : e = Tx.insertsEffect (db.apply w) .deliveryDropOff (dropOffs j orders) []) :
    Owning j b (Stopping j orders) (h ++ e.locks) (w.over e.writes) (db.reserve e.writes) := by
  subst same
  refine owning_next cleared within_dropOffs ?_
  simp only [Tx.insertsEffect,dispatch_inserts_stop]
  exact stopping_made cleared.known.1 cleared.known.2 (fun s above => (db.apply w).bounded .deliveryDropOff s above) stocked

theorem keeps_assignTx (stocked : orders ≠ []) (joined : ∀ now c, Knows x now c → ReadOrders b orders c) :
    (assignTx b orders d).Keeps completion x (fun j h w db => Owning j b (Stopping j orders) h w db) [] .none db := by
  refine keeps_upsertJob ?_
  intro j h w db upserts
  refine keeps_updateMany upserts_stable upserts ?_
  intro T db upserts sees e same
  split
  · trivial
  rename_i some
  obtain ⟨i,k,found,hit⟩ := matching_length some
  obtain ⟨rfl,unclaimed,_⟩ := of_decide_eq_true hit
  have quiet : ∀ i, e.writes.rows .order i = none := by
    intro i
    rw [same]
    exact (updates_outside (db.apply w) (by decide)).1 i
  have claimed : Claimed j i (h ++ e.locks) (w.over e.writes) (db.reserve e.writes) :=
    ⟨upserts.taking sees.inv.1.1 same found unclaimed,fun i => by simp [Writes.over,quiet i,upserts.orders i]⟩
  refine keeps_bind (keeps_mono ?_ (keeps_confined (confined_claimDeliverer (T := Outside) (by simp [Outside])) claimed_stable
    (fun _ _ _ _ quiet claimed => claimed_quiet claimed quiet) claimed))
  intro _ h w db claimed
  refine keeps_updateMany claimed_stable claimed ?_
  intro T db claimed sees e same
  refine keeps_deleteMany (owning_stable handing_private) (claimed.handing sees.inv.1.1 (joined _ _ sees.fact.1) same) ?_
  intro T db handing sees e same
  refine keeps_createMany (owning_stable (private_and handing_private cleared_private)) (owning_cleared handing same) ?_
  intro T db cleared sees e same
  refine keeps_aside (quiet_event _) stopping_private (owning_stopped cleared stocked same) ?_
  exact fun _ _ _ _ owning => owning

-- A new order has no job.
theorem within_newOrder {own : Nat → Prop} {v : Database} {new : Order} (jobless : new.deliveryJobId = none) :
    Within own v (Tx.insertsEffect v .order [new] []) := by
  refine ⟨?_,?_,?_⟩
  · exact fun i written => absurd (congrFun (v.inserts_other _ (by decide)) i) written
  · exact fun s written => absurd (congrFun (v.inserts_other _ (by decide)) s) written
  · intro i written
    have above : v.seq .order ≤ i := by
      refine not_lt.mp fun below => written ?_
      show (v.inserts .order _).rows .order i = none
      rw [Db.inserts_rows,if_neg (by omega)]
    refine ⟨?_,?_⟩
    · intro o j found
      cases (v.bounded .order i above).symm.trans found
    · intro o j found carries
      simp only [Tx.insertsEffect,dispatch_inserts_order,inserted,if_pos above] at found
      rw [List.mem_singleton.mp (List.mem_of_getElem? found),jobless] at carries
      cases carries

theorem keeps_createOrderTx : (createOrderTx dto vendorId costumerId vendor).Keeps completion x
    (fun _ => Footprint fun _ => False) [] .none db := by
  refine keeps_apart confined_select footprint_start ?_
  intro referenced h w db foot
  split
  · trivial
  refine keeps_create (stable_under footprint_stable) foot ?_
  intro T db foot sees e same
  have made : Within (fun _ => False) (db.apply w) e := by
    rw [same]
    exact within_newOrder rfl
  refine keeps_apart (confined_createMany (by simp [Outside])) (footprint_next foot (fun _ no => no) (fun _ no => no.elim) made) ?_
  intro _ h w db foot
  refine keeps_apart (quiet_event _) foot ?_
  exact fun _ _ _ _ foot => foot

-- A transaction that marks an order ready; the order is in no batch, so it has no job.
structure Marking (o : Nat) (h : List MarketLock) (w : Writes Row) (db : Database) : Prop where
  foot : Footprint (fun _ => False) h w db
  unjoined : Unjoined o h w db

theorem marking_stable : completion.Stable x (Marking o) := by
  rintro T h w db later ⟨foot,unjoined⟩ sees
  exact ⟨footprint_stable T h w db later foot (sees_under sees),unjoined_stable T h w db later unjoined (sees_under sees)⟩

theorem marking_locks {e : Effect Row Key} (marking : Marking o h w db) (writes : e.writes = .none) :
    Marking o (h ++ e.locks) (w.over e.writes) (db.reserve e.writes) := by
  have quiet : ∀ t i, e.writes.rows t i = none := by simp [writes,Writes.none]
  refine ⟨footprint_next marking.foot (fun _ no => no) (fun _ no => no.elim) (within_quiet (quiet _) (quiet _) (quiet _)),?_⟩
  rw [writes,Writes.over_none,reserve_none]
  exact marking.unjoined.more _

theorem within_jobless {own : Nat → Prop} {v : Database} {p : Nat → Order → Bool} {f : Order → Order} {extra : List MarketLock}
    (each : ∀ i o, (dispatch v).order i = some o → p i o = true → o.deliveryJobId = none ∧ (f o).deliveryJobId = none) :
    Within own v (Tx.updatesEffect v .order p f extra) := by
  refine within_orders fun i o found hit => ?_
  obtain ⟨before,after⟩ := each i o found hit
  rw [before,after]
  exact ⟨fun j no => (by cases no),fun j no => (by cases no)⟩

theorem keeps_connectOrder {next : Nat → Transaction α} {Q : α → Mark Row Key} (marking : Marking o h w db)
    (rest : ∀ n h w db, Footprint (fun _ => False) h w db → (next n).Keeps completion x Q h w db) :
    (connectOrder b o >>= next).Keeps completion x Q h w db := by
  refine keeps_stmt marking_stable marking ?_
  rintro T db ⟨foot,unjoined⟩ sees
  have joins : Within (fun _ => False) (db.apply w) (Tx.updatesEffect (db.apply w) .order (fun i _ => i = o) (joined b) []) := by
    refine within_jobless fun i r found hit => ?_
    rw [of_decide_eq_true hit] at found
    have jobless := (unjoined.order r found).2.1
    exact ⟨jobless,jobless⟩
  have foot := footprint_next foot (fun _ no => no) (fun _ no => no.elim) joins
  beta_reduce
  split
  · trivial
  · exact rest _ _ _ _ foot

theorem keeps_assignToBatchLoop {env : Env} (batches : List OpenBatch) (marking : Marking o h w db) :
    (assignToBatchLoop env o order batches).Keeps completion x (fun _ => Footprint fun _ => False) h w db := by
  induction batches with
  | nil =>
    unfold assignToBatchLoop
    refine keeps_create marking_stable marking ?_
    rintro T db ⟨foot,unjoined⟩ sees e same
    have quiet : ∀ t, t ≠ .deliveryBatch → ∀ i, e.writes.rows t i = none := by
      intro t apart i
      rw [same]
      exact (inserts_outside (db.apply w) _ apart).1 i
    refine keeps_connectOrder ⟨footprint_next foot (fun _ no => no) (fun _ no => no.elim)
      (within_quiet (quiet _ (by decide)) (quiet _ (by decide)) (quiet _ (by decide))),List.mem_append_left _ unjoined.row,?_⟩
      fun _ _ _ _ foot => foot
    intro r found
    rw [dispatch_own,same] at found
    simp only [Tx.insertsEffect,dispatch_inserts_batch] at found
    exact unjoined.order r found
  | cons batch rest ih =>
    unfold assignToBatchLoop
    split
    · exact ih
    · exact keeps_connectOrder marking fun _ _ _ _ foot => foot

theorem keeps_assignToBatch {env : Env} (marking : Marking o h w db) :
    (assignToBatch env o order).Keeps completion x (fun _ => Footprint fun _ => False) h w db := by
  unfold assignToBatch Tx.lock
  refine keeps_selectLocking marking_stable marking ?_
  intro T db marking sees e writes _
  refine keeps_select marking_stable (marking_locks marking writes) ?_
  intro T db marking sees
  refine keeps_selectLocking marking_stable marking ?_
  intro T db marking sees e writes _
  exact keeps_assignToBatchLoop _ (marking_locks marking writes)

theorem keeps_vendorMarkReadyTx {env : Env} : (vendorMarkReadyTx env o orderType).Keeps completion x
    (fun _ => Footprint fun _ => False) [] .none db := by
  refine keeps_updateMany (stable_under footprint_stable) footprint_start ?_
  intro T db foot sees e same
  split
  · trivial
  rename_i some
  rw [Db.apply_none] at same some
  have linked : Linked Tight (dispatch db) := sees.inv.1.1
  obtain ⟨i,r,found,hit⟩ := matching_length some
  obtain ⟨rfl,ready⟩ := of_decide_eq_true hit
  -- Any order that the update takes is in no batch, and so has no job.
  have jobless : ∀ i r, (dispatch db).order i = .some r → r.status ∈ READYABLE_STATUSES → r.deliveryJobId = none := by
    intro i r found ready
    refine Option.eq_none_iff_forall_ne_some.mpr fun j carries => ?_
    obtain ⟨_,_,batched⟩ := linked.job i r j found carries
    cases batched.symm.trans (linked.readyable i r found ready)
  have marking : Marking i ([] ++ e.locks) (Writes.none.over e.writes) (db.reserve e.writes) := by
    refine ⟨footprint_next foot (fun _ no => no) (fun _ no => no.elim) ?_,List.mem_append_right _ ?_,?_⟩
    · rw [Db.apply_none,same]
      refine within_jobless fun k o at_k hit => ?_
      have unassigned := jobless k o at_k (of_decide_eq_true hit).2
      exact ⟨unassigned,unassigned⟩
    · rw [same]
      exact List.mem_append_left _ (Tx.mem_locksOf.mpr ⟨r,found,hit⟩)
    · intro r' found'
      have at_i : (dispatch db).order i = .some r := found
      rw [dispatch_own,Db.apply_none,same] at found'
      simp only [Tx.updatesEffect,dispatch_updates_order] at found'
      rw [rewritten_of at_i,if_pos hit] at found'
      cases found'
      exact ⟨linked.readyable i r at_i ready,jobless i r at_i ready,unready_readied⟩
  refine keeps_findUniqueOrThrow marking_stable marking ?_
  intro T db readyOrder marking sees _
  refine keeps_bind (keeps_mono ?_ (keeps_assignToBatch marking))
  intro _ h w db foot
  refine keeps_apart (quiet_event _) foot ?_
  exact fun _ _ _ _ foot => foot

end Bodies
end MesyafMarket
