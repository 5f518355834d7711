import MesyafMarket.Dispatch.Waits

namespace MesyafMarket
open Relational OrderService

section Orders
variable {x : Proc} {loose : Nat → Prop} {h : List MarketLock} {w : Writes Row} {db : Database} {A : Mark Row Key}

-- The order that vendorMarkReady has claimed: not in a batch, and the transaction's own.
structure Unjoined (o : Nat) (h : List MarketLock) (w : Writes Row) (db : Database) : Prop where
  row : .row .order o ∈ h
  order : ∀ r, (dispatch (db.apply w)).order o = some r →
    r.deliveryBatchId = none ∧ r.deliveryJobId = none ∧ r.status ∉ READYABLE_STATUSES

theorem unjoined_stable : locking.Stable x (Unjoined o) := by
  rintro T h w db later ⟨held,order⟩ sees
  refine ⟨held,?_⟩
  intro r found
  exact order r ((view_held held sees.changed).symm.trans found)

theorem Unjoined.more (unjoined : Unjoined o h w db) (extra : List MarketLock) : Unjoined o (h ++ extra) w db :=
  ⟨List.mem_append_left _ unjoined.row,unjoined.order⟩

-- A query that takes locks on keys, and writes nothing.
theorem safe_selectLocking {query : Database → β} {locks : Database → List MarketLock} {next : β → Transaction α} {Q : α → Mark Row Key}
    (stable : locking.Stable x A) (working : Working loose h w db) (known : A h w db)
    (step : ∀ T db, Working loose h w db → A h w db → locking.Sees x T h w db db →
      (∀ k ∈ locks (db.apply w), MayAsk h db k ∧ ∃ key, k = .key key) ∧
        (Working loose (h ++ locks (db.apply w)) w db →
          (next (query (db.apply w))).Safe locking x Q (h ++ locks (db.apply w)) w db)) :
    (Tx.selectLocking query locks >>= next).Safe locking x Q h w db := by
  refine safe_step stable working known ?_
  rintro T db working known sees e same
  obtain ⟨keys,rest⟩ := step T db working known sees
  have asks : ∀ k ∈ e.locks, MayAsk h db k := by
    rw [same]
    exact fun k member => (keys k member).1
  have after := working_next working asks (by
    rw [same]
    simp only [Db.apply_none]
    exact ⟨working.1.view,.refl⟩)
  refine ⟨asks,?_,?_⟩
  · rw [same]
    intro t i member
    obtain ⟨key,no⟩ := (keys _ member).2
    cases no
  · rw [same] at after ⊢
    simp only [Writes.over_none,reserve_none] at after ⊢
    exact rest after

theorem rejoins_joined (unjoined : r.deliveryBatchId = none ∧ r.deliveryJobId = none ∧ r.status ∉ READYABLE_STATUSES) :
    Rejoins c r (joined b r) := by
  refine ⟨?_,?_,?_⟩
  · intro k same
    rw [unjoined.1] at same; cases same
  · intro j same
    have none : r.deliveryJobId = some j := same
    rw [unjoined.2.1] at none; cases none
  · exact fun ready => absurd ready unjoined.2.2

theorem safe_connectOrder {next : Nat → Transaction α} {Q : α → Mark Row Key} (working : Working Tight h w db)
    (unjoined : Unjoined o h w db) (rest : ∀ n h w db, Working Tight h w db → (next n).Safe locking x Q h w db) :
    (connectOrder b o >>= next).Safe locking x Q h w db := by
  refine safe_step unjoined_stable working unjoined ?_
  rintro T db working unjoined sees e same
  have fits : Fits Tight h w db e := by
    rw [same]
    refine fits_orders working sees.locked ?_ ?_
    · intro i r _ _ hit
      rw [of_decide_eq_true hit]
      exact .held unjoined.row
    · intro i r found hit
      obtain rfl := of_decide_eq_true hit
      exact rejoins_joined (unjoined.order r found)
  refine ⟨fits.asks,fits.drawn,?_⟩
  beta_reduce
  split
  · trivial
  · exact rest _ _ _ _ (working_next working fits.asks fits.links)

-- A new batch has an id that no job refers to as claimed.
theorem linked_newBatch (linked : Linked loose (dispatch v)) (new : DeliveryBatch) :
    Linked loose (dispatch (v.apply (v.inserts .deliveryBatch [new]))) ∧
      Respects L (dispatch v) (dispatch (v.apply (v.inserts .deliveryBatch [new]))) := by
  have kept : ∀ i k, (dispatch v).batch i = some k →
      inserted (v.seq .deliveryBatch) [new] (dispatch v).batch i = some k := by
    intro i k found
    have below := v.below (show v.rows .deliveryBatch i = some k from found)
    unfold inserted
    rw [if_neg (Nat.not_le_of_lt below)]
    exact found
  rw [dispatch_inserts_batch]
  refine ⟨linked_batches linked ?_,respects_batches ?_⟩
  · intro j job found assigned pending
    obtain ⟨k,at_k,claimed⟩ := linked.claimed j job found assigned pending
    exact ⟨k,kept _ k at_k,claimed⟩
  · exact fun i k found claimed => .inl ⟨k,kept i k found,claimed⟩

theorem safe_assignToBatchLoop {env : Env} (batches : List OpenBatch) (working : Working Tight h w db) (unjoined : Unjoined o h w db) :
    (assignToBatchLoop env o order batches).Safe locking x (fun _ => Working Tight) h w db := by
  induction batches with
  | nil =>
    unfold assignToBatchLoop
    refine safe_step unjoined_stable working unjoined ?_
    rintro T db working unjoined sees e same
    have fits : Fits Tight h w db e := by
      rw [same]
      exact fits_inserts (fun _ => rfl) ⟨(linked_newBatch (L := fun _ => True) working.1.view _).1,
        fun L => (linked_newBatch working.1.view _).2⟩
    refine ⟨fits.asks,fits.drawn,?_⟩
    refine safe_connectOrder (working_next working fits.asks fits.links) ⟨List.mem_append_left _ unjoined.row,?_⟩
      fun _ _ _ _ working => working
    intro r found
    rw [dispatch_own,same] at found
    simp only [Tx.insertsEffect,dispatch_inserts_batch] at found
    exact unjoined.order r found
  | cons batch rest ih =>
    unfold assignToBatchLoop
    split
    · exact ih
    · exact safe_connectOrder working unjoined fun _ _ _ _ working => working

-- Before and after it takes the advisory lock.
def OrdersOnly (h : List MarketLock) (_ : Writes Row) : Prop := ∀ k ∈ h, ∃ i, k = .row .order i

def Batching (h : List MarketLock) (_ : Writes Row) : Prop := .key .batchLock ∈ h

theorem safe_assignToBatch {env : Env} (working : Working Tight h w db) (unjoined : Unjoined o h w db)
    (orders : OrdersOnly h w) :
    (assignToBatch env o order).Safe locking x (fun _ => Working Tight) h w db := by
  unfold assignToBatch Tx.lock
  refine safe_selectLocking (stable_and unjoined_stable (stable_own OrdersOnly)) working
    ⟨unjoined,orders⟩ ?_
  rintro T db working ⟨unjoined,orders⟩ sees
  refine ⟨?_,fun working => ?_⟩
  · intro k member
    rw [List.mem_singleton.mp member]
    exact ⟨.batching orders,_,rfl⟩
  · have stable : locking.Stable x fun h w db => Unjoined o h w db ∧ Batching h w :=
      stable_and unjoined_stable (stable_own Batching)
    refine safe_select stable working ⟨unjoined.more _,List.mem_append_right _ (List.mem_singleton_self _)⟩ ?_
    intro T db working known sees
    refine safe_selectLocking stable working known ?_
    rintro T db working ⟨unjoined,guard⟩ sees
    refine ⟨?_,fun working => safe_assignToBatchLoop _ working (unjoined.more _)⟩
    intro k member
    split at member
    · rw [List.mem_singleton.mp member]
      exact ⟨.joins guard,_,rfl⟩
    · cases member

theorem unready_readied : (readied orderType now o).status ∉ READYABLE_STATUSES := by simp [readied,READYABLE_STATUSES]

theorem safe_vendorMarkReadyTx {env : Env} (linked : Linked Tight (dispatch db)) :
    (vendorMarkReadyTx env o orderType).Safe locking x (fun _ => Midway Tight) [] .none db := by
  refine safe_firstUpdateMany linked ?_ ?_ ?_
  · intro db linked i r found hit b part
    obtain ⟨_,ready⟩ := of_decide_eq_true hit
    cases part with
    | order found' joined =>
      cases (show (dispatch db).order i = some r from found).symm.trans found'
      rw [linked.readyable i r found' ready] at joined
      cases joined
  · intro db linked L
    rw [dispatch_updates_order]
    exact linked_orders linked fun i r found _ => rejoins_same linked found rfl (.inl rfl) unready_readied
  · intro db e same linked knows working
    split
    · trivial
    · rename_i some
      obtain ⟨i,r,found,hit⟩ := matching_length some
      obtain ⟨rfl,ready⟩ := of_decide_eq_true hit
      have at_order : (dispatch db).order i = .some r := found
      have orders : ∀ k ∈ e.locks, ∃ i, k = .row .order i := by
        intro k member
        rw [same] at member
        rcases List.mem_append.mp member with row | key
        · obtain ⟨entry,_,rfl⟩ := List.mem_map.mp row
          exact ⟨entry.1,rfl⟩
        · cases key
      have unjoined : Unjoined i e.locks e.writes (db.reserve e.writes) := by
        have view : dispatch ((db.reserve e.writes).apply e.writes) = dispatch (db.apply e.writes) := dispatch_rows rfl
        have unbatched := linked.readyable i r at_order ready
        refine ⟨?_,?_⟩
        · rw [same]
          exact List.mem_append_left _ (Tx.mem_locksOf.mpr ⟨r,found,hit⟩)
        · intro r' found'
          rw [view,same] at found'
          simp only [Tx.updatesEffect,dispatch_updates_order] at found'
          rw [rewritten_of at_order,if_pos hit] at found'
          cases found'
          refine ⟨unbatched,?_,unready_readied⟩
          cases jobless : r.deliveryJobId with
          | none => exact jobless
          | some j =>
            obtain ⟨job,_,joined⟩ := linked.job i r j at_order jobless
            rw [unbatched] at joined; cases joined
      have stable : locking.Stable x fun h w db => Unjoined i h w db ∧ OrdersOnly h w :=
        stable_and unjoined_stable (stable_own OrdersOnly)
      refine safe_findUniqueOrThrow stable working ⟨unjoined,orders⟩ ?_
      rintro T db readyOrder working ⟨unjoined,orders⟩ sees _
      refine safe_bind (safe_mono ?_ (safe_assignToBatch working unjoined orders))
      intro _ h w db working
      refine safe_bind (safe_mono ?_ (safe_recordEvent stable_true lasting_true working trivial _))
      exact fun _ _ _ _ both => both.1.1

theorem working_start (linked : Linked Tight (dispatch db)) : Working Tight [] .none db := ⟨midway_start linked,sheltered_nil⟩

theorem safe_createOrderTx (linked : Linked Tight (dispatch db)) :
    (createOrderTx dto vendorId costumerId vendor).Safe locking x (fun _ => Midway Tight) [] .none db := by
  refine safe_select stable_true (working_start linked) trivial ?_
  intro T db working _ sees
  split
  · trivial
  · refine safe_create Tight stable_true lasting_true working trivial ?_
    intro T db working _ sees
    refine ⟨?_,fun h w db working _ => ?_⟩
    · refine fits_inserts (fun _ => rfl) ?_
      have fresh : ∀ i, (db.apply .none).seq .order ≤ i → (dispatch (db.apply .none)).order i = none :=
        fun i above => (db.apply .none).bounded .order i above
      rw [dispatch_inserts_order,inserted_one fresh]
      exact ⟨(linked_newOrder (L := fun _ => True) working.1.view (fresh _ (Nat.le_refl _)) rfl rfl).1,
        fun L => (linked_newOrder working.1.view (fresh _ (Nat.le_refl _)) rfl rfl).2⟩
    · refine safe_createMany Tight stable_true lasting_true working trivial ?_
      intro T db working _ sees
      refine ⟨fits_aside .orderItem working,fun h w db working _ => ?_⟩
      refine safe_bind (safe_mono ?_ (safe_recordEvent stable_true lasting_true working trivial _))
      exact fun _ _ _ _ both => both.1.1

end Orders
end MesyafMarket
