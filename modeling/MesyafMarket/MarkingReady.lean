import MesyafMarket.EventBooks
import MesyafMarket.Dispatch.Joins
import MesyafMarket.Relational.Serial

namespace MesyafMarket
open Relational OrderService VendorService

abbrev MarketSessions := Sessions Row Key Err QueueJob Proc
abbrev MarketAct := Act (Nat → Option Point) Proc

-- A PENDING batch that the order may join, as the two queries of the loop see it.
def Eligible (env : Env) (v : Database) (order : Order) (b : Nat) (k : DeliveryBatch) : Prop :=
  v.rows .deliveryBatch b = some k ∧ k.status = .pending ∧
    env.checkBatchEligibility order ((ordersOf env v b).map Prod.snd) = true

-- The batch that the order joins: the oldest one it is eligible for, or else a new
-- one. `seen` is what is known of a batch that is joined.
inductive Finds (env : Env) (seen : Database → Nat → Prop) (v : Database) (order : Order) (b : Nat)
    (batches : Nat → Option DeliveryBatch) : Prop where
  | oldest (eligible : Eligible env v order b k)
      (first : ∀ b' k', Eligible env v order b' k' → k.createdAt ≤ k'.createdAt)
      (still : batches = v.rows .deliveryBatch) (known : seen v b)
  | new (refused : ∀ b' k', ¬Eligible env v order b' k') (fresh : v.rows .deliveryBatch b = none)
      (created : batches = Function.update (v.rows .deliveryBatch) b (some ⟨none,.pending,now⟩))

-- The tables that a call writes.
def Writable (t : Tab) : Prop :=
  t = .order ∨ t = .deliveryBatch ∨ t = .eventLog ∨ t = .orderTimeline ∨ t = .jobTimeline

-- What a call that succeeds does, with the timestamps it carries.
structure Places (env : Env) (seen : Database → Nat → Prop) (rows : Rows Row) (orderId : Nat) (orderType : OrderType)
    (b : Nat) (rows' : Rows Row) : Prop where
  order : ∃ r now, rows .order orderId = some r ∧ r.status ∈ READYABLE_STATUSES ∧
    rows' .order = Function.update (rows .order) orderId (some (joined b (readied orderType now r))) ∧
    ∃ v : Database, v.rows = Function.update rows .order
        (Function.update (rows .order) orderId (some (readied orderType now r))) ∧
      Finds env seen v (readied orderType now r) b (rows' .deliveryBatch)
  aside : ∀ t, ¬Writable t → rows' t = rows t

section Ends
variable {sees : Effect Row Key → Database → Prop} {seen : Database → Nat → Prop}

theorem ends_connectOrder (ended : (connectOrder b o).Ends sees rows now rows') : ∃ v : Database, v.rows = rows ∧
    now = v.clock ∧ rows' = (v.apply (v.updates .order (fun i _ => i = o) (joined b))).rows := by
  unfold connectOrder at ended
  cases ended with
  | stmt shows _ rest =>
    beta_reduce at rest
    split at rest
    · cases rest
    · obtain ⟨same,after⟩ := Tx.ends_ret.mp rest
      exact ⟨_,shows,same,after⟩

theorem connected_rows {v : Database} (found : v.rows .order o = some r) :
    (v.apply (v.updates .order (fun i _ => i = o) (joined b))).rows .order =
      Function.update (v.rows .order) o (some (joined b r)) := by
  rw [Db.apply_updates]
  exact rewritten_only found

theorem mem_pendingBatches {env : Env} {v : Database} : (b,k) ∈ pendingBatches env v ↔
    v.rows .deliveryBatch b = some k ∧ k.status = .pending := by
  unfold pendingBatches
  rw [List.mem_insertionSort,(env.scan_perm v _).mem_iff,Db.mem_matching,decide_eq_true_eq]

theorem pendingBatches_sorted (env : Env) (v : Database) :
    (pendingBatches env v).Pairwise fun a b => a.2.createdAt ≤ b.2.createdAt := by
  unfold pendingBatches
  have total : Std.Total fun a b : Nat × DeliveryBatch => a.2.createdAt ≤ b.2.createdAt := ⟨fun _ _ => Nat.le_total _ _⟩
  have trans : IsTrans (Nat × DeliveryBatch) fun a b => a.2.createdAt ≤ b.2.createdAt := ⟨fun _ _ _ => Nat.le_trans⟩
  exact List.pairwise_insertionSort _ _

theorem picked_finds {env : Env} {v before : Database} (same : before.rows = v.rows)
    (chosen : picked env order (withOrders env (pendingBatches env before) v) = some batch)
    (still : batches = v.rows .deliveryBatch) (known : seen v batch.1) : Finds env seen v order batch.1 batches := by
  unfold picked at chosen
  obtain ⟨accepted,earlier,later,split,refused⟩ := List.find?_eq_some_iff_append.mp chosen
  obtain ⟨firsts,rest,parts,at_firsts,at_rest⟩ := List.map_eq_append_iff.mp split
  obtain ⟨found,others,cut,at_found,_⟩ := List.map_eq_cons_iff.mp at_rest
  subst cut
  have eligible : ∀ {b k}, Eligible env v order b k → (b,k) ∈ pendingBatches env before := by
    intro b k ⟨at_batch,pending,_⟩
    exact mem_pendingBatches.mpr ⟨by rw [same]; exact at_batch,pending⟩
  have own := mem_pendingBatches.mp (show (found.1,found.2) ∈ pendingBatches env before by rw [parts]; simp)
  rw [same] at own
  subst at_found
  refine .oldest ⟨own.1,own.2,accepted⟩ ?_ still known
  intro b k other
  have member := eligible other
  have sorted := pendingBatches_sorted env before
  rw [parts] at member sorted
  rcases List.mem_append.mp member with front | back
  · have declined := refused _ (by rw [← at_firsts]; exact List.mem_map.mpr ⟨_,front,rfl⟩)
    rw [Bool.not_eq_true',other.2.2] at declined
    cases declined
  · rcases List.mem_cons.mp back with itself | behind
    · rw [← itself]
    · have ordered := List.rel_of_pairwise_cons (List.pairwise_append.mp sorted).2.1 behind
      exact ordered

theorem unpicked_finds {env : Env} {v before : Database} (same : before.rows = v.rows)
    (none : picked env order (withOrders env (pendingBatches env before) v) = none) :
    ∀ b k, ¬Eligible env v order b k := by
  intro b k ⟨at_batch,pending,accepted⟩
  unfold picked at none
  have member : (b,k) ∈ pendingBatches env before := mem_pendingBatches.mpr ⟨by rw [same]; exact at_batch,pending⟩
  have declined := List.find?_eq_none.mp none _ (List.mem_map.mpr ⟨(b,k),member,rfl⟩)
  exact declined accepted

theorem ends_assignToBatchLoop {env : Env} (batches : List OpenBatch) {rows rows' : Rows Row}
    (found : rows .order o = some r) (ended : (assignToBatchLoop env o order batches).Ends sees rows outcome rows') :
    rows' .order = Function.update (rows .order) o (some (joined outcome.batchId r)) ∧
    ((∃ batch, picked env order batches = some batch ∧ outcome.batchId = batch.1 ∧
        rows' .deliveryBatch = rows .deliveryBatch) ∨
      (picked env order batches = none ∧ rows .deliveryBatch outcome.batchId = none ∧ ∃ now,
        rows' .deliveryBatch = Function.update (rows .deliveryBatch) outcome.batchId (some ⟨none,.pending,now⟩))) := by
  induction batches with
  | nil =>
    unfold assignToBatchLoop at ended
    obtain ⟨made,middle,created,ended⟩ := Tx.ends_bind.mp ended
    obtain ⟨v,shows,at_made,after⟩ := Tx.ends_create created
    obtain ⟨now,last,connected,ended⟩ := Tx.ends_bind.mp ended
    obtain ⟨at_outcome,at_end⟩ := Tx.ends_ret.mp ended
    obtain ⟨u,seen,_,joins⟩ := ends_connectOrder connected
    subst at_outcome at_end
    have same : u.rows .order = rows .order := by
      rw [seen,after,Db.apply_inserts_other _ _ (show Tab.order ≠ .deliveryBatch by decide),shows]
    refine ⟨?_,.inr ⟨rfl,?_,v.clock,?_⟩⟩
    · rw [joins,connected_rows (by rw [same]; exact found),same]
    · rw [at_made,← shows]
      exact v.bounded _ _ (Nat.le_refl _)
    · rw [joins,Db.apply_updates_other _ (show Tab.deliveryBatch ≠ .order by decide),seen,after,Db.apply_insert,shows,at_made]
  | cons batch rest ih =>
    unfold assignToBatchLoop at ended
    rw [picked_cons]
    split at ended
    · rename_i refused
      rw [if_neg (by simpa using refused)]
      exact ih ended
    · rename_i accepted
      rw [if_pos (by simpa using accepted)]
      obtain ⟨now,last,connected,ended⟩ := Tx.ends_bind.mp ended
      obtain ⟨at_outcome,at_end⟩ := Tx.ends_ret.mp ended
      obtain ⟨u,seen,_,joins⟩ := ends_connectOrder connected
      subst at_outcome at_end
      refine ⟨?_,.inl ⟨batch,rfl,rfl,?_⟩⟩
      · rw [joins,connected_rows (by rw [seen]; exact found),seen]
      · rw [joins,Db.apply_updates_other _ (show Tab.deliveryBatch ≠ .order by decide),seen]

theorem ends_assignToBatch {env : Env} {rows rows' : Rows Row}
    (joins : ∀ effect v b, sees effect v → .key (.joins b) ∈ effect.locks → seen v b) (found : rows .order o = some r)
    (ended : (assignToBatch env o r).Ends sees rows outcome rows') :
    rows' .order = Function.update (rows .order) o (some (joined outcome.batchId r)) ∧
    ∃ v : Database, v.rows = rows ∧ Finds env seen v r outcome.batchId (rows' .deliveryBatch) := by
  unfold assignToBatch at ended
  obtain ⟨_,first,locked,ended⟩ := Tx.ends_bind.mp ended
  obtain ⟨_,_,_,still,_⟩ := Tx.ends_selectLocking locked
  rw [still] at ended
  obtain ⟨pending,second,selected,ended⟩ := Tx.ends_bind.mp ended
  obtain ⟨u,read,at_pending,still⟩ := Tx.ends_select selected
  rw [still,at_pending] at ended
  obtain ⟨batches,third,selected,ended⟩ := Tx.ends_bind.mp ended
  obtain ⟨v,shows,at_batches,still,known⟩ := Tx.ends_selectLocking selected
  rw [still,at_batches] at ended
  obtain ⟨order,choice⟩ := ends_assignToBatchLoop _ found ended
  have same := read.trans shows.symm
  refine ⟨order,v,shows,?_⟩
  rcases choice with ⟨batch,chosen,at_batch,still⟩ | ⟨refused,fresh,now,created⟩
  · rw [at_batch]
    refine picked_finds same chosen (by rw [still,shows]) (joins _ _ _ known ?_)
    rw [chosen]
    exact List.mem_singleton.mpr rfl
  · exact .new (unpicked_finds same refused) (by rw [shows]; exact fresh) (by rw [created,shows])

-- What vendorMarkReady does after its claim, after it has read the order again, and
-- with the advisory lock.
def batchRead (env : Env) (orderId : Nat) (readyOrder : Order) : Transaction BatchOutcome := do
  let batching ← assignToBatch env orderId readyOrder
  EventLogService.recordEvent ⟨.order,orderId,EVENTS.ORDER.READY,
    orderPayload orderId OrderStatus.readyForDelivery.name⟩
  return batching

def batchClaimed (env : Env) (orderId : Nat) : Transaction BatchOutcome := do
  batchRead env orderId (← Tx.findUniqueOrThrow .order orderId .recordNotFound)

def joinLocked (env : Env) (orderId : Nat) (order : Order) : Transaction BatchOutcome := do
  let pending ← Tx.select (pendingBatches env)
  let batches ← Tx.selectLocking (withOrders env pending) fun v =>
    match picked env order (withOrders env pending v) with
    | some batch => [.key (.joins batch.1)]
    | none => []
  assignToBatchLoop env orderId order batches

def batchLocked (env : Env) (orderId : Nat) (readyOrder : Order) : Transaction BatchOutcome := do
  let batching ← joinLocked env orderId readyOrder
  EventLogService.recordEvent ⟨.order,orderId,EVENTS.ORDER.READY,
    orderPayload orderId OrderStatus.readyForDelivery.name⟩
  return batching

theorem claimed_order {v : Database} (found : v.rows .order o = some r) (readyable : r.status ∈ READYABLE_STATUSES) :
    (v.apply (v.updates .order (fun i (r : Order) => i = o ∧ r.status ∈ READYABLE_STATUSES) (readied orderType now))).rows =
      Function.update v.rows .order (Function.update (v.rows .order) o (some (readied orderType now r))) := by
  funext t
  by_cases same : t = .order
  · subst t
    rw [Function.update_self,Db.apply_updates]
    exact rewritten_key (P := fun r : Order => r.status ∈ READYABLE_STATUSES) found readyable
  · rw [Function.update_of_ne same,Db.apply_updates_other _ same]

theorem ends_vendorMarkReadyTx {env : Env} {rows rows' : Rows Row}
    (joins : ∀ effect v b, sees effect v → .key (.joins b) ∈ effect.locks → seen v b)
    (ended : (vendorMarkReadyTx env o orderType).Ends sees rows outcome rows') :
    Places env seen rows o orderType outcome.batchId rows' := by
  unfold vendorMarkReadyTx at ended
  obtain ⟨count,middle,updated,ended⟩ := Tx.ends_bind.mp ended
  obtain ⟨v,shows,at_count,claims⟩ := Tx.ends_updateMany updated
  subst at_count
  split at ended
  · cases ended
  rename_i some
  obtain ⟨i,r,found,hit⟩ := matching_length some
  obtain ⟨same,readyable⟩ : i = o ∧ r.status ∈ READYABLE_STATUSES := by simpa using hit
  subst same
  rw [claimed_order found readyable,shows] at claims
  rw [shows] at found
  obtain ⟨readyOrder,_,read,ended⟩ := Tx.ends_bind.mp ended
  obtain ⟨at_order,still⟩ := Tx.ends_findUniqueOrThrow read
  rw [still] at ended
  obtain ⟨batching,last,batched,ended⟩ := Tx.ends_bind.mp ended
  obtain ⟨_,final,recorded,ended⟩ := Tx.ends_bind.mp ended
  obtain ⟨at_outcome,at_end⟩ := Tx.ends_ret.mp ended
  subst at_outcome at_end
  have own : readyOrder = readied orderType v.clock r := by
    rw [claims,Function.update_self,Function.update_self] at at_order
    exact (Option.some.inj at_order).symm
  obtain ⟨order,u,read',finds⟩ := ends_assignToBatch joins at_order batched
  have aside : ∀ t, t ≠ .eventLog → t ≠ .orderTimeline → t ≠ .jobTimeline → rows' t = last t := by
    intro t log order job
    refine Tx.confined_ends (T := fun t => t = .eventLog ∨ t = .orderTimeline ∨ t = .jobTimeline)
      (confined_recordEvent (.inl rfl) (.inr (.inl rfl)) (.inr (.inr rfl))) recorded ?_
    simp [log,order,job]
  subst own
  refine ⟨⟨r,v.clock,found,readyable,?_,u,?_,?_⟩,?_⟩
  · rw [aside .order (by decide) (by decide) (by decide),order,claims,Function.update_self,Function.update_idem]
  · rw [read',claims]
  · rw [aside .deliveryBatch (by decide) (by decide) (by decide)]
    exact finds
  · intro t untouched
    simp only [Writable,not_or] at untouched
    obtain ⟨order,batch,log,orders,jobs⟩ := untouched
    have kept : last t = middle t := by
      refine Tx.confined_ends (T := fun t => t = .order ∨ t = .deliveryBatch)
        (confined_assignToBatch (.inl rfl) (.inr rfl)) batched ?_
      simp [order,batch]
    rw [aside t log orders jobs,kept,claims,Function.update_of_ne order]

end Ends

theorem unfailing_connectOrder {rows : Rows Row} (batch : (rows .deliveryBatch b).isSome = true)
    (order : (rows .order o).isSome = true) : (connectOrder b o).Unfailing rows := by
  intro v shows
  beta_reduce
  obtain ⟨k,at_batch⟩ := Option.isSome_iff_exists.mp batch
  obtain ⟨r,at_order⟩ := Option.isSome_iff_exists.mp order
  rw [shows,at_batch,at_order]
  trivial

theorem unfailing_recordEvent {rows : Rows Row} : (EventLogService.recordEvent params).Unfailing rows := by
  refine Tx.unfailing_bind (fun _ _ => trivial) ?_
  intro made rows' _
  unfold EventLogService.projectEvent
  split
  · unfold OrderTimelineProjectionService.project
    split
    · trivial
    · exact Tx.unfailing_bind (fun _ _ => trivial) fun _ _ _ => trivial
  · unfold JobTimelineProjectionService.project
    split
    · trivial
    · exact Tx.unfailing_bind (fun _ _ => trivial) fun _ _ _ => trivial

theorem unfailing_assignToBatchLoop {env : Env} (batches : List OpenBatch) {rows : Rows Row}
    (exist : ∀ batch ∈ batches, (rows .deliveryBatch batch.1).isSome = true) (order : (rows .order o).isSome = true) :
    (assignToBatchLoop env o r batches).Unfailing rows := by
  induction batches with
  | nil =>
    refine Tx.unfailing_bind (fun _ _ => trivial) ?_
    intro made middle created
    obtain ⟨v,shows,at_made,after⟩ := Tx.ends_create created
    refine Tx.unfailing_bind (unfailing_connectOrder ?_ ?_) fun _ _ _ => trivial
    · rw [after,Db.apply_insert,at_made,Function.update_self]
      rfl
    · rw [after,Db.apply_inserts_other _ _ (show Tab.order ≠ .deliveryBatch by decide),shows]
      exact order
  | cons batch rest ih =>
    unfold assignToBatchLoop
    split
    · exact ih fun other member => exist other (List.mem_cons_of_mem _ member)
    · exact Tx.unfailing_bind (unfailing_connectOrder (exist batch List.mem_cons_self) order) fun _ _ _ => trivial

def shopOf (v : Database) (userId : Nat) : Option Nat := (vendorByUser v userId).map Prod.fst

-- The catalog, and whose each order is, are those of `db`.
structure Standing (db : Database) (rows : Rows Row) : Prop where
  table : ∀ t, ¬Writable t → rows t = db.rows t
  parties : ∀ i, (rows .order i).map (fun r : Order => (r.vendorId,r.customerId)) =
    (db.rows .order i).map fun r : Order => (r.vendorId,r.customerId)

section Reads
variable {db v : Database} (standing : Standing db v.rows)
include standing

theorem shopOf_standing : shopOf v u = shopOf db u := by
  unfold shopOf vendorByUser
  rw [Db.matching_rows (standing.table .vendorProfile (by simp [Writable]))]

theorem hasFood_standing : hasFood v o = hasFood db o := by
  unfold hasFood
  rw [Db.matching_rows (standing.table .orderItem (by simp [Writable])),standing.table .product (by simp [Writable]),
    standing.table .category (by simp [Writable])]

theorem readyOrder_standing : Proc.readyOrder v o shop = Proc.readyOrder db o shop := by
  have parties := standing.parties o
  unfold Proc.readyOrder
  rw [hasFood_standing standing]
  cases before : db.rows .order o with
  | none =>
    rw [before,Option.map_none,Option.map_eq_none_iff] at parties
    rw [parties]
  | some r =>
    rw [before,Option.map_some,Option.map_eq_some_iff] at parties
    obtain ⟨r',found,same⟩ := parties
    simp only [Prod.mk.injEq] at same
    rw [found]
    simp only [same.1,same.2]

end Reads

theorem readyOrder_parts (db : Database) (o : Nat) (shop : Option Nat) :
    (∃ e, Proc.readyOrder db o shop = .returned (.thrown e)) ∨
      ∃ c orderType, Proc.readyOrder db o shop = .claimReady o c orderType := by
  unfold Proc.readyOrder
  split
  · exact .inl ⟨_,rfl⟩
  · split
    · exact .inl ⟨_,rfl⟩
    · exact .inr ⟨_,_,rfl⟩

theorem standing_places {env : Env} {db : Database} {rows rows' : Rows Row} (standing : Standing db rows)
    (places : Places env seen rows o orderType b rows') : Standing db rows' := by
  obtain ⟨r,now,found,_,order,_⟩ := places.order
  refine ⟨fun t untouched => (places.aside t untouched).trans (standing.table t untouched),?_⟩
  intro i
  rw [order,← standing.parties i]
  by_cases same : i = o
  · subst i
    rw [Function.update_self,found]
    rfl
  · rw [Function.update_of_ne same]

-- The answer of the two reads before the transaction: the call may claim the order.
def Legit (db : Database) (o u c : Nat) (orderType : OrderType) : Prop :=
  Proc.readyOrder db o (shopOf db u) = .claimReady o c orderType

-- Where a call goes on after its commit.
def batched (c o : Nat) (outcome : BatchOutcome) : Proc :=
  if outcome.created then .scheduleBatchTimeout outcome c o else .afterBatching outcome c o

def claimBody (env : Env) (o c : Nat) (orderType : OrderType) : Transaction Proc := do
  return batched c o (← vendorMarkReadyTx env o orderType)

def readyable (o i : Nat) (r : Order) : Bool := i = o ∧ r.status ∈ READYABLE_STATUSES

theorem batchClaimed_eq {env : Env} {f : BatchOutcome → Transaction Proc} : batchClaimed env o >>= f =
    .stmt (fun _ => .none) fun v => ((match v.rows .order o with
      | some r => .ret r
      | none => .throw .recordNotFound : Transaction Order) >>= batchRead env o) >>= f := by
  refine congrArg (Tx.stmt _) ?_
  funext v
  beta_reduce
  cases v.rows .order o <;> rfl

theorem batchRead_eq {env : Env} {f : BatchOutcome → Transaction Proc} : batchRead env o r >>= f =
    .stmt (fun _ => ⟨.none,[.key .batchLock],fun _ _ written => absurd rfl written⟩) fun _ => batchLocked env o r >>= f :=
  rfl

theorem claimBody_eq {env : Env} : claimBody env o c orderType =
    .stmt (fun v => Tx.updatesEffect v .order (readyable o) (readied orderType v.clock) []) fun v =>
      (if (v.matching .order (readyable o)).length = 0 then
        .throw (.conflict "Order was already marked ready or cannot be marked ready") else batchClaimed env o) >>=
          fun outcome => return batched c o outcome := rfl

def untouched : Versions Row := fun _ _ => none

def claimedVersion (o : Nat) (r : Order) : Versions Row :=
  Function.update untouched .order (Function.update (fun _ => none) o (some (some r)))

theorem claim_locks {v : Database} (found : v.rows .order o = some r) (hit : r.status ∈ READYABLE_STATUSES) :
    (Tx.locksOf v .order (readyable o) ++ [] : List (Lock Tab Key)) = [.row .order o] := by
  have key : ∀ i (r : Row Tab.order), readyable o i r = true → i = o := by
    intro i r member
    simp only [readyable,decide_eq_true_eq] at member
    exact member.1
  have only : v.matching .order (readyable o) = [(o,r)] := v.matching_key key found (by simp [readyable,hit])
  simp only [Tx.locksOf,only,List.map_cons,List.map_nil,List.append_nil]

theorem claim_versions {v : Database} (found : v.rows .order o = some r) (hit : r.status ∈ READYABLE_STATUSES) :
    overlaid untouched (v.updates .order (readyable o) f).rows = claimedVersion o (f r) := by
  funext t
  by_cases same : t = .order
  · subst t
    funext i
    simp only [overlaid,untouched,claimedVersion,Function.update_self,Option.or_none,Db.updates_rows]
    by_cases own : i = o
    · subst i
      rw [found,Function.update_self]
      simp [readyable,hit]
    · rw [Function.update_of_ne own]
      cases v.rows .order i <;> simp [readyable,own]
  · funext i
    simp only [overlaid,claimedVersion,Function.update_of_ne same,Db.updates_other _ same]
    rfl

theorem refused_versions {v : Database} (none : (v.matching .order (readyable o)).length = 0) :
    overlaid untouched (v.updates .order (readyable o) f).rows = untouched ∧
      (Tx.locksOf v .order (readyable o) ++ [] : List (Lock Tab Key)) = [] := by
  have refused := matching_empty none
  constructor
  · funext t
    by_cases same : t = .order
    · subst t
      funext i
      simp only [overlaid,untouched,Option.or_none,Db.updates_rows]
      cases found : v.rows .order i with
      | none => rfl
      | some r => simp [refused i r found]
    · funext i
      simp only [overlaid,Db.updates_other _ same]
      rfl
  · simp only [Tx.locksOf,List.length_eq_zero_iff.mp none,List.map_nil,List.append_nil]

-- Where a call for order `o` by user `u` can be when nobody disturbs it. Before it
-- has the advisory lock it has read only what stands, and the row it has locked.
inductive Calling (env : Env) (db : Database) (rows : Rows Row) (o u : Nat) : Stage Row Key Err Proc → Prop where
  | asked : Calling env db rows o u (.idle (.vendorMarkReady o u))
  | vendorRead : Calling env db rows o u (.idle (.readReadyOrder o (shopOf db u)))
  | refused (answer : Proc.readyOrder db o (shopOf db u) = .returned (.thrown e)) :
      Calling env db rows o u (.idle (.returned (.thrown e)))
  | orderRead (legit : Legit db o u c orderType) : Calling env db rows o u (.idle (.claimReady o c orderType))
  | begun (legit : Legit db o u c orderType) :
      Calling env db rows o u (.busy (.claimReady o c orderType) (claimBody env o c orderType) untouched [])
  | late (legit : Legit db o u c orderType) (decided : ∀ r, rows .order o = some r → r.status ∉ READYABLE_STATUSES) :
      Calling env db rows o u (.busy (.claimReady o c orderType)
        (.throw (.conflict "Order was already marked ready or cannot be marked ready")) untouched [])
  | conflict (legit : Legit db o u c orderType) (decided : ∀ r, rows .order o = some r → r.status ∉ READYABLE_STATUSES) :
      Calling env db rows o u
        (.idle (.returned (.thrown (.conflict "Order was already marked ready or cannot be marked ready"))))
  | claimed (legit : Legit db o u c orderType) (found : rows .order o = some r) (hit : r.status ∈ READYABLE_STATUSES) :
      Calling env db rows o u (.busy (.claimReady o c orderType)
        (batchClaimed env o >>= fun outcome => return batched c o outcome)
        (claimedVersion o (readied orderType now r)) [.row .order o])
  | reread (legit : Legit db o u c orderType) (found : rows .order o = some r) (hit : r.status ∈ READYABLE_STATUSES) :
      Calling env db rows o u (.busy (.claimReady o c orderType)
        (batchRead env o (readied orderType now r) >>= fun outcome => return batched c o outcome)
        (claimedVersion o (readied orderType now r)) [.row .order o])
  | locked (legit : Legit db o u c orderType) (own : .row .order o ∈ h) (held : .key .batchLock ∈ h)
      (sure : prog.Unfailing (shown w rows)) :
      Calling env db rows o u (.busy (.claimReady o c orderType) prog w h)

theorem unfailing_batchLocked {env : Env} {rows : Rows Row} (found : (rows .order o).isSome = true) :
    (batchLocked env o r).Unfailing rows := by
  refine Tx.unfailing_bind ?_ fun _ _ _ => Tx.unfailing_bind unfailing_recordEvent fun _ _ _ => trivial
  refine Tx.unfailing_bind (fun _ _ => trivial) ?_
  intro pending second selected
  obtain ⟨u,seen,at_pending,still⟩ := Tx.ends_select selected
  refine Tx.unfailing_bind (fun _ _ => trivial) ?_
  intro batches third selected
  obtain ⟨v,_,at_batches,again,_⟩ := Tx.ends_selectLocking selected
  rw [again,still,at_batches,at_pending]
  refine unfailing_assignToBatchLoop _ ?_ found
  intro batch member
  obtain ⟨b,listed,same⟩ := List.mem_map.mp member
  obtain ⟨at_batch,_⟩ := mem_pendingBatches.mp listed
  rw [← same,← seen,at_batch]
  rfl

theorem alone_calling {env : Env} {rows : Rows Row} (standing : Standing db rows)
    (alone : Alone (market env) may rows (.vendorMarkReady o u) st) : Calling env db rows o u st := by
  induction alone with
  | start => exact .asked
  | query before goes at_query shows ih =>
    subst shows
    cases ih with
    | asked =>
      cases at_query
      show Calling env db _ o u (.idle (.readReadyOrder o (shopOf _ u)))
      rw [shopOf_standing standing]
      exact .vendorRead
    | vendorRead =>
      cases at_query
      beta_reduce
      rw [readyOrder_standing standing]
      rcases readyOrder_parts db o (shopOf db u) with ⟨e,answer⟩ | ⟨c,orderType,legit⟩
      · rw [answer]
        exact .refused answer
      · rw [legit]
        exact .orderRead legit
    | orderRead => cases at_query
    | refused | conflict => cases at_query
  | input before goes at_input ih => cases ih <;> cases at_input
  | add before goes at_add ih => cases ih <;> cases at_add
  | emit before goes at_emit ih => cases ih <;> cases at_emit
  | opens before goes at_tx ih =>
    cases ih with
    | orderRead legit => cases at_tx; exact .begun legit
    | _ => cases at_tx
  | stmt before shows sees ih =>
    rename_i v
    generalize at_stage : Stage.busy _ _ _ _ = stage at ih
    cases ih with
    | begun legit =>
      rename_i c orderType
      rw [claimBody_eq] at at_stage
      cases at_stage
      have seen : v.rows = rows := shows
      show Calling env db rows o u (.busy _ ((if (v.matching .order (readyable o)).length = 0 then _ else _) >>= _)
        (overlaid untouched (v.updates .order (readyable o) (readied orderType v.clock)).rows)
        (Tx.locksOf v .order (readyable o) ++ []))
      by_cases none : (v.matching .order (readyable o)).length = 0
      · obtain ⟨versions,locks⟩ := refused_versions (f := readied orderType v.clock) none
        rw [if_pos none,versions,locks]
        refine .late legit ?_
        intro r found hit
        have refused := matching_empty none o r (by rw [seen]; exact found)
        simp [readyable,hit] at refused
      · obtain ⟨i,r,found,hit⟩ := matching_length none
        obtain ⟨same,readyable⟩ : i = o ∧ r.status ∈ READYABLE_STATUSES := by simpa [readyable] using hit
        subst same
        rw [if_neg none,claim_versions found readyable,claim_locks found readyable]
        exact .claimed legit (by rw [← seen]; exact found) readyable
    | claimed legit found hit =>
      rename_i c orderType r now
      rw [batchClaimed_eq] at at_stage
      cases at_stage
      have own : v.rows .order o = some (readied orderType now r) := by
        rw [shows]
        simp only [shown,claimedVersion,Function.update_self,Option.getD_some]
      beta_reduce
      rw [own]
      exact .reread legit found hit
    | reread legit found hit =>
      rename_i c orderType r now
      rw [batchRead_eq] at at_stage
      cases at_stage
      refine .locked legit (List.mem_append_left _ List.mem_cons_self) (List.mem_append_right _ (List.mem_singleton.mpr rfl)) ?_
      refine Tx.unfailing_bind (unfailing_batchLocked ?_) fun _ _ _ => trivial
      simp [shown,overlaid,claimedVersion,Writes.none]
    | locked legit own held sure =>
      cases at_stage
      refine .locked legit (List.mem_append_left _ own) (List.mem_append_left _ held) ?_
      rw [shown_overlaid,← shows]
      exact sure _ shows
    | _ => cases at_stage
  | throws before ih =>
    generalize at_stage : Stage.busy _ _ _ _ = stage at ih
    cases ih with
    | late legit decided => cases at_stage; exact .conflict legit decided
    | locked legit own held sure => cases at_stage; exact sure.elim
    | _ => cases at_stage

-- The runs of calls in which no batch is closed: one that comes to close a batch goes
-- no further. `seen` is what is known of a batch that a call for an order joins.
structure Batches (may : Conduct Row Key Proc) (seen : Nat → Database → Nat → Prop) : Prop where
  closing : ¬may.goes (.closeBatch b caller)
  goes : (∀ b caller, x ≠ .closeBatch b caller) → may.goes x
  sees : (∀ b, .key (.joins b) ∉ effect.locks) → may.sees x effect v
  joins : may.sees (.claimReady o c orderType) effect v → .key (.joins b) ∈ effect.locks → seen o v b

section Calls
variable {may : Conduct Row Key Proc} {seen : Nat → Database → Nat → Prop}

theorem alone_claims {env : Env} {rows : Rows Row} {v : Database}
    (begun : Alone (market env) may rows x (.busy y (claimBody env o c orderType) untouched [])) (shows : v.rows = rows)
    (seen : ∀ {effect}, (∀ b, .key (.joins b) ∉ effect.locks) → may.sees y effect v) :
    Alone (market env) may rows x (.busy y
      ((if (v.matching .order (readyable o)).length = 0 then
        .throw (.conflict "Order was already marked ready or cannot be marked ready") else batchClaimed env o) >>=
          fun outcome => return batched c o outcome)
      (overlaid untouched (v.updates .order (readyable o) (readied orderType v.clock)).rows)
      (Tx.locksOf v .order (readyable o) ++ [])) := by
  rw [claimBody_eq] at begun
  refine .stmt begun shows (seen ?_)
  intro b member
  rw [show (Tx.updatesEffect v .order (readyable o) (readied orderType v.clock) []).locks = _ from List.append_nil _] at member
  obtain ⟨entry,_,same⟩ := List.mem_map.mp member
  cases same

-- A call that has not locked the batches would have come to the same stage on the
-- rows there are now.
theorem alone_of_calling {env : Env} {v : Database} (conduct : Batches may seen) (standing : Standing db v.rows) (calling : Calling env db v.rows o u st)
    (unlocked : .key .batchLock ∉ st.held) : Alone (market env) may v.rows (.vendorMarkReady o u) st := by
  have asked : Alone (market env) may v.rows (.vendorMarkReady o u) (.idle (.vendorMarkReady o u)) := .start
  have vendorRead : Alone (market env) may v.rows (.vendorMarkReady o u) (.idle (.readReadyOrder o (shopOf db u))) := by
    rw [← shopOf_standing standing]
    exact .query asked (conduct.goes nofun) rfl rfl
  have orderRead : Alone (market env) may v.rows (.vendorMarkReady o u)
      (.idle (Proc.readyOrder db o (shopOf db u))) := by
    rw [← readyOrder_standing standing]
    exact .query vendorRead (conduct.goes nofun) rfl rfl
  have begun : ∀ {c orderType}, Legit db o u c orderType → Alone (market env) may v.rows (.vendorMarkReady o u)
      (.busy (.claimReady o c orderType) (claimBody env o c orderType) untouched []) := by
    intro c orderType legit
    rw [legit] at orderRead
    exact .opens orderRead (conduct.goes nofun) rfl
  have late : ∀ {c orderType}, Legit db o u c orderType →
      (∀ r, v.rows .order o = some r → r.status ∉ READYABLE_STATUSES) → Alone (market env) may v.rows (.vendorMarkReady o u)
        (.busy (.claimReady o c orderType)
          (.throw (.conflict "Order was already marked ready or cannot be marked ready")) untouched []) := by
    intro c orderType legit decided
    have none : (v.matching .order (readyable o)).length = 0 := by
      rw [List.length_eq_zero_iff,Db.matching_nil]
      intro i r found
      rw [readyable,decide_eq_false_iff_not]
      intro ⟨same,hit⟩
      subst same
      exact decided r found hit
    have step := alone_claims (begun legit) rfl conduct.sees
    obtain ⟨versions,locks⟩ := refused_versions (f := readied orderType v.clock) none
    rw [if_pos none,versions,locks] at step
    exact step
  have claimed : ∀ {c orderType r} now, Legit db o u c orderType → v.rows .order o = some r → r.status ∈ READYABLE_STATUSES →
      Alone (market env) may v.rows (.vendorMarkReady o u) (.busy (.claimReady o c orderType)
        (batchClaimed env o >>= fun outcome => return batched c o outcome)
        (claimedVersion o (readied orderType now r)) [.row .order o]) := by
    intro c orderType r now legit found hit
    have step := alone_claims (v := v.dated now) (begun legit) rfl conduct.sees
    have some : ((v.dated now).matching .order (readyable o)).length ≠ 0 := by
      intro none
      have refused := matching_empty none o r found
      simp [readyable,hit] at refused
    rw [if_neg some,claim_versions (v := v.dated now) found hit,claim_locks (v := v.dated now) found hit] at step
    exact step
  cases calling with
  | asked => exact asked
  | vendorRead => exact vendorRead
  | refused answer =>
    rw [answer] at orderRead
    exact orderRead
  | orderRead legit =>
    rw [legit] at orderRead
    exact orderRead
  | begun legit => exact begun legit
  | late legit decided => exact late legit decided
  | conflict legit decided => exact .throws (late legit decided)
  | claimed legit found hit => exact claimed _ legit found hit
  | reread legit found hit =>
    rename_i c orderType r now
    have before := claimed now legit found hit
    rw [batchClaimed_eq] at before
    have shows : (v.apply (v.updates .order (readyable o) (readied orderType now))).rows =
        shown (claimedVersion o (readied orderType now r)) v.rows := by
      rw [← claim_versions found hit,shown_overlaid]
      rfl
    have step := Alone.stmt before shows (conduct.sees nofun)
    have own : (v.apply (v.updates .order (readyable o) (readied orderType now))).rows .order o =
        some (readied orderType now r) := by
      rw [shows]
      simp only [shown,claimedVersion,Function.update_self,Option.getD_some]
    beta_reduce at step
    rw [own] at step
    exact step
  | locked legit own held sure => exact absurd held unlocked

-- Where a call can be after its commit.
inductive Afterwards (o : Nat) : Proc → Prop where
  | schedule : Afterwards o (.scheduleBatchTimeout outcome c o)
  | close : Afterwards o (.closeBatch b (.markReady c o))
  | notify : Afterwards o (.notifyReady c o)
  | served : Afterwards o (.returned (.order o))

theorem afterBatching_afterwards (outcome : BatchOutcome) (c o : Nat) : Afterwards o (.afterBatching outcome c o) := by
  unfold Proc.afterBatching
  split
  · exact .close
  · exact .notify

theorem batched_afterwards (c o : Nat) (outcome : BatchOutcome) : Afterwards o (batched c o outcome) := by
  unfold batched
  split
  · exact .schedule
  · exact afterBatching_afterwards outcome c o

theorem alone_afterwards {env : Env} {rows : Rows Row} (conduct : Batches may seen) (after : Afterwards o x)
    (alone : Alone (market env) may rows x st) :
    ∃ y, st = .idle y ∧ Afterwards o y ∧ ∀ rows', Alone (market env) may rows' x (.idle y) := by
  induction alone with
  | start => exact ⟨x,rfl,after,fun _ => .start⟩
  | query before goes at_query shows ih =>
    obtain ⟨y,same,onward,_⟩ := ih
    cases same
    cases onward with
    | close => exact absurd goes conduct.closing
    | _ => cases at_query
  | input before goes at_input ih =>
    obtain ⟨y,same,onward,_⟩ := ih
    cases same
    cases onward <;> cases at_input
  | add before goes at_add ih =>
    obtain ⟨y,same,onward,again⟩ := ih
    cases same
    cases onward with
    | schedule =>
      cases at_add
      exact ⟨_,rfl,afterBatching_afterwards _ _ _,fun rows' => .add (again rows') goes rfl⟩
    | _ => cases at_add
  | emit before goes at_emit ih =>
    obtain ⟨y,same,onward,again⟩ := ih
    cases same
    cases onward with
    | notify =>
      cases at_emit
      exact ⟨_,rfl,.served,fun rows' => .emit (again rows') goes rfl⟩
    | _ => cases at_emit
  | opens before goes at_tx ih =>
    obtain ⟨y,same,onward,_⟩ := ih
    cases same
    cases onward with
    | close => exact absurd goes conduct.closing
    | _ => cases at_tx
  | stmt before shows _ ih =>
    obtain ⟨y,same,_⟩ := ih
    cases same
  | throws before ih =>
    obtain ⟨y,same,_⟩ := ih
    cases same

theorem call_commits {env : Env} {rows : Rows Row} (conduct : Batches may seen) (standing : Standing db rows)
    (alone : Alone (market env) may rows (.vendorMarkReady o u) (.busy y (.ret z) w h)) :
    ∃ c orderType b, Legit db o u c orderType ∧ Places env (seen o) rows o orderType b (shown w rows) ∧ Afterwards o z ∧
      .row .order o ∈ h ∧ .key .batchLock ∈ h := by
  obtain ⟨body,_,_,at_tx,ended⟩ := alone_commit alone
  have calling := alone_calling standing alone
  generalize at_stage : Stage.busy _ _ _ _ = stage at calling
  cases calling with
  | locked legit own held sure =>
    cases at_stage
    cases at_tx
    obtain ⟨outcome,middle,first,last⟩ := Tx.ends_bind.mp ended
    obtain ⟨at_end,still⟩ := Tx.ends_ret.mp last
    rw [at_end,still]
    exact ⟨_,_,outcome.batchId,legit,ends_vendorMarkReadyTx (fun _ _ _ sees => conduct.joins sees) first,batched_afterwards _ _ _,own,held⟩
  | begun legit => rw [claimBody_eq] at at_stage; cases at_stage
  | claimed legit found hit => rw [batchClaimed_eq] at at_stage; cases at_stage
  | reread legit found hit => rw [batchRead_eq] at at_stage; cases at_stage
  | _ => cases at_stage

-- The commit of another call leaves a call where it is that has not locked the batches.
theorem calling_kept {env : Env} {rows rows' : Rows Row} (calling : Calling env db rows o u st)
    (places : Places env known rows o' orderType b rows') (apart : .row .order o' ∉ st.held)
    (unlocked : .key .batchLock ∉ st.held) : Calling env db rows' o u st := by
  obtain ⟨r,now,found,hit,order,_⟩ := places.order
  have decided : (∀ r, rows .order o = some r → r.status ∉ READYABLE_STATUSES) →
      ∀ r, rows' .order o = some r → r.status ∉ READYABLE_STATUSES := by
    intro before r' after
    rw [order] at after
    by_cases same : o = o'
    · subst same
      exact absurd hit (before r found)
    · rw [Function.update_of_ne same] at after
      exact before r' after
  have kept : o' ≠ o → ∀ {r}, rows .order o = some r → rows' .order o = some r := by
    intro other r before
    rw [order,Function.update_of_ne (Ne.symm other)]
    exact before
  have other : .row .order o ∈ st.held → o' ≠ o := by
    intro member same
    subst same
    exact apart member
  cases calling with
  | asked => exact .asked
  | vendorRead => exact .vendorRead
  | refused answer => exact .refused answer
  | orderRead legit => exact .orderRead legit
  | begun legit => exact .begun legit
  | late legit before => exact .late legit (decided before)
  | conflict legit before => exact .conflict legit (decided before)
  | claimed legit before hit => exact .claimed legit (kept (other List.mem_cons_self) before) hit
  | reread legit before hit => exact .reread legit (kept (other List.mem_cons_self) before) hit
  | locked legit own held sure => exact absurd held unlocked

def readyCall (request : Nat → Nat × Nat) (p : Nat) : Proc := .vendorMarkReady (request p).1 (request p).2

theorem calls_restart (env : Env) (db : Database) (request : Nat → Nat × Nat) (conduct : Batches may seen) :
    (market env).Restarts may (fun p x => x = readyCall request p) (fun p x => Afterwards (request p).1 x)
      (Standing db) where
  restart v v' after standing works others alone commits apart := by
    rcases others with called | afterwards
    · subst called
      obtain ⟨c,orderType,b,_,places,_,own,held⟩ := call_commits conduct standing commits
      rw [← after] at places
      rcases works with called | afterwards
      · subst called
        have calling := calling_kept (alone_calling standing alone) places (fun member => apart _ member own)
          fun member => apart _ member held
        exact alone_of_calling conduct (standing_places standing places) calling fun member => apart _ member held
      · obtain ⟨y,same,_,again⟩ := alone_afterwards conduct afterwards alone
        subst same
        exact again v'.rows
    · obtain ⟨y,same,_⟩ := alone_afterwards conduct afterwards commits
      cases same
  commit v v' after standing works commits := by
    rcases works with called | afterwards
    · subst called
      obtain ⟨c,orderType,b,_,places,onward,_,_⟩ := call_commits conduct standing commits
      rw [← after] at places
      exact ⟨standing_places standing places,onward⟩
    · obtain ⟨y,same,_⟩ := alone_afterwards conduct afterwards commits
      cases same

end Calls

end MesyafMarket
