import Mathlib.Algebra.Order.Field.Basic
import Mathlib.Data.List.Pairwise
import Mathlib.Tactic.Linarith
import MesyafMarket.SerialBatching
import MesyafMarket.StuckBatches

namespace MesyafMarket
open Relational OrderService DelivererAssignmentService

section Travel
variable {K : Type} [Field K] [LinearOrder K] (calcDistanceKm : Point → Point → K)

-- Minutes from a point through the others, at the speed of estimateDelay.
def travelTime : Point → List Point → K
  | _,[] => 0
  | p,q::rest => calcDistanceKm p q/(30/60)+travelTime q rest

variable {calcDistanceKm} in
theorem travelTime_cons {p q : Point} {rest : List Point} : travelTime calcDistanceKm p (q::rest) =
    calcDistanceKm p q/(30/60)+travelTime calcDistanceKm q rest := rfl

def customerPoint (o : Order) : Point := ⟨o.customerLat.getD 0,o.customerLng.getD 0⟩

def stopPoint (d : DeliveryDropOff) : Point := ⟨d.dropoffLat.getD 0,d.dropoffLng.getD 0⟩

def Located (o : Order) : Prop :=
  o.vendorLat.isSome ∧ o.vendorLng.isSome ∧ o.customerLat.isSome ∧ o.customerLng.isSome

instance : Decidable (Located o) := inferInstanceAs (Decidable (_ ∧ _ ∧ _ ∧ _))

-- Drop-offs 0 to k of a job, in sequence order.
def Route (v : Database) (jobId : Nat) (route : List DeliveryDropOff) : Prop :=
  ∀ k d, route[k]? = some d → d.jobId = jobId ∧ d.sequence = k ∧ ∃ i, v.rows .deliveryDropOff i = some d

-- No stop of the job is reached later than `most` minutes after a direct trip.
def KeepsDelay (most : K) (v : Database) (jobId : Nat) : Prop :=
  ∀ route d o, Route v jobId (route ++ [d]) → v.rows .order d.orderId = some o →
    travelTime calcDistanceKm (vendorPoint o) ((route ++ [d]).map stopPoint)-
      travelTime calcDistanceKm (vendorPoint o) [stopPoint d] ≤ most

theorem routeTo_located (located : Located o) (route : K × Point) :
    routeTo calcDistanceKm (30/60) route o =
      (route.1+calcDistanceKm route.2 (customerPoint o)/(30/60),customerPoint o) := by
  obtain ⟨_,_,lat,lng⟩ := located
  obtain ⟨x,at_lat⟩ := Option.isSome_iff_exists.mp lat
  obtain ⟨y,at_lng⟩ := Option.isSome_iff_exists.mp lng
  simp only [routeTo,customerPoint,at_lat,at_lng,Option.getD_some]

theorem foldl_routeTo (orders : List Order) (located : ∀ o ∈ orders, Located o) (start : Point) (sofar : K) (last : Point) :
    let route := orders.foldl (routeTo calcDistanceKm (30/60)) (sofar,start)
    route.1+calcDistanceKm route.2 last/(30/60) =
      sofar+travelTime calcDistanceKm start (orders.map customerPoint ++ [last]) := by
  induction orders generalizing start sofar with
  | nil =>
    have arrived : travelTime calcDistanceKm last [] = 0 := rfl
    rw [List.map_nil,List.nil_append,travelTime_cons,arrived,add_zero,List.foldl_nil]
  | cons o rest ih =>
    have first := routeTo_located calcDistanceKm (located o List.mem_cons_self) (sofar,start)
    have others := ih (fun o member => located o (List.mem_cons_of_mem _ member)) (customerPoint o)
      (sofar+calcDistanceKm start (customerPoint o)/(30/60))
    simp only [List.foldl_cons,first,others,List.map_cons,List.cons_append,travelTime_cons]
    rw [add_assoc]

-- The estimate is the detour of a route that the order ends.
theorem estimateDelay_route (order : Order) (orders : List Order) (located : Located order)
    (others : ∀ o ∈ orders, Located o) : estimateDelay calcDistanceKm order orders 30 =
      travelTime calcDistanceKm (vendorPoint order) (orders.map customerPoint ++ [customerPoint order])-
        travelTime calcDistanceKm (vendorPoint order) [customerPoint order] := by
  obtain ⟨vendorLat,vendorLng,customerLat,customerLng⟩ := located
  obtain ⟨x,at_x⟩ := Option.isSome_iff_exists.mp vendorLat
  obtain ⟨y,at_y⟩ := Option.isSome_iff_exists.mp vendorLng
  obtain ⟨p,at_p⟩ := Option.isSome_iff_exists.mp customerLat
  obtain ⟨q,at_q⟩ := Option.isSome_iff_exists.mp customerLng
  have whole := foldl_routeTo calcDistanceKm orders others (vendorPoint order) 0 (customerPoint order)
  simp only [vendorPoint,customerPoint,at_x,at_y,at_p,at_q,Option.getD_some] at whole ⊢
  simp only [estimateDelay,at_x,at_y,at_p,at_q]
  have arrived : travelTime calcDistanceKm ⟨p,q⟩ [] = 0 := rfl
  rw [whole,zero_add,travelTime_cons,arrived,add_zero]

theorem estimateDelay_joined (order : Order) (orders : List Order) :
    estimateDelay calcDistanceKm (joined b order) orders 30 = estimateDelay calcDistanceKm order orders 30 := rfl

end Travel

def Sooner (a b : Order) : Prop := ∃ x y, a.readyAt = some x ∧ b.readyAt = some y ∧ x < y

def sooner (a b : Order) : Bool := match a.readyAt,b.readyAt with
  | some x,some y => x < y
  | _,_ => false

theorem sooner_parts (checked : sooner a b = true) : Sooner a b := by
  unfold sooner at checked
  split at checked
  · rename_i x y at_x at_y
    exact ⟨x,y,at_x,at_y,of_decide_eq_true checked⟩
  · cases checked

theorem sooner_irrefl : ¬Sooner a a := by
  intro ⟨x,y,at_x,at_y,less⟩
  rw [at_x] at at_y
  cases at_y
  omega

-- The orders of the batch as they were read, and after them the order that joins,
-- stand by the time they became ready.
def InReadyOrder (env : Env) (o : Nat) (v : Database) (b : Nat) : Prop :=
  ∀ r, v.rows .order o = some r → ((ordersOf env v b).map Prod.snd ++ [r]).Pairwise Sooner

def joinsInReadyOrder (env : Env) : Proc → Effect Row Key → Database → Prop
  | .claimReady o _ _,effect,v => ∀ b, .key (.joins b) ∈ effect.locks → InReadyOrder env o v b
  | _,_,_ => True

theorem batches_inReadyOrder (env : Env) : Batches ⟨Unclosing,joinsInReadyOrder env⟩ (InReadyOrder env) where
  closing goes := goes _ _ rfl
  goes unclosing := unclosing
  sees {x effect v} apart := by
    cases x with
    | claimReady => exact fun b member => absurd member (apart b)
    | _ => trivial
  joins seen member := seen _ member

section Queue
variable {K : Type} [Field K] [LinearOrder K] {calcDistanceKm : Point → Point → K} {ALLOW_MULTI_VENDOR : Bool}
  {rules : CityRules K} {env : Env} {rows rows' : Rows Row}

-- The orders of batch `b` in the order in which they joined, each within the delay
-- that was estimated for it then.
structure Queued (calcDistanceKm : Point → Point → K) (most : K) (b : Nat) (rows : Rows Row) (line : List (Nat × Order)) :
    Prop where
  members : ∀ i r, (i,r) ∈ line ↔ rows .order i = some r ∧ r.deliveryBatchId = some b
  sooner : line.Pairwise fun x y => Sooner x.2 y.2
  within : ∀ front e back, line = front ++ e::back → front ≠ [] →
    estimateDelay calcDistanceKm e.2 (front.map Prod.snd) 30 ≤ most
  opened : rows .deliveryBatch b = none → line = []
  unready : ∀ i r, rows .order i = some r → r.status ∈ READYABLE_STATUSES → r.deliveryBatchId ≠ some b

theorem sooner_nodup {line : List (Nat × Order)} (sorted : line.Pairwise fun x y => Sooner x.2 y.2) : line.Nodup := by
  refine sorted.imp ?_
  intro x y sooner same
  subst same
  exact sooner_irrefl sooner

theorem mem_ordersOf {v : Database} : (i,r) ∈ ordersOf env v b ↔ v.rows .order i = some r ∧ r.deliveryBatchId = some b := by
  unfold ordersOf
  rw [(env.scan_perm v _).mem_iff,Db.mem_matching,decide_eq_true_eq]

-- Two listings of the same orders by the time they became ready are the same.
theorem sooner_unique {one two : List (Nat × Order)} (same : ∀ e, e ∈ one ↔ e ∈ two)
    (first : one.Pairwise fun x y => Sooner x.2 y.2) (second : two.Pairwise fun x y => Sooner x.2 y.2) : one = two := by
  refine List.Perm.eq_of_pairwise ?_ first second
    ((List.perm_ext_iff_of_nodup (sooner_nodup first) (sooner_nodup second)).mpr same)
  intro x y _ _ ⟨a,c,at_a,at_c,less⟩ ⟨d,e,at_d,at_e,more⟩
  rw [at_a] at at_e
  rw [at_c] at at_d
  cases at_d
  cases at_e
  omega

theorem eligible_delay {orders : List Order}
    (eligible : OrderService.checkBatchEligibility calcDistanceKm ALLOW_MULTI_VENDOR rules order orders = true)
    (some : orders ≠ []) : estimateDelay calcDistanceKm (joined b order) orders 30 ≤ rules.MAX_DELAY_THRESHOLD := by
  rw [estimateDelay_joined]
  cases orders with
  | nil => exact absurd rfl some
  | cons first others =>
    unfold OrderService.checkBatchEligibility at eligible
    dsimp only at eligible
    generalize (if order.orderType = .food then FOOD_MAX_BATCH else GROCERY_MAX_BATCH) = max at eligible
    split at eligible
    · cases eligible
    split at eligible
    · cases eligible
    split at eligible
    · cases eligible
    split at eligible
    · cases eligible
    rename_i within
    exact not_lt.mp within

theorem mem_placed {r : Order} (found : rows .order o = some r) (apart : r.deliveryBatchId ≠ some b)
    (order : rows' .order = Function.update (rows .order) o (some (joined b' (readied orderType now r)))) :
    (rows' .order i = some r' ∧ r'.deliveryBatchId = some b) ↔
      (rows .order i = some r' ∧ r'.deliveryBatchId = some b) ∨
        (b' = b ∧ i = o ∧ r' = joined b (readied orderType now r)) := by
  rw [order]
  constructor
  · intro ⟨after,part⟩
    rcases update_some after with ⟨same,row⟩ | ⟨_,before⟩
    · subst row
      cases part
      exact .inr ⟨rfl,same,rfl⟩
    · exact .inl ⟨before,part⟩
  · rintro (⟨before,part⟩ | ⟨same,here,row⟩)
    · have other : i ≠ o := by
        intro same
        subst same
        rw [found] at before
        cases before
        exact apart part
      exact ⟨by rw [Function.update_of_ne other]; exact before,part⟩
    · subst same here row
      exact ⟨Function.update_self ..,rfl⟩

theorem line_cut {line front back : List (Nat × Order)} (cut : line ++ [x] = front ++ e::back) :
    (front = line ∧ e = x) ∨ ∃ back', line = front ++ e::back' := by
  rcases List.eq_nil_or_concat back with none | ⟨back',last,some⟩
  · subst none
    obtain ⟨same,last⟩ := List.append_inj' cut rfl
    exact .inl ⟨same.symm,(List.cons.inj last).1.symm⟩
  · subst some
    rw [List.concat_eq_append,← List.cons_append,← List.append_assoc] at cut
    exact .inr ⟨back',(List.append_inj' cut rfl).1⟩

theorem places_queued {ready : Nat → Database → Nat → Prop}
    (inOrder : ∀ v b, ready o v b → InReadyOrder (env.configured calcDistanceKm ALLOW_MULTI_VENDOR rules) o v b)
    (queued : Queued calcDistanceKm rules.MAX_DELAY_THRESHOLD b rows line)
    (places : Places (env.configured calcDistanceKm ALLOW_MULTI_VENDOR rules) (ready o) rows o orderType b' rows') :
    ∃ line', Queued calcDistanceKm rules.MAX_DELAY_THRESHOLD b rows' line' := by
  obtain ⟨r,now,found,hit,order,v,shows,finds⟩ := places.order
  have apart := queued.unready o r found hit
  have batches : v.rows .deliveryBatch = rows .deliveryBatch := by
    rw [shows]
    exact Function.update_of_ne (by decide) ..
  have opened : rows' .deliveryBatch b = none → rows .deliveryBatch b = none := by
    intro none
    by_contra some
    obtain ⟨k,at_b⟩ := Option.ne_none_iff_exists'.mp some
    have kept := (finds_open finds).2 b k (by rw [batches]; exact at_b)
    rw [none] at kept
    cases kept
  have unready : ∀ i r', rows' .order i = some r' → r'.status ∈ READYABLE_STATUSES → r'.deliveryBatchId ≠ some b := by
    intro i r' after readyable part
    rcases (mem_placed found apart order).mp ⟨after,part⟩ with ⟨before,_⟩ | ⟨_,_,row⟩
    · exact queued.unready i r' before readyable part
    · have ready : r'.status = .readyForDelivery := by rw [row]; rfl
      rw [ready] at readyable
      exact absurd readyable (by decide)
  by_cases here : b' = b
  · subst here
    cases finds with
    | new refused fresh created =>
      have empty := queued.opened (by rw [← batches]; exact fresh)
      subst empty
      refine ⟨[(o,joined b' (readied orderType now r))],⟨?_,List.pairwise_singleton ..,?_,?_,unready⟩⟩
      · intro i r'
        rw [mem_placed found apart order,← queued.members i r']
        simp
      · intro front e back cut some
        have short := congrArg List.length cut
        simp only [List.length_append,List.length_cons,List.length_nil] at short
        exact absurd (List.eq_nil_of_length_eq_zero (by omega)) some
      · intro none
        rw [created,Function.update_self] at none
        cases none
    | oldest eligible first still known =>
      have ready := inOrder v b' known (readied orderType now r) (by
        rw [shows,Function.update_self,Function.update_self])
      obtain ⟨sorted,_,later⟩ := List.pairwise_append.mp ready
      have read : ordersOf (env.configured calcDistanceKm ALLOW_MULTI_VENDOR rules) v b' = line := by
        refine sooner_unique ?_ (List.pairwise_map.mp sorted) queued.sooner
        intro ⟨i,r'⟩
        rw [mem_ordersOf,queued.members,shows,Function.update_self]
        constructor
        · intro ⟨after,part⟩
          rcases update_some after with ⟨_,row⟩ | ⟨_,before⟩
          · subst row
            exact absurd part apart
          · exact ⟨before,part⟩
        · intro ⟨before,part⟩
          refine ⟨?_,part⟩
          rw [Function.update_of_ne]
          · exact before
          · intro same
            rw [same,found] at before
            cases before
            exact apart part
      rw [read] at later
      refine ⟨line ++ [(o,joined b' (readied orderType now r))],⟨?_,?_,?_,?_,unready⟩⟩
      · intro i r'
        rw [mem_placed found apart order,← queued.members i r']
        simp
      · refine List.pairwise_append.mpr ⟨queued.sooner,List.pairwise_singleton ..,?_⟩
        intro x earlier y last
        rw [List.mem_singleton.mp last]
        exact later x.2 (List.mem_map.mpr ⟨x,earlier,rfl⟩) (readied orderType now r) (List.mem_singleton.mpr rfl)
      · intro front e back cut some
        rcases line_cut cut with ⟨same,last⟩ | ⟨back',before⟩
        · subst same last
          have bound := eligible.2.2
          rw [read] at bound
          exact eligible_delay bound (by simpa using some)
        · exact queued.within front e back' before some
      · intro none
        rw [still,eligible.1] at none
        cases none
  · refine ⟨line,⟨?_,queued.sooner,queued.within,fun none => queued.opened (opened none),unready⟩⟩
    intro i r'
    rw [mem_placed found apart order,queued.members]
    simp [here]

theorem served_queued {ready : Nat → Database → Nat → Prop}
    (inOrder : ∀ o v b, ready o v b → InReadyOrder (env.configured calcDistanceKm ALLOW_MULTI_VENDOR rules) o v b)
    (served : Served (env.configured calcDistanceKm ALLOW_MULTI_VENDOR rules) may ready request start calls rows)
    (unopened : start .deliveryBatch b = none) (empty : ∀ i r, start .order i = some r → r.deliveryBatchId ≠ some b) :
    ∃ line, Queued calcDistanceKm rules.MAX_DELAY_THRESHOLD b rows line := by
  induction served with
  | nil =>
    refine ⟨[],⟨?_,.nil,?_,fun _ => rfl,fun i r found _ => empty i r found⟩⟩
    · intro i r
      exact ⟨nofun,fun ⟨found,part⟩ => absurd part (empty i r found)⟩
    · intro front e back cut
      exact absurd cut.symm (by simp)
  | snoc before alone places ih =>
    obtain ⟨line,queued⟩ := ih
    exact places_queued (inOrder _) queued places

-- The assignment sorts the orders by the time they became ready: into the line.
theorem batchOrders_queued {reading : Database} (queued : Queued calcDistanceKm most b rows line)
    (same : reading.rows .order = rows .order) : batchOrders env reading b = line := by
  have distinct : (batchOrders env reading b).Nodup := by
    unfold batchOrders ordersOf
    rw [(List.perm_insertionSort _ _).nodup_iff,(env.scan_perm reading _).nodup_iff]
    exact (List.Nodup.of_map Prod.fst (reading.all_keys_nodup .order)).filter _
  have apart : line.Pairwise fun x y => x.2.readyAt ≠ y.2.readyAt := by
    refine queued.sooner.imp ?_
    intro x y ⟨a,c,at_a,at_c,less⟩ same
    rw [at_a,at_c] at same
    cases same
    omega
  have sorted : line.Pairwise fun x y => readyBefore x y = true := by
    refine queued.sooner.imp ?_
    intro x y ⟨a,c,at_a,at_c,less⟩
    unfold readyBefore
    rw [at_a,at_c]
    exact decide_eq_true (Nat.le_of_lt less)
  have members : ∀ e, e ∈ batchOrders env reading b ↔ e ∈ line := by
    intro ⟨i,r⟩
    rw [mem_batchOrders,mem_members,queued.members,same]
  refine List.Perm.eq_of_pairwise ?_ (batchOrders_sorted env reading b) sorted
    ((List.perm_ext_iff_of_nodup distinct (sooner_nodup queued.sooner)).mpr members)
  intro x y listed member before after
  by_contra other
  have symm : Std.Symm fun x y : Nat × Order => x.2.readyAt ≠ y.2.readyAt := ⟨fun _ _ differ same => differ same.symm⟩
  exact apart.forall ((members x).mp listed) member other (readyBefore_antisymm before after)

end Queue

-- The batch is closed and then assigned, from what the calls have left.
def Dispatched (env : Env) (rows : Rows Row) (b j : Nat) (v : Database) : Prop :=
  ∃ (closing closed reading claiming : Database) (d : Nat),
    closing.rows = rows ∧ (closeBatchUpdate b).run closing = .ok (1,closed) ∧
    reading.rows = closed.rows ∧ claiming.rows = closed.rows ∧
    (assignTx b (batchOrders env reading b) d).run claiming = .ok (j,v)

-- The route of the job is the line of its batch.
structure Routed (rows : Rows Row) (line : List (Nat × Order)) (j : Nat) (v : Database) : Prop where
  stops : ∀ i d, v.rows .deliveryDropOff i = some d → d.jobId = j → (dropOffs j line)[d.sequence]? = some d
  orders : ∀ i o, v.rows .order i = some o → ∃ r, rows .order i = some r ∧ vendorPoint o = vendorPoint r

theorem dispatched_routed {K : Type} [Field K] [LinearOrder K] {calcDistanceKm : Point → Point → K} {most : K} {env : Env} {rows : Rows Row}
    (queued : Queued calcDistanceKm most b rows line) (dispatched : Dispatched env rows b j v) : Routed rows line j v := by
  obtain ⟨closing,closed,reading,claiming,d,start,closes,read,claims,assigns⟩ := dispatched
  have orders : closed.rows .order = rows .order := by
    rw [← start]
    rcases closeBatchUpdate_parts closes with ⟨none,_⟩ | ⟨_,k,_,_,after⟩
    · cases none
    · exact congrArg Dispatch.order after
  have listed : batchOrders env reading b = line := batchOrders_queued queued (by rw [read,orders])
  rw [listed] at assigns
  obtain ⟨k,p,base,_,_,_,_,_,_,_,_,_,after⟩ := assignTx_parts assigns
  have stops : v.rows .deliveryDropOff = inserted base (dropOffs j line)
      (removed (fun _ s => s.jobId = j) (claiming.rows .deliveryDropOff)) := congrArg Dispatch.stop after
  have handedOver : v.rows .order = rewritten (fun _ o => o.deliveryBatchId = some b) (handed d j) (rows .order) := by
    rw [← orders,← claims]
    exact congrArg Dispatch.order after
  constructor
  · intro i s found own
    rw [stops] at found
    unfold inserted at found
    split at found
    · obtain ⟨_,_,_,_,at_n,_⟩ := dropOffs_some found
      rw [at_n]
      exact found
    · have kept := (removed_some.mp found).2
      simp [own] at kept
  · intro i o found
    rw [handedOver] at found
    obtain ⟨r,before,row⟩ := rewritten_some found
    refine ⟨r,before,?_⟩
    rw [row]
    split <;> rfl

theorem dropOffs_points (j : Nat) (line : List (Nat × Order)) :
    (dropOffs j line).map (fun d => (d.orderId,stopPoint d)) = line.map fun e => (e.1,customerPoint e.2) := by
  apply List.ext_getElem?
  intro n
  simp only [dropOffs,List.getElem?_map,List.getElem?_mapIdx,Option.map_map]
  rfl

theorem route_cut {v : Database} (routed : Routed rows line j v) (route : Route v j (stops ++ [d])) :
    ∃ front e back, line = front ++ e::back ∧ stops.map stopPoint = front.map (fun e => customerPoint e.2) ∧
      stopPoint d = customerPoint e.2 ∧ d.orderId = e.1 := by
  have leading : (stops ++ [d]) <+: dropOffs j line := by
    rw [List.prefix_iff_getElem?]
    intro n short
    obtain ⟨own,at_n,i,found⟩ := route n _ (List.getElem?_eq_getElem short)
    have there := routed.stops i _ found own
    rw [at_n] at there
    exact there
  obtain ⟨rest,whole⟩ := leading
  have points := dropOffs_points j line
  rw [← whole,List.map_append,List.map_append,List.append_assoc] at points
  obtain ⟨front,others,cut,at_front,at_others⟩ := List.map_eq_append_iff.mp points.symm
  obtain ⟨e,back,at_cut,at_e,_⟩ := List.map_eq_cons_iff.mp at_others
  subst at_cut
  obtain ⟨own,place⟩ := Prod.mk.inj at_e
  refine ⟨front,e,back,cut,?_,place.symm,own.symm⟩
  have places := congrArg (List.map Prod.snd) at_front
  rw [List.map_map,List.map_map] at places
  exact places.symm

theorem routed_keeps {K : Type} [Field K] [LinearOrder K] {calcDistanceKm : Point → Point → K} {most : K} {rows : Rows Row}
    (queued : Queued calcDistanceKm most b rows line) (routed : Routed rows line j v) (positive : 0 ≤ most)
    (located : ∀ i r, rows .order i = some r → r.deliveryBatchId = some b → Located r) :
    KeepsDelay calcDistanceKm most v j := by
  intro stops d o route found
  obtain ⟨front,e,back,cut,places,last,own⟩ := route_cut routed route
  obtain ⟨r,before,start⟩ := routed.orders _ _ found
  have known : ∀ x ∈ line, Located x.2 := by
    intro ⟨i,r⟩ member
    obtain ⟨listed,part⟩ := (queued.members i r).mp member
    exact located i r listed part
  have member : e ∈ line := by rw [cut]; simp
  have same : r = e.2 := by
    have listed := ((queued.members e.1 e.2).mp member).1
    rw [← own,before] at listed
    exact Option.some.inj listed
  subst same
  rw [List.map_append,List.map_singleton,places,last,start]
  by_cases first : front = []
  · subst first
    simpa using positive
  · have bound := queued.within front e back cut first
    rw [estimateDelay_route calcDistanceKm e.2 (front.map Prod.snd) (known e member),List.map_map] at bound
    · exact bound
    · intro x earlier
      obtain ⟨y,listed,at_x⟩ := List.mem_map.mp earlier
      subst at_x
      exact known y (by rw [cut]; exact List.mem_append_left _ listed)

theorem rules_positive {K : Type} [Field K] [LinearOrder K] [IsStrictOrderedRing K] (CITY_TYPE : Option String) :
    (0 : K) ≤ (OrderService.rules (K := K) CITY_TYPE).MAX_DELAY_THRESHOLD := by
  unfold OrderService.rules CITY_RULES
  split
  all_goals simp

-- Batch `b` is opened by the calls of the run, which join every batch in the order
-- in which the orders became ready.
theorem delay_kept {K : Type} [Field K] [LinearOrder K] [IsStrictOrderedRing K] (env : Env)
    (calcDistanceKm : Point → Point → K) (ALLOW_MULTI_VENDOR : Bool) (CITY_TYPE : Option String) {request : Nat → Nat × Nat}
    {db v : Database} (moves : List MarketAct)
    (unopened : db.rows .deliveryBatch b = none) (empty : ∀ i r, db.rows .order i = some r → r.deliveryBatchId ≠ some b)
    (marks : ∀ made ∈ (Sessions.open db).trace
      (market (env.configured calcDistanceKm ALLOW_MULTI_VENDOR (OrderService.rules CITY_TYPE))) moves,
      MarksReady request made.1 made.2 = true)
    (inOrder : ∀ made ∈ (Sessions.open db).trace
      (market (env.configured calcDistanceKm ALLOW_MULTI_VENDOR (OrderService.rules CITY_TYPE))) moves,
      Seen (joinsInReadyOrder (env.configured calcDistanceKm ALLOW_MULTI_VENDOR (OrderService.rules CITY_TYPE))) made.1 made.2)
    (located : ∀ i r, ((Sessions.open db).run
      (market (env.configured calcDistanceKm ALLOW_MULTI_VENDOR (OrderService.rules CITY_TYPE))) moves).sys.db.rows .order i = some r →
      r.deliveryBatchId = some b → Located r)
    (dispatched : Dispatched (env.configured calcDistanceKm ALLOW_MULTI_VENDOR (OrderService.rules CITY_TYPE))
      ((Sessions.open db).run
        (market (env.configured calcDistanceKm ALLOW_MULTI_VENDOR (OrderService.rules CITY_TYPE))) moves).sys.db.rows b j v) :
    KeepsDelay calcDistanceKm (OrderService.rules CITY_TYPE).MAX_DELAY_THRESHOLD v j := by
  obtain ⟨served,_,_⟩ := served_run (env.configured calcDistanceKm ALLOW_MULTI_VENDOR (OrderService.rules CITY_TYPE)) db
    request (batches_inReadyOrder _) moves
    fun made member => marksReady_admits (marks made member) (inOrder made member)
  obtain ⟨line,queued⟩ := served_queued (fun _ _ _ known => known) served unopened empty
  exact routed_keeps queued (dispatched_routed queued dispatched) (rules_positive CITY_TYPE) located

def manhattan (a b : Point) : Rat := max (a.lat-b.lat) (b.lat-a.lat)+max (a.lng-b.lng) (b.lng-a.lng)

def outskirts : Env := village.configured manhattan false (OrderService.rules none)

-- The second customer lives two kilometres from the shop, the first one next to it.
def farOrder : Order := {acceptedOrder with customerLat := some 2}

def suburbRows (orders : List Order) : (t : Tab) → List (Row t)
  | .order => orders
  | t => villageRows t

def suburb (orders : List Order) : Database := (premises (suburbRows orders)).db

def delayRequest (p : Nat) : Nat × Nat := (p,1)

def inTurn : List MarketAct :=
  [.spawn (.vendorMarkReady 0 1)] ++ goesOn 0 20 ++ [.clock 7,.spawn (.vendorMarkReady 1 1)] ++ goesOn 1 20

-- The closing and the assignment of a batch, one after the other.
def sent (env : Env) (db : Database) (b d : Nat) : Option (Nat × Database) :=
  match (closeBatchUpdate b).run db with
  | .ok (1,closed) => ((assignTx b (batchOrders env closed b) d).run closed).toOption
  | _ => none

theorem sent_dispatched {env : Env} (done : sent env db b d = some (j,v)) : Dispatched env db.rows b j v := by
  unfold sent at done
  split at done
  · rename_i closed closes
    refine ⟨db,closed,closed,closed,d,rfl,closes,rfl,rfl,?_⟩
    cases assigns : (assignTx b (batchOrders env closed b) d).run closed with
    | error => rw [assigns] at done; cases done
    | ok after =>
      rw [assigns] at done
      cases done
      rfl
  · cases done

def seenInReadyOrder (env : Env) (s : MarketSessions) : MarketAct → Bool
  | .step p _ => match s.sys.threads p with
    | some (.busy (.claimReady o _ _) txn) => match txn.prog with
      | .stmt effect _ => (effect (s.sys.db.apply txn.writes)).locks.all fun l => match l with
        | .key (.joins b) => ((s.sys.db.apply txn.writes).rows .order o).all fun (r : Order) =>
          ((ordersOf env (s.sys.db.apply txn.writes) b).map Prod.snd ++ [r]).Pairwise fun x y => sooner x y = true
        | _ => true
      | _ => true
    | _ => true
  | _ => true

theorem seenInReadyOrder_parts {env : Env} {s : MarketSessions} (checked : seenInReadyOrder env s m = true) :
    Seen (joinsInReadyOrder env) s m := by
  cases m with
  | step p i =>
    intro x txn effect next found prog
    cases x with
    | claimReady o c orderType =>
      intro b member r at_order
      simp only [seenInReadyOrder,found,prog,List.all_eq_true] at checked
      have sorted := checked _ member
      simp only [at_order,Option.all_some,decide_eq_true_eq] at sorted
      exact sorted.imp sooner_parts
    | _ => trivial
  | _ => trivial

def suburban (orders : List Order) (moves : List MarketAct) : Database :=
  ((Sessions.open (suburb orders)).run (market outskirts) moves).sys.db

theorem delay_kept_suburb : ∃ v, Dispatched outskirts (suburban [acceptedOrder,farOrder] inTurn).rows 0 0 v ∧
    KeepsDelay manhattan (OrderService.rules none).MAX_DELAY_THRESHOLD v 0 := by
  have marks : (((Sessions.open (suburb [acceptedOrder,farOrder])).trace (market outskirts) inTurn).all fun made =>
      MarksReady delayRequest made.1 made.2 && seenInReadyOrder outskirts made.1 made.2) = true := by decide +kernel
  have known : ((suburban [acceptedOrder,farOrder] inTurn).all .order).all (fun entry => decide (Located entry.2)) = true := by
    decide +kernel
  have done : ((sent outskirts (suburban [acceptedOrder,farOrder] inTurn) 0 0).map Prod.fst) = some 0 := by decide +kernel
  obtain ⟨⟨j,v⟩,at_sent,at_job⟩ := Option.map_eq_some_iff.mp done
  cases at_job
  refine ⟨v,sent_dispatched at_sent,?_⟩
  refine @delay_kept 0 0 Rat _ _ _ village manhattan false none delayRequest _ v inTurn rfl ?_ ?_ ?_ ?_ (sent_dispatched at_sent)
  · intro i r found
    have member : r ∈ [acceptedOrder,farOrder] := List.mem_of_getElem? found
    simp only [List.mem_cons,List.not_mem_nil,or_false] at member
    rcases member with same | same
    all_goals rw [same]; decide
  · intro made member
    exact (Bool.and_eq_true_iff.mp (List.all_eq_true.mp marks made member)).1
  · intro made member
    exact seenInReadyOrder_parts (Bool.and_eq_true_iff.mp (List.all_eq_true.mp marks made member)).2
  · intro i r found _
    exact of_decide_eq_true (List.all_eq_true.mp known (i,r) ((Db.mem_all _).mpr found))

structure Metric {K : Type} [Field K] [LinearOrder K] (dist : Point → Point → K) : Prop where
  zero : dist a b = 0 ↔ a = b
  symm : dist a b = dist b a
  triangle : dist a c ≤ dist a b+dist b c

theorem metric_manhattan : Metric manhattan where
  zero {a b} := by
    obtain ⟨x,y⟩ := a
    obtain ⟨z,w⟩ := b
    simp only [manhattan,Point.mk.injEq]
    constructor
    · intro none
      have first := le_max_left (x-z) (z-x)
      have second := le_max_right (x-z) (z-x)
      have third := le_max_left (y-w) (w-y)
      have fourth := le_max_right (y-w) (w-y)
      constructor <;> linarith
    · rintro ⟨same,also⟩
      subst same also
      simp
  symm {a b} := by
    simp only [manhattan,max_comm]
  triangle {a c b} := by
    simp only [manhattan]
    have first := le_max_left (a.lat-b.lat) (b.lat-a.lat)
    have second := le_max_right (a.lat-b.lat) (b.lat-a.lat)
    have third := le_max_left (b.lat-c.lat) (c.lat-b.lat)
    have fourth := le_max_right (b.lat-c.lat) (c.lat-b.lat)
    have lats : max (a.lat-c.lat) (c.lat-a.lat) ≤
        max (a.lat-b.lat) (b.lat-a.lat)+max (b.lat-c.lat) (c.lat-b.lat) := max_le (by linarith) (by linarith)
    have fifth := le_max_left (a.lng-b.lng) (b.lng-a.lng)
    have sixth := le_max_right (a.lng-b.lng) (b.lng-a.lng)
    have seventh := le_max_left (b.lng-c.lng) (c.lng-b.lng)
    have eighth := le_max_right (b.lng-c.lng) (c.lng-b.lng)
    have lngs : max (a.lng-c.lng) (c.lng-a.lng) ≤
        max (a.lng-b.lng) (b.lng-a.lng)+max (b.lng-c.lng) (c.lng-b.lng) := max_le (by linarith) (by linarith)
    linarith

-- The far order is made ready first and locks the batches last: it ends the route
-- that it was estimated for, and starts the one that is driven.
theorem delay_kept_overtaken : Metric manhattan ∧
    (∀ made ∈ (Sessions.open (suburb [farOrder,acceptedOrder])).trace (market outskirts) rushMoves,
      MarksReady rushRequest made.1 made.2 = true) ∧
    (∀ i r, (suburban [farOrder,acceptedOrder] rushMoves).rows .order i = some r → Located r ∧ r.vendorId = 0) ∧
    ∃ v, Dispatched outskirts (suburban [farOrder,acceptedOrder] rushMoves).rows 0 0 v ∧
      ¬KeepsDelay manhattan (OrderService.rules none).MAX_DELAY_THRESHOLD v 0 := by
  have marks : (((Sessions.open (suburb [farOrder,acceptedOrder])).trace (market outskirts) rushMoves).all fun made =>
      MarksReady rushRequest made.1 made.2) = true := by decide +kernel
  have known : ((suburban [farOrder,acceptedOrder] rushMoves).all .order).all
      (fun entry => decide (Located entry.2 ∧ entry.2.vendorId = 0)) = true := by decide +kernel
  have done : ((sent outskirts (suburban [farOrder,acceptedOrder] rushMoves) 0 0).map fun r =>
      (r.1,r.2.rows .deliveryDropOff 0,r.2.rows .deliveryDropOff 1,(r.2.rows .order 1).map vendorPoint)) =
        some (0,some ⟨0,0,0,.pending,some 2,some 0,none⟩,some ⟨0,1,1,.pending,some 0,some 0,none⟩,some ⟨0,0⟩) := by
    decide +kernel
  refine ⟨metric_manhattan,List.all_eq_true.mp marks,?_,?_⟩
  · intro i r found
    exact of_decide_eq_true (List.all_eq_true.mp known (i,r) ((Db.mem_all _).mpr found))
  obtain ⟨⟨j,v⟩,at_sent,outcome⟩ := Option.map_eq_some_iff.mp done
  simp only [Prod.mk.injEq] at outcome
  obtain ⟨at_job,first,second,order⟩ := outcome
  subst at_job
  refine ⟨v,sent_dispatched at_sent,?_⟩
  intro keeps
  obtain ⟨o,at_order,start⟩ := Option.map_eq_some_iff.mp order
  have detour := keeps [⟨0,0,0,.pending,some 2,some 0,none⟩] ⟨0,1,1,.pending,some 0,some 0,none⟩ o ?_ at_order
  · rw [start] at detour
    revert detour
    decide +kernel
  · intro k d found
    match k,found with
    | 0,found => cases found; exact ⟨rfl,rfl,0,first⟩
    | 1,found => cases found; exact ⟨rfl,rfl,1,second⟩

end MesyafMarket
