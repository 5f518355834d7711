import MesyafMarket.Dispatch.Joins

namespace MesyafMarket
open Relational OrderService

structure Limited (db : Database) : Prop where
  food : ∀ b entry, entry ∈ members db b → entry.2.orderType = .food → (members db b).length ≤ FOOD_MAX_BATCH
  all : ∀ b, (members db b).length ≤ GROCERY_MAX_BATCH

section Joining
variable {K : Type} [Field K] [LinearOrder K] {calcDistanceKm : Point → Point → K} {ALLOW_MULTI_VENDOR : Bool}
  {rules : CityRules K} {env : Env}

theorem eligible_room (eligible : OrderService.checkBatchEligibility calcDistanceKm ALLOW_MULTI_VENDOR rules order
    orders = true) :
    orders.length+1 ≤ if order.orderType = .food then FOOD_MAX_BATCH else GROCERY_MAX_BATCH := by
  cases orders with
  | nil => split <;> decide
  | cons first others =>
    unfold OrderService.checkBatchEligibility at eligible
    dsimp only at eligible
    generalize (if order.orderType = .food then FOOD_MAX_BATCH else GROCERY_MAX_BATCH) = max at eligible ⊢
    split at eligible
    · cases eligible
    · split at eligible
      · cases eligible
      · omega

theorem openBatches_orders {env : Env} (member : batch ∈ openBatches env v) :
    (batch.2.2).Perm ((members v batch.1).map Prod.snd) := by
  unfold openBatches at member
  obtain ⟨b,_,rfl⟩ := List.mem_map.mp member
  exact (env.scan_perm v _).map _

theorem choice_parts (chosen : choice env db o orderType r = some batch) :
    env.checkBatchEligibility (readied orderType db.clock r) batch.2.2 = true ∧
      (batch.2.2).Perm ((members (claimed db o orderType) batch.1).map Prod.snd) := by
  unfold choice picked at chosen
  exact ⟨List.find?_some (p := fun batch : OpenBatch => env.checkBatchEligibility _ batch.2.2) chosen,openBatches_orders (List.mem_of_find?_eq_some chosen)⟩

theorem members_length_le (db db' : Database) (b b' : Nat) (extra : List Nat) (origin : ∀ i o', (i,o') ∈ members db' b' →
    i ∈ extra ∨ ∃ o, (i,o) ∈ members db b) :
    (members db' b').length ≤ extra.length+(members db b).length := by
  unfold members
  refine db.matching_length_le db' extra ?_
  intro i o' found part
  rcases origin i o' (mem_members.mpr ⟨found,of_decide_eq_true part⟩) with new | ⟨o,member⟩
  · exact .inl new
  · obtain ⟨before,same⟩ := mem_members.mp member
    exact .inr ⟨o,before,decide_eq_true same⟩

-- The claim changes the row of the order and leaves every batch its orders.
theorem mem_claimed : (i,o') ∈ members (claimed db o orderType) b ↔ ∃ r, (i,r) ∈ members db b ∧
    o' = if i = o ∧ r.status ∈ READYABLE_STATUSES then readied orderType db.clock r else r := by
  rw [mem_members]
  unfold claimed
  rw [Db.apply_updates]
  constructor
  · rintro ⟨found,part⟩
    obtain ⟨r,before,same⟩ := Option.map_eq_some_iff.mp found
    simp only [decide_eq_true_eq] at same
    refine ⟨r,mem_members.mpr ⟨before,?_⟩,same.symm⟩
    rw [← same] at part
    split at part <;> exact part
  · rintro ⟨r,member,rfl⟩
    obtain ⟨before,part⟩ := mem_members.mp member
    refine ⟨by simp [before],?_⟩
    split <;> exact part

theorem claimed_length : (members (claimed db o orderType) b).length = (members db b).length := by
  apply Nat.le_antisymm
  · have bound := members_length_le db (claimed db o orderType) b b [] ?_
    · simpa using bound
    intro i o' member
    obtain ⟨r,before,_⟩ := mem_claimed.mp member
    exact .inr ⟨r,before⟩
  · have bound := members_length_le (claimed db o orderType) db b b [] ?_
    · simpa using bound
    intro i r member
    exact .inr ⟨_,mem_claimed.mpr ⟨r,member,rfl⟩⟩

-- The branch of assignToBatch that goes wrong is not taken: an order without food
-- joins an open batch with food only below the food limit.
def FitsFood (env : Env) (w : Market) (m : MarketMove) : Prop :=
  ∀ o customerId orderType r batch, commits env w m = some (.claimReady o customerId orderType) →
    orderType ≠ .food → w.db.rows .order o = some r → choice env w.db o orderType r = some batch →
    (∃ member ∈ batch.2.2, member.orderType = .food) → batch.2.2.length < FOOD_MAX_BATCH

theorem limited_kept (limited : Limited db)
    (origin : ∀ b i o', (i,o') ∈ members db' b → ∃ o, (i,o) ∈ members db b ∧ o.orderType = o'.orderType) :
    Limited db' := by
  have length : ∀ b, (members db' b).length ≤ (members db b).length := by
    intro b
    have bound := members_length_le db db' b b [] ?_
    · simpa using bound
    intro i o' member
    obtain ⟨o,before,_⟩ := origin b i o' member
    exact .inr ⟨o,before⟩
  refine ⟨?_,fun b => Nat.le_trans (length b) (limited.all b)⟩
  intro b entry member food
  obtain ⟨o,before,same⟩ := origin b _ _ member
  exact Nat.le_trans (length b) (limited.food b _ before (same.trans food))

theorem limited_join (limited : Limited db) (filed : ∀ b entry, entry ∈ members db b → db.rows .deliveryBatch b ≠ none)
    (joins : Joins (env.configured calcDistanceKm ALLOW_MULTI_VENDOR rules) db o orderType r outcome)
    (fits : ∀ batch, choice (env.configured calcDistanceKm ALLOW_MULTI_VENDOR rules) db o orderType r = some batch →
      orderType ≠ .food → (∃ member ∈ batch.2.2, member.orderType = .food) → batch.2.2.length < FOOD_MAX_BATCH)
    (rows : db'.rows .order =
      Function.update (db.rows .order) o (some (joined outcome.batchId (readied orderType db.clock r)))) :
    Limited db' := by
  have origin : ∀ b i o', (i,o') ∈ members db' b →
      (i = o ∧ b = outcome.batchId ∧ o'.orderType = orderType) ∨ (i ≠ o ∧ (i,o') ∈ members db b) := by
    intro b i o' member
    obtain ⟨found,part⟩ := mem_members.mp member
    rw [rows] at found
    rcases update_some found with ⟨same,row⟩ | ⟨other,before⟩
    · rw [row] at part
      exact .inl ⟨same,(Option.some.inj part).symm,by rw [row]; rfl⟩
    · exact .inr ⟨other,mem_members.mpr ⟨before,part⟩⟩
  have grown : ∀ b, (members db' b).length ≤ 1+(members db b).length := by
    intro b
    refine members_length_le db db' b b [o] ?_
    intro i o' member
    rcases origin b i o' member with ⟨same,_⟩ | ⟨_,before⟩
    · exact .inl (List.mem_singleton.mpr same)
    · exact .inr ⟨o',before⟩
  have elsewhere : ∀ b, b ≠ outcome.batchId → (members db' b).length ≤ (members db b).length := by
    intro b other
    have bound := members_length_le db db' b b [] ?_
    · simpa using bound
    intro i o' member
    rcases origin b i o' member with ⟨_,same,_⟩ | ⟨_,before⟩
    · exact absurd same other
    · exact .inr ⟨o',before⟩
  -- Room for the order under the limit of its own type, and under the food limit
  -- when one of the others is food.
  have room : (members db outcome.batchId).length+1 ≤ (if orderType = .food then FOOD_MAX_BATCH else GROCERY_MAX_BATCH) ∧
      (∀ entry, entry ∈ members db outcome.batchId → entry.1 ≠ o → entry.2.orderType = .food →
        (members db outcome.batchId).length+1 ≤ FOOD_MAX_BATCH) := by
    cases joins with
    | @existing batch chosen =>
      obtain ⟨eligible,same⟩ := choice_parts chosen
      have length : batch.2.2.length = (members db batch.1).length := by
        rw [same.length_eq,List.length_map,claimed_length]
      have fit := eligible_room eligible
      rw [length] at fit
      refine ⟨fit,?_⟩
      intro entry member other food
      by_cases own : orderType = .food
      · have type : (readied orderType db.clock r).orderType = .food := own
        rw [if_pos type] at fit
        exact fit
      · have seen : (entry.1,entry.2) ∈ members (claimed db o orderType) batch.1 :=
          mem_claimed.mpr ⟨entry.2,member,by rw [if_neg (fun both => other both.1)]⟩
        have below := fits batch chosen own
          ⟨entry.2,same.mem_iff.mpr (List.mem_map.mpr ⟨entry,seen,rfl⟩),food⟩
        rw [length] at below
        exact below
    | new refused fresh =>
      rename_i b
      have empty : members db b = [] := by
        apply List.eq_nil_iff_forall_not_mem.mpr
        intro entry member
        exact filed b entry member fresh
      dsimp only
      rw [empty]
      refine ⟨by split <;> decide,fun entry member => absurd member List.not_mem_nil⟩
  obtain ⟨own,others⟩ := room
  have small : (if orderType = .food then FOOD_MAX_BATCH else GROCERY_MAX_BATCH) ≤ GROCERY_MAX_BATCH := by
    split <;> decide
  refine ⟨?_,?_⟩
  · intro b entry member food
    have grow := grown b
    by_cases here : b = outcome.batchId
    · subst here
      rcases origin _ entry.1 entry.2 member with ⟨_,_,type⟩ | ⟨other,before⟩
      · rw [if_pos (type.symm.trans food)] at own
        omega
      · have bound := others entry before other food
        omega
    · rcases origin b entry.1 entry.2 member with ⟨_,same,_⟩ | ⟨_,before⟩
      · exact absurd same here
      · exact Nat.le_trans (elsewhere b here) (limited.food b _ before food)
  · intro b
    have grow := grown b
    by_cases here : b = outcome.batchId
    · subst here
      omega
    · exact Nat.le_trans (elsewhere b here) (limited.all b)

end Joining

theorem members_commit_other (commit : Committed now x (dispatch db) y (dispatch db'))
    (other : ∀ o customerId orderType, x ≠ .claimReady o customerId orderType) (member : (i,o') ∈ members db' b) :
    ∃ o, (i,o) ∈ members db b ∧ o.orderType = o'.orderType := by
  obtain ⟨found,part⟩ := mem_members.mp member
  have after : (dispatch db').order i = some o' := found
  have change := order_change commit after
  generalize before : (dispatch db).order i = prior at change
  cases change with
  | placed => cases part
  | readied => exact absurd rfl (other _ _ _)
  | kept => exact ⟨_,mem_members.mpr ⟨before,part⟩,rfl⟩
  | decided => exact ⟨_,mem_members.mpr ⟨before,part⟩,rfl⟩
  | handed => exact ⟨_,mem_members.mpr ⟨before,part⟩,rfl⟩
  | underway => exact ⟨_,mem_members.mpr ⟨before,part⟩,rfl⟩
  | dropped => exact ⟨_,mem_members.mpr ⟨before,part⟩,rfl⟩
  | finished => exact ⟨_,mem_members.mpr ⟨before,part⟩,rfl⟩
  | released => exact ⟨_,mem_members.mpr ⟨before,part⟩,rfl⟩
  | forgotten => exact ⟨_,mem_members.mpr ⟨before,part⟩,rfl⟩

theorem filed_commit (filed : ∀ b entry, entry ∈ members db b → db.rows .deliveryBatch b ≠ none)
    (commit : Committed now x (dispatch db) y (dispatch db')) (member : entry ∈ members db' b) :
    db'.rows .deliveryBatch b ≠ none := by
  obtain ⟨found,part⟩ := mem_members.mp member
  have after : (dispatch db').order entry.1 = some entry.2 := found
  rcases order_batch commit after part with ⟨o,before,same⟩ | ⟨k,joined⟩
  · have open_ := filed b (entry.1,o) (mem_members.mpr ⟨before,same⟩)
    obtain ⟨k,at_batch⟩ := Option.ne_none_iff_exists'.mp open_
    obtain ⟨k',later,_⟩ := batch_kept commit (k := k) at_batch
    have row : db'.rows .deliveryBatch b = some k' := later
    rw [row]; exact nofun
  · have row : db'.rows .deliveryBatch b = some k := joined
    rw [row]; exact nofun

theorem limited_still (limited : Limited db) (same : dispatch db' = dispatch db) : Limited db' := by
  refine limited_kept limited ?_
  intro b i o' member
  obtain ⟨found,part⟩ := mem_members.mp member
  have rows : db'.rows .order = db.rows .order := congrArg Dispatch.order same
  rw [rows] at found
  exact ⟨o',mem_members.mpr ⟨found,part⟩,rfl⟩

theorem filed_still (filed : ∀ b entry, entry ∈ members db b → db.rows .deliveryBatch b ≠ none)
    (same : dispatch db' = dispatch db) (member : entry ∈ members db' b) : db'.rows .deliveryBatch b ≠ none := by
  obtain ⟨found,part⟩ := mem_members.mp member
  have orders : db'.rows .order = db.rows .order := congrArg Dispatch.order same
  have batches : db'.rows .deliveryBatch = db.rows .deliveryBatch := congrArg Dispatch.batch same
  rw [orders] at found
  rw [batches]
  exact filed b entry (mem_members.mpr ⟨found,part⟩)

theorem batch_limits {K : Type} [Field K] [LinearOrder K] (env : Env) (calcDistanceKm : Point → Point → K)
    (ALLOW_MULTI_VENDOR : Bool) (rules : CityRules K) (opening : Opening start)
    (path : Reached (market (env.configured calcDistanceKm ALLOW_MULTI_VENDOR rules))
      (FitsFood (env.configured calcDistanceKm ALLOW_MULTI_VENDOR rules)) start w) : Limited w.db := by
  have both : Limited w.db ∧ ∀ b entry, entry ∈ members w.db b → w.db.rows .deliveryBatch b ≠ none := by
    induction path with
    | refl =>
      have empty : ∀ b entry, entry ∉ members start.db b := by
        intro b entry member
        have none : start.db.rows .order entry.1 = .none := opening.order entry.1
        rw [(mem_members.mp member).1] at none
        cases none
      refine ⟨⟨fun b entry member => absurd member (empty b entry),?_⟩,fun b entry member => absurd member (empty b entry)⟩
      intro b
      rw [List.eq_nil_iff_forall_not_mem.mpr (empty b)]
      decide
    | @step w m path fits ih =>
      obtain ⟨limited,filed⟩ := ih
      cases hit : commits (env.configured calcDistanceKm ALLOW_MULTI_VENDOR rules) w m with
      | none =>
        have same := rows_still hit
        exact ⟨limited_still limited same,fun b entry => filed_still filed same⟩
      | some x =>
        obtain ⟨p,i,y,_,_,commit⟩ := commits_parts hit
        refine ⟨?_,fun b entry => filed_commit filed commit⟩
        cases x with
        | claimReady o customerId orderType =>
          obtain ⟨r,outcome,found,_,joins,rows⟩ := joins_move hit
          exact limited_join limited filed joins
            (fun batch chosen own => fits o customerId orderType r batch hit own found chosen) rows
        | _ => exact limited_kept limited fun b i o' => members_commit_other commit nofun
  exact both.1

-- The village shop sells a dish and a grocery item.
def shelves : (t : Tab) → List (Row t)
  | .category => [⟨"Food"⟩,⟨"Grocery"⟩]
  | .product => [⟨0,0⟩,⟨0,1⟩]
  | t => villageRows t

theorem opening_shelves : Opening (premises shelves) := by
  refine opening_premises rfl rfl rfl rfl ?_
  intro p member
  simp only [shelves,villageRows,List.mem_cons,List.not_mem_nil,or_false] at member
  rcases member with rfl | rfl <;> rfl

def ordered (productId : Nat) : Proc := .createOrder ⟨[⟨productId,1,1⟩],none,some 0,some 0,none,none⟩ 0 0

def fitsFood (env : Env) (w : Market) : MarketMove → Bool
  | .step p _ => match w.threads p with
    | some (.claimReady o _ orderType) => (w.db.rows .order o).all fun (r : Order) =>
      (choice env w.db o orderType r).all fun batch => orderType = .food ||
        !batch.2.2.any (fun member => member.orderType = .food) || batch.2.2.length < FOOD_MAX_BATCH
    | _ => true
  | _ => true

theorem fitsFood_parts {env : Env} {w : Market} (checked : fitsFood env w m = true) : FitsFood env w m := by
  intro o customerId orderType r batch hit grocery found chosen food
  obtain ⟨p,i,y,made,at_p,_⟩ := commits_parts hit
  subst made
  obtain ⟨member,part,type⟩ := food
  have some_food : batch.2.2.any (fun member => member.orderType = .food) = true :=
    List.any_eq_true.mpr ⟨member,part,decide_eq_true type⟩
  simp only [fitsFood,at_p,found,Option.all_some,chosen,some_food,Bool.not_true,Bool.or_false,Bool.or_eq_true,
    decide_eq_true_eq] at checked
  exact checked.resolve_left grocery

-- A dish, then a grocery order that joins it.
def mixedBasket : List MarketMove :=
  ask (ordered 0) 0 3 ++ ask (ordered 1) 1 3 ++ ask (.vendorMarkReady 0 1) 2 5 ++ ask (.vendorMarkReady 1 1) 3 5

theorem batch_limits_mixed : Limited ((premises shelves).run (market village) mixedBasket).db := by
  refine batch_limits village (fun _ _ => (0 : Rat)) false (OrderService.rules none) opening_shelves (reached_run .refl mixedBasket ?_)
  have checked : (((premises shelves).trace (market village) mixedBasket).all
      fun made => fitsFood village made.1 made.2) = true := by decide +kernel
  intro made member
  exact fitsFood_parts (List.all_eq_true.mp checked made member)

-- Orders are placed and marked ready, and nothing else is asked for.
def Readying (_ : Market) : MarketMove → Prop
  | .spawn x => (∃ dto vendorId costumerId, x = .createOrder dto vendorId costumerId) ∨
      ∃ orderId userId, x = .vendorMarkReady orderId userId
  | _ => True

-- Three dishes fill a batch that is not closed yet when the grocery order is ready.
def fourthJoins : List MarketMove :=
  ask (ordered 0) 0 3 ++ ask (ordered 0) 1 3 ++ ask (ordered 0) 2 3 ++ ask (ordered 1) 3 3 ++
    ask (.vendorMarkReady 0 1) 4 5 ++ ask (.vendorMarkReady 1 1) 5 5 ++ ask (.vendorMarkReady 2 1) 6 3 ++
    ask (.vendorMarkReady 3 1) 7 3

theorem batch_overfilled : ¬∀ (env : Env) (calcDistanceKm : Point → Point → Rat) (ALLOW_MULTI_VENDOR : Bool)
    (rules : CityRules Rat) (start w : Market), Opening start →
    Reached (market (env.configured calcDistanceKm ALLOW_MULTI_VENDOR rules)) Readying start w → Limited w.db := by
  intro claim
  have path : Reached (market village) Readying (premises shelves) ((premises shelves).run (market village) fourthJoins) := by
    refine reached_moves .refl fourthJoins ?_
    intro m member w
    simp only [fourthJoins,List.mem_append] at member
    rcases member with ((((((member | member) | member) | member) | member) | member) | member) | member <;>
      refine ask_moves (P := Readying w) (fun _ _ => trivial) ?_ m member
    · exact .inl ⟨_,_,_,rfl⟩
    · exact .inl ⟨_,_,_,rfl⟩
    · exact .inl ⟨_,_,_,rfl⟩
    · exact .inl ⟨_,_,_,rfl⟩
    · exact .inr ⟨_,_,rfl⟩
    · exact .inr ⟨_,_,rfl⟩
    · exact .inr ⟨_,_,rfl⟩
    · exact .inr ⟨_,_,rfl⟩
  have limited := claim village (fun _ _ => 0) false (OrderService.rules none) _ _ opening_shelves path
  have four : (members ((premises shelves).run (market village) fourthJoins).db 0).length = 4 := by decide +kernel
  have food : (members ((premises shelves).run (market village) fourthJoins).db 0).any
      (fun entry => entry.2.orderType = .food) = true := by decide +kernel
  obtain ⟨entry,member,type⟩ := List.any_eq_true.mp food
  have bound := limited.food 0 entry member (of_decide_eq_true type)
  rw [four] at bound
  exact absurd bound (by decide)

end MesyafMarket
