import MesyafMarket.PromisedDelay

namespace MesyafMarket
open OrderService

section Routes
variable {K : Type} [Field K] {calcDistanceKm : Point → Point → K}

-- The time at which a route that goes on to a point is there.
def minutesTo (calcDistanceKm : Point → Point → K) (speedKmPerMin : K) (route : K × Point) (last : Point) : K :=
  route.1+calcDistanceKm route.2 last/speedKmPerMin

-- The estimate compares the route with the direct trip, which is the route without stops.
theorem estimateDelay_arrival (order : Order) (orders : List Order) (located : Located order) :
    estimateDelay calcDistanceKm order orders 30 =
      minutesTo calcDistanceKm (30/60) (orders.foldl (routeTo calcDistanceKm (30/60)) (0,vendorPoint order)) (customerPoint order)-
        minutesTo calcDistanceKm (30/60) (0,vendorPoint order) (customerPoint order) := by
  obtain ⟨vendorLat,vendorLng,customerLat,customerLng⟩ := located
  obtain ⟨x,at_x⟩ := Option.isSome_iff_exists.mp vendorLat
  obtain ⟨y,at_y⟩ := Option.isSome_iff_exists.mp vendorLng
  obtain ⟨p,at_p⟩ := Option.isSome_iff_exists.mp customerLat
  obtain ⟨q,at_q⟩ := Option.isSome_iff_exists.mp customerLng
  simp only [estimateDelay,minutesTo,vendorPoint,customerPoint,at_x,at_y,at_p,at_q,Option.getD_some,zero_add]

theorem estimateDelay_unlocated {order : Order} (orders : List Order) (unlocated : ¬Located order) :
    estimateDelay calcDistanceKm order orders 30 = 0 := by
  unfold estimateDelay
  split
  · rename_i vendorLat vendorLng customerLat customerLng
    exact absurd ⟨by rw [vendorLat]; rfl,by rw [vendorLng]; rfl,by rw [customerLat]; rfl,by rw [customerLng]; rfl⟩ unlocated
  · rfl

variable [LinearOrder K] [IsStrictOrderedRing K] (metric : Metric calcDistanceKm)
include metric

-- A stop on the way is a detour, or none where it has no coordinates.
theorem minutesTo_routeTo (route : K × Point) (o : Order) (last : Point) :
    minutesTo calcDistanceKm (30/60) route last ≤ minutesTo calcDistanceKm (30/60) (routeTo calcDistanceKm (30/60) route o) last := by
  unfold routeTo
  split
  · rename_i lat lng _ _
    have detour := metric.triangle (a := route.2) (b := ⟨lat,lng⟩) (c := last)
    have slower : calcDistanceKm route.2 last/(30/60) ≤
        (calcDistanceKm route.2 ⟨lat,lng⟩+calcDistanceKm ⟨lat,lng⟩ last)/(30/60) :=
      div_le_div_of_nonneg_right detour (by norm_num)
    rw [add_div] at slower
    unfold minutesTo
    dsimp only
    linarith
  · exact le_refl _

theorem minutesTo_foldl (orders : List Order) (route : K × Point) (last : Point) :
    minutesTo calcDistanceKm (30/60) route last ≤
      minutesTo calcDistanceKm (30/60) (orders.foldl (routeTo calcDistanceKm (30/60)) route) last := by
  induction orders generalizing route with
  | nil => exact le_refl _
  | cons o rest ih => exact le_trans (minutesTo_routeTo metric route o last) (ih _)

theorem estimateDelay_nonneg (order : Order) (orders : List Order) : 0 ≤ estimateDelay calcDistanceKm order orders 30 := by
  by_cases located : Located order
  · rw [estimateDelay_arrival order orders located]
    have detour := minutesTo_foldl metric orders (0,vendorPoint order) (customerPoint order)
    linarith
  · rw [estimateDelay_unlocated orders located]

theorem estimateDelay_grows (order : Order) (orders later : List Order) :
    estimateDelay calcDistanceKm order orders 30 ≤ estimateDelay calcDistanceKm order (orders ++ later) 30 := by
  by_cases located : Located order
  · rw [estimateDelay_arrival order orders located,estimateDelay_arrival order (orders ++ later) located,List.foldl_append]
    have detour := minutesTo_foldl metric later (orders.foldl (routeTo calcDistanceKm (30/60)) (0,vendorPoint order))
      (customerPoint order)
    linarith
  · rw [estimateDelay_unlocated orders located,estimateDelay_unlocated (orders ++ later) located]

-- The vendors, the size and the delay only get worse; the distance is that to the first order.
theorem eligible_before {multi : Bool} {rules : CityRules K} {order first : Order} {others later : List Order}
    (eligible : checkBatchEligibility calcDistanceKm multi rules order (first::(others ++ later)) = true) :
    checkBatchEligibility calcDistanceKm multi rules order (first::others) = true := by
  have grows := estimateDelay_grows metric order (first::others) later
  rw [List.cons_append] at grows
  simp only [checkBatchEligibility] at eligible ⊢
  generalize (if order.orderType = .food then FOOD_MAX_BATCH else GROCERY_MAX_BATCH) = max at eligible ⊢
  split at eligible
  · cases eligible
  rename_i vendors
  split at eligible
  · cases eligible
  rename_i size
  split at eligible
  · cases eligible
  rename_i near
  split at eligible
  · cases eligible
  rename_i delay
  rw [if_neg,if_neg,if_neg near,if_neg]
  · intro late
    exact delay (lt_of_lt_of_le late grows)
  · intro full
    refine size (Nat.le_trans full ?_)
    simp only [List.length_cons,List.length_append]
    omega
  · intro mixed
    apply vendors
    rw [Bool.and_eq_true,List.any_eq_true] at mixed ⊢
    obtain ⟨single,o,member,other⟩ := mixed
    exact ⟨single,o,List.mem_append_left later member,other⟩

end Routes

-- The eligibility of an order for a batch, before and after others have joined it.
structure Shrinks {K : Type} [Field K] [LinearOrder K] (calcDistanceKm : Point → Point → K) (multi : Bool)
    (rules : CityRules K) (order : Order) (batchOrders : List Order) : Prop where
  nonneg : 0 ≤ estimateDelay calcDistanceKm order batchOrders 30
  delay : ∀ x, estimateDelay calcDistanceKm order batchOrders 30 ≤ estimateDelay calcDistanceKm order (batchOrders ++ [x]) 30
  eligible : ∀ x, checkBatchEligibility calcDistanceKm multi rules order (batchOrders ++ [x]) = true →
    checkBatchEligibility calcDistanceKm multi rules order batchOrders = true
  refused : checkBatchEligibility calcDistanceKm multi rules order batchOrders = false →
    ∀ later, checkBatchEligibility calcDistanceKm multi rules order (batchOrders ++ later) = false

theorem eligibility_shrinks {K : Type} [Field K] [LinearOrder K] [IsStrictOrderedRing K]
    {calcDistanceKm : Point → Point → K} (metric : Metric calcDistanceKm) (multi : Bool) (rules : CityRules K)
    (order : Order) (batchOrders : List Order) (some : batchOrders ≠ []) :
    Shrinks calcDistanceKm multi rules order batchOrders := by
  cases batchOrders with
  | nil => exact absurd rfl some
  | cons first others =>
    refine ⟨estimateDelay_nonneg metric order _,fun x => estimateDelay_grows metric order _ [x],
      fun x eligible => eligible_before metric eligible,?_⟩
    intro refused later
    rw [Bool.eq_false_iff] at refused ⊢
    exact fun eligible => refused (eligible_before metric eligible)

theorem eligibility_shrinks_manhattan :
    Shrinks manhattan false (OrderService.rules none) farOrder [acceptedOrder,{acceptedOrder with customerLng := none}] :=
  eligibility_shrinks metric_manhattan false _ _ _ (List.cons_ne_nil _ _)

-- The empty batch takes every order, and a batch of one may refuse it.
example : checkBatchEligibility manhattan false (OrderService.rules none) farOrder [] = true ∧
    checkBatchEligibility manhattan false (OrderService.rules none) farOrder [{acceptedOrder with vendorId := 1}] = false := by
  decide +kernel

end MesyafMarket
