import Mathlib.Data.List.Induction
import MesyafMarket.Assignability

namespace MesyafMarket
open Relational DelivererAssignmentService

namespace DelivererLocationService

inductive Source where
  | redis | db
  deriving DecidableEq

def position (p : DelivererProfile) : Option Point :=
  match p.currentLat,p.currentLng with
  | some lat,some lng => some ⟨lat,lng⟩
  | _,_ => none

def get (redis : Nat → Option Point) (v : Database) (delivererId : Nat) : Option (Point × Source) :=
  match redis delivererId with
  | some cached => some (cached,.redis)
  | none => ((v.rows .delivererProfile delivererId).bind position).map fun loc => (loc,.db)

-- The first loop of getMany: what Redis has, and the ids that are missing there.
def lookUp (redis : Nat → Option Point) (found : (Nat → Option Point) × List Nat) (id : Nat) :
    (Nat → Option Point) × List Nat :=
  match redis id with
  | some cached => (Function.update found.1 id (some cached),found.2)
  | none => (found.1,found.2 ++ [id])

-- The second, over the rows of the missing.
def fill (result : Nat → Option Point) (r : Nat × DelivererProfile) : Nat → Option Point :=
  match position r.2 with
  | some loc => Function.update result r.1 (some loc)
  | none => result

def getMany (env : Env) (redis : Nat → Option Point) (v : Database) (ids : List Nat) : Nat → Option Point :=
  let found := ids.foldl (lookUp redis) (fun _ => none,[])
  let rows := env.scan v (v.matching .delivererProfile fun i _ => i ∈ found.2)
  rows.foldl fill found.1

theorem lookUp_foldl (redis : Nat → Option Point) (ids : List Nat) :
    (∀ i, (ids.foldl (lookUp redis) (fun _ => none,[])).1 i = if i ∈ ids then redis i else none) ∧
      ∀ i, i ∈ (ids.foldl (lookUp redis) (fun _ => none,[])).2 ↔ i ∈ ids ∧ redis i = none := by
  induction ids using List.reverseRecOn with
  | nil => exact ⟨fun i => rfl,fun i => by simp⟩
  | append_singleton ids id ih =>
    obtain ⟨result,missing⟩ := ih
    rw [List.foldl_append,List.foldl_cons,List.foldl_nil]
    generalize ids.foldl (lookUp redis) (fun _ => none,[]) = found at result missing
    unfold lookUp
    cases cached : redis id with
    | some loc =>
      constructor
      · intro i
        by_cases same : i = id
        · subst i; simp [cached]
        · simp [result i,same]
      · intro i
        rw [missing i]
        constructor
        · rintro ⟨member,none⟩
          exact ⟨List.mem_append_left _ member,none⟩
        · rintro ⟨member,none⟩
          rcases List.mem_append.mp member with before | last
          · exact ⟨before,none⟩
          · rw [List.mem_singleton.mp last,cached] at none
            cases none
    | none =>
      constructor
      · intro i
        by_cases same : i = id
        · subst i; simp [cached,result id]
        · simp [result i,same]
      · intro i
        rw [List.mem_append,missing i,List.mem_append,List.mem_singleton]
        constructor
        · rintro (⟨member,none⟩ | rfl)
          · exact ⟨.inl member,none⟩
          · exact ⟨.inr rfl,cached⟩
        · rintro ⟨member | rfl,none⟩
          · exact .inl ⟨member,none⟩
          · exact .inr rfl

-- A row sets the position of its own id, where it has one.
theorem fill_foldl {v : Database} (rows : List (Nat × DelivererProfile))
    (known : ∀ r ∈ rows, v.rows .delivererProfile r.1 = some r.2) (result : Nat → Option Point) (i : Nat) :
    (∀ p, (i,p) ∈ rows → rows.foldl fill result i = (position p).or (result i)) ∧
      ((∀ p, (i,p) ∉ rows) → rows.foldl fill result i = result i) := by
  induction rows generalizing result with
  | nil => exact ⟨nofun,fun _ => rfl⟩
  | cons r rest ih =>
    obtain ⟨listed,unlisted⟩ := ih (fun r member => known r (List.mem_cons_of_mem _ member)) (fill result r)
    have other : r.1 ≠ i → fill result r i = result i := by
      intro apart
      unfold fill
      cases position r.2 with
      | some loc => exact Function.update_of_ne (Ne.symm apart) ..
      | none => rfl
    have own : r.1 = i → fill result r i = (position r.2).or (result i) := by
      rintro rfl
      unfold fill
      cases position r.2 with
      | some loc => exact Function.update_self ..
      | none => rfl
    constructor
    · intro p member
      rw [List.foldl_cons]
      rcases List.mem_cons.mp member with first | later
      · have here := own (by rw [← first])
        rw [← first] at here
        by_cases again : (i,p) ∈ rest
        · rw [listed p again,← first,here]
          cases position p <;> rfl
        · rw [unlisted,← first,here]
          intro q other
          have same := known (i,q) (List.mem_cons_of_mem _ other)
          rw [known (i,p) member] at same
          cases same
          exact again other
      · rw [listed p later]
        by_cases same : r.1 = i
        · have at_r := known r List.mem_cons_self
          have at_i := known (i,p) member
          rw [same,at_i] at at_r
          cases at_r
          rw [own same]
          cases position r.2 <;> rfl
        · rw [other same]
    · intro absent
      rw [List.foldl_cons,unlisted fun p member => absent p (List.mem_cons_of_mem _ member)]
      apply other
      rintro rfl
      exact absent r.2 List.mem_cons_self

-- The bulk lookup agrees with the single one.
theorem getMany_get {id : Nat} (env : Env) (redis : Nat → Option Point) (v : Database) (ids : List Nat) (member : id ∈ ids) :
    getMany env redis v ids id = (get redis v id).map Prod.fst := by
  obtain ⟨result,missing⟩ := lookUp_foldl redis ids
  unfold getMany get
  generalize ids.foldl (lookUp redis) (fun _ => none,[]) = found at result missing
  have rows : ∀ i p, (i,p) ∈ env.scan v (v.matching .delivererProfile fun i _ => i ∈ found.2) ↔
      v.rows .delivererProfile i = some p ∧ i ∈ found.2 := by
    intro i p
    rw [(env.scan_perm v _).mem_iff,Db.mem_matching,decide_eq_true_eq]
  obtain ⟨listed,unlisted⟩ := fill_foldl (env.scan v (v.matching .delivererProfile fun i _ => i ∈ found.2))
    (fun r at_r => ((rows r.1 r.2).mp at_r).1) found.1 id
  cases cached : redis id with
  | some loc =>
    rw [unlisted,result id,if_pos member,cached]
    · rfl
    · intro p at_p
      have none := ((missing id).mp ((rows id p).mp at_p).2).2
      rw [cached] at none
      cases none
  | none =>
    cases profile : v.rows .delivererProfile id with
    | some p =>
      rw [listed p ((rows id p).mpr ⟨profile,(missing id).mpr ⟨member,cached⟩⟩),result id,if_pos member,cached]
      cases at_p : position p <;> simp [at_p]
    | none =>
      rw [unlisted,result id,if_pos member,cached]
      · rfl
      · intro p at_p
        have some := ((rows id p).mp at_p).1
        rw [profile] at some
        cases some

theorem getMany_read (redis : Nat → Option Point) (v : Database) (id : Nat) :
    DelivererAssignmentService.getMany redis v id = (get redis v id).map Prod.fst := by
  unfold DelivererAssignmentService.getMany get
  cases redis id with
  | some cached => rfl
  | none =>
    cases v.rows .delivererProfile id with
    | none => rfl
    | some p =>
      change position p = ((position p).map fun loc => (loc,Source.db)).map Prod.fst
      cases position p <;> rfl

end DelivererLocationService

open DelivererLocationService

-- The first element of least value among those whose value compares at all.
inductive FirstLeast {α K : Type} [LT K] [LE K] (value : α → Distance K) (xs : List α) :
    Option α × Option (Distance K) → Prop where
  | none (incomparable : ∀ x ∈ xs, ∀ s, value x ≠ .km s) : FirstLeast value xs (none,none)
  | some {before after : List α} {d : α} {r : K} (listed : xs = before ++ d::after) (at_d : value d = .km r)
      (least : ∀ x ∈ xs, ∀ s, value x = .km s → r ≤ s) (first : ∀ x ∈ before, ∀ s, value x = .km s → r < s) :
      FirstLeast value xs (some d,some (.km r))

section Scan
variable {K : Type} [LinearOrder K]

def distanceTo (calcDistanceKm : Point → Point → Distance K) (pickup : Point) (d : Nat × DelivererProfile) : Distance K :=
  match position d.2 with
  | some loc => calcDistanceKm pickup loc
  | none => .nan

variable (calcDistanceKm : Point → Point → Distance K) (pickup : Point)

theorem closestStep_distance (best : Option (Nat × DelivererProfile) × Option (Distance K)) (d : Nat × DelivererProfile) :
    closestStep calcDistanceKm pickup best d =
      if (distanceTo calcDistanceKm pickup d).below best.2 then (some d,some (distanceTo calcDistanceKm pickup d)) else best := by
  unfold closestStep distanceTo position
  have skipped : (Distance.nan : Distance K).below best.2 = false := by
    cases best.2 <;> rfl
  cases d.2.currentLat with
  | none => simp [skipped]
  | some lat => cases d.2.currentLng <;> simp [skipped]

-- One more candidate takes the lead when it is strictly nearer than all before it.
theorem closest_foldl (deliverers : List (Nat × DelivererProfile)) : FirstLeast (distanceTo calcDistanceKm pickup) deliverers
    (deliverers.foldl (closestStep calcDistanceKm pickup) (none,none)) := by
  induction deliverers using List.reverseRecOn with
  | nil => exact .none nofun
  | append_singleton before d ih =>
    rw [List.foldl_append,List.foldl_cons,List.foldl_nil,closestStep_distance]
    generalize before.foldl (closestStep calcDistanceKm pickup) (none,none) = best at ih
    cases dist : distanceTo calcDistanceKm pickup d with
    | nan =>
      cases ih with
      | none incomparable =>
        refine .none fun x member s => ?_
        rcases List.mem_append.mp member with earlier | last
        · exact incomparable x earlier s
        · rw [List.mem_singleton.mp last,dist]; exact nofun
      | some listed at_c least first =>
        refine .some (by rw [listed,List.append_assoc]; rfl) at_c ?_ first
        intro x member s at_x
        rcases List.mem_append.mp member with earlier | last
        · exact least x earlier s at_x
        · rw [List.mem_singleton.mp last,dist] at at_x; cases at_x
    | km r =>
      cases ih with
      | none incomparable =>
        refine .some (show before ++ [d] = before ++ d::[] from rfl) dist ?_ fun x member s at_x => absurd at_x (incomparable x member s)
        intro x member s at_x
        rcases List.mem_append.mp member with earlier | last
        · exact absurd at_x (incomparable x earlier s)
        · rw [List.mem_singleton.mp last,dist] at at_x; cases at_x; exact le_rfl
      | @some earlier later c q listed at_c least first =>
        by_cases nearer : r < q
        · have lead : (Distance.km r).below (some (.km q)) = true := by simpa [Distance.below,Distance.lt] using nearer
          rw [if_pos lead]
          refine .some (show before ++ [d] = before ++ d::[] from rfl) dist ?_ fun x member s at_x => lt_of_lt_of_le nearer (least x member s at_x)
          intro x member s at_x
          rcases List.mem_append.mp member with among | last
          · exact (lt_of_lt_of_le nearer (least x among s at_x)).le
          · rw [List.mem_singleton.mp last,dist] at at_x; cases at_x; exact le_rfl
        · have kept : ¬(Distance.km r).below (some (.km q)) = true := by simpa [Distance.below,Distance.lt] using nearer
          rw [if_neg kept]
          refine .some (by rw [listed,List.append_assoc]; rfl) at_c ?_ first
          intro x member s at_x
          rcases List.mem_append.mp member with among | last
          · exact least x among s at_x
          · rw [List.mem_singleton.mp last,dist] at at_x; cases at_x; exact le_of_not_gt nearer

end Scan

-- The choice: the first of the nearest candidates whose position is known, else
-- the first candidate.
inductive NearestOf {K : Type} [LinearOrder K] (calcDistanceKm : Point → Point → Distance K) (pickup : Point)
    (locate : Nat → Option Point) (candidates : List (Nat × DelivererProfile)) : Nat → Prop where
  | nearest {before after : List (Nat × DelivererProfile)} {d : Nat × DelivererProfile} {loc : Point} {r : K}
      (listed : candidates = before ++ d::after) (known : locate d.1 = some loc) (dist : calcDistanceKm pickup loc = .km r)
      (least : ∀ c ∈ candidates, ∀ other s, locate c.1 = some other → calcDistanceKm pickup other = .km s → r ≤ s)
      (first : ∀ c ∈ before, ∀ other s, locate c.1 = some other → calcDistanceKm pickup other = .km s → r < s) :
      NearestOf calcDistanceKm pickup locate candidates d.1
  | fallback {d : Nat × DelivererProfile} {rest : List (Nat × DelivererProfile)} (listed : candidates = d::rest)
      (none : ∀ c ∈ candidates, ∀ other s, locate c.1 = some other → calcDistanceKm pickup other ≠ .km s) :
      NearestOf calcDistanceKm pickup locate candidates d.1

def Env.measuring {K : Type} [LinearOrder K] (env : Env) (calcDistanceKm : Point → Point → Distance K) : Env :=
  {env with
    findClosestDeliverer := DelivererAssignmentService.findClosestDeliverer calcDistanceKm
    closest_mem := fun _ _ _ _ chosen => findClosestDeliverer_mem calcDistanceKm chosen}

section Chosen
variable {K : Type} [LinearOrder K] {calcDistanceKm : Point → Point → Distance K}

-- A candidate read from the same rows is measured where `get` finds it.
theorem withLocation_position {redis : Nat → Option Point} {v : Database} {d : Nat × DelivererProfile}
    (at_d : v.rows .delivererProfile d.1 = some d.2) :
    position (match DelivererAssignmentService.getMany redis v d.1 with
      | some loc => (d.1,{d.2 with currentLat := some loc.lat,currentLng := some loc.lng})
      | none => d).2 = (get redis v d.1).map Prod.fst := by
  rw [getMany_read]
  unfold DelivererLocationService.get
  cases redis d.1 with
  | some cached => rfl
  | none =>
    rw [at_d,Option.bind_some]
    cases at_p : position d.2 with
    | none => exact at_p
    | some loc => rfl

theorem chosen_nearest {env : Env} {redis : Nat → Option Point} {v : Database} {deliverers : List (Nat × DelivererProfile)}
    (rows : ∀ d ∈ deliverers, v.rows .delivererProfile d.1 = some d.2)
    (chosen : chosenDeliverer (env.measuring calcDistanceKm) (withLocation (DelivererAssignmentService.getMany redis v) deliverers)
      lat lng = some d) :
    NearestOf calcDistanceKm ⟨lat,lng⟩ (fun i => (get redis v i).map Prod.fst) deliverers d.1 := by
  generalize at_located : (fun e : Nat × DelivererProfile => match DelivererAssignmentService.getMany redis v e.1 with
      | some loc => (e.1,{e.2 with currentLat := some loc.lat,currentLng := some loc.lng})
      | none => e) = located
  have key : ∀ e, (located e).1 = e.1 := by
    intro e
    rw [← at_located]
    dsimp only
    cases DelivererAssignmentService.getMany redis v e.1 <;> rfl
  have placed : ∀ e ∈ deliverers, ∀ s, distanceTo calcDistanceKm ⟨lat,lng⟩ (located e) = .km s ↔
      ∃ loc, (get redis v e.1).map Prod.fst = some loc ∧ calcDistanceKm ⟨lat,lng⟩ loc = .km s := by
    intro e member s
    have here : position (located e).2 = (get redis v e.1).map Prod.fst := by
      rw [← at_located]
      exact withLocation_position (rows e member)
    unfold distanceTo
    rw [here]
    cases (get redis v e.1).map Prod.fst <;> simp
  have all : withLocation (DelivererAssignmentService.getMany redis v) deliverers = deliverers.map located := by
    rw [← at_located]
    rfl
  rw [all] at chosen
  have scanned := closest_foldl calcDistanceKm ⟨lat,lng⟩ (deliverers.map located)
  have found : (env.measuring calcDistanceKm).findClosestDeliverer (deliverers.map located) lat lng =
      ((deliverers.map located).foldl (closestStep calcDistanceKm ⟨lat,lng⟩) (none,none)).1 := rfl
  unfold chosenDeliverer at chosen
  rw [found] at chosen
  generalize (deliverers.map located).foldl (closestStep calcDistanceKm ⟨lat,lng⟩) (none,none) = best at scanned chosen
  cases scanned with
  | none incomparable =>
    cases deliverers with
    | nil => cases chosen
    | cons first rest =>
      have same : located first = d := Option.some.inj chosen
      rw [← same,key]
      refine .fallback rfl fun c member other s known dist => ?_
      exact incomparable (located c) (List.mem_map_of_mem member) s ((placed c member s).mpr ⟨other,known,dist⟩)
  | @some earlier later c r listed at_c least first =>
    have same : c = d := Option.some.inj chosen
    obtain ⟨before,rest,split,mapped,others⟩ := List.map_eq_append_iff.mp listed
    obtain ⟨e,after,rfl,rfl,_⟩ := List.map_eq_cons_iff.mp others
    have member : e ∈ deliverers := by rw [split]; exact List.mem_append_right _ List.mem_cons_self
    obtain ⟨loc,known,dist⟩ := (placed e member r).mp at_c
    rw [← same,key]
    refine .nearest split known dist ?_ ?_
    · intro x listed other s known dist
      exact least (located x) (List.mem_map_of_mem listed) s ((placed x listed s).mpr ⟨other,known,dist⟩)
    · intro x listed other s known dist
      have among : x ∈ deliverers := by rw [split]; exact List.mem_append_left _ listed
      exact first (located x) (by rw [← mapped]; exact List.mem_map_of_mem listed) s ((placed x among s).mpr ⟨other,known,dist⟩)

theorem instr_query {env : Env} {w : Market} {read : Database → Proc} (found : w.threads p = some x)
    (at_query : x.next env = .query read) (i : Nat → Option Point) :
    w.move (market env) (.step p i) = w.goto p (read w.db) := by
  have next : (market env).next x = .query read := at_query
  simp only [World.move,found,World.instr,next]

theorem instr_input {env : Env} {w : Market} {read : (Nat → Option Point) → Proc} (found : w.threads p = some x)
    (at_input : x.next env = .input read) (redis : Nat → Option Point) :
    w.move (market env) (.step p redis) = w.goto p (read redis) := by
  have next : (market env).next x = .input read := at_input
  simp only [World.move,found,World.instr,next]

-- Whatever the commit writes, it writes for the deliverer that was chosen.
theorem assignTx_gives {v after : Database} (ran : (assignTx b orders d).run v = .ok (j,after)) : AssignedTo after b d := by
  obtain ⟨k,p,base,_,_,_,_,_,_,_,_,_,result⟩ := assignTx_parts ran
  have batch : after.rows .deliveryBatch b = some {k with delivererId := some d} :=
    (congrFun (congrArg Dispatch.batch result) b).trans (Function.update_self ..)
  have job : after.rows .deliveryJob j = some (assignedJob b d orders.length v.clock) :=
    (congrFun (congrArg Dispatch.job result) j).trans (Function.update_self ..)
  have profile : after.rows .delivererProfile d = some {p with availability := false,activeJobId := some j} :=
    (congrFun (congrArg Dispatch.deliverer result) d).trans (Function.update_self ..)
  exact ⟨_,j,_,_,batch,rfl,job,rfl,rfl,rfl,profile,rfl⟩

-- Of the candidates the assignment takes the first of the nearest, measured from
-- where the location service finds each, or else the first.
theorem nearest_assigned (calcDistanceKm : Point → Point → Distance K) {env : Env} {w : Market}
    (at_head : w.threads p = some (.assignDelivererToBatch b caller))
    (at_batch : w.db.rows .deliveryBatch b = some k) (unclaimed : k.delivererId = none)
    (orders : batchOrders env w.db b = first::rest) (at_lat : first.2.vendorLat = some lat) (at_lng : first.2.vendorLng = some lng)
    (candidates : availableDeliverers env w.db ≠ []) (i redis : Nat → Option Point) :
    (∀ d ∈ availableDeliverers env w.db,
      DelivererLocationService.getMany env redis w.db ((availableDeliverers env w.db).map Prod.fst) d.1 =
        (DelivererLocationService.get redis w.db d.1).map Prod.fst) ∧
    ∃ d, NearestOf calcDistanceKm ⟨lat,lng⟩ (fun i => (DelivererLocationService.get redis w.db i).map Prod.fst)
        (availableDeliverers env w.db) d ∧
      w.run (market (env.measuring calcDistanceKm)) [.step p i,.step p i,.step p redis,.step p i] =
        w.goto p (.assign b (first::rest) d caller) ∧
      ∀ j after, (assignTx b (first::rest) d).run w.db = .ok (j,after) → AssignedTo after b d := by
  refine ⟨fun d member => getMany_get env redis w.db _ (List.mem_map_of_mem member),?_⟩
  have same : availableDeliverers (env.measuring calcDistanceKm) w.db = availableDeliverers env w.db := rfl
  obtain ⟨d,chosen⟩ := chosen_some (env.measuring calcDistanceKm) (DelivererAssignmentService.getMany redis w.db) lat lng candidates
  refine ⟨d.1,chosen_nearest (fun e member => (mem_availableDeliverers.mp member).1) chosen,?_,fun j after ran => assignTx_gives ran⟩
  have read : Proc.batchToAssign (env.measuring calcDistanceKm) w.db b caller = .readCandidates b (first::rest) lat lng caller :=
    batchToAssign_of at_batch unclaimed orders at_lat at_lng caller
  have going : Proc.candidates (env.measuring calcDistanceKm) w.db b (first::rest) lat lng caller =
      .readPositions b (first::rest) lat lng (availableDeliverers env w.db) caller := by
    unfold Proc.candidates
    rw [same]
    cases listed : availableDeliverers env w.db with
    | nil => exact absurd listed candidates
    | cons => rfl
  have choice : Proc.choose (env.measuring calcDistanceKm) (DelivererAssignmentService.getMany redis w.db) b (first::rest) lat lng
      (availableDeliverers env w.db) caller = .assign b (first::rest) d.1 caller := by
    unfold Proc.choose
    rw [chosen]
  simp only [World.run,List.foldl_cons,List.foldl_nil]
  rw [instr_query at_head rfl,read,instr_query (goto_threads ..) rfl,goto_goto,goto_db,going,
    instr_input (goto_threads ..) rfl,goto_goto,instr_query (goto_threads ..) rfl,goto_goto,goto_db,choice]

end Chosen

-- Kilometres along the streets of a grid.
def streets (a b : Point) : Distance Rat := .km (|a.lat-b.lat|+|a.lng-b.lng|)

-- The first deliverer has driven off, the second waits at the shop.
def drivenOff (d : Nat) : Option Point := if d = 0 then some ⟨5,5⟩ else none

def assigning : Market := morning.run (market village) (closedByTimer ++ [.work 0])

theorem nearest_assigned_streets : ∃ b first rest lat lng, (∃ d,
    NearestOf streets ⟨lat,lng⟩ (fun i => (DelivererLocationService.get drivenOff assigning.db i).map Prod.fst)
      (availableDeliverers village assigning.db) d ∧
    assigning.run (market (village.measuring streets)) [.step 3 drivenOff,.step 3 drivenOff,.step 3 drivenOff,.step 3 drivenOff] =
      assigning.goto 3 (.assign b (first::rest) d .worker)) := by
  have at_head : assigning.threads 3 = some (.assignDelivererToBatch 0 .worker) := by
    have taken : morning.run (market village) (closedByTimer ++ [.work 0]) =
        (morning.run (market village) closedByTimer).move (market village) (.work 0) := run_snoc ..
    have queued : (morning.run (market village) closedByTimer).queue = [.assignDeliverer 0] := by decide +kernel
    have spawned : (morning.run (market village) closedByTimer).spawned = 3 := by decide +kernel
    unfold assigning
    rw [taken,← spawned]
    simp [World.move,queued,World.start]
    rfl
  have batch : (assigning.db.rows .deliveryBatch 0).map (fun (k : DeliveryBatch) => k.delivererId) = some none := by decide +kernel
  obtain ⟨k,at_batch,unclaimed⟩ := Option.map_eq_some_iff.mp batch
  have read : ((batchOrders village assigning.db 0).head?.any fun first =>
      first.2.vendorLat.isSome && first.2.vendorLng.isSome) = true := by decide +kernel
  cases orders : batchOrders village assigning.db 0 with
  | nil => rw [orders] at read; cases read
  | cons first rest =>
    rw [orders,List.head?_cons,Option.any_some,Bool.and_eq_true] at read
    obtain ⟨lat,at_lat⟩ := Option.isSome_iff_exists.mp read.1
    obtain ⟨lng,at_lng⟩ := Option.isSome_iff_exists.mp read.2
    obtain ⟨_,d,nearest,run,_⟩ := nearest_assigned streets at_head at_batch unclaimed orders at_lat at_lng
      (by decide +kernel) drivenOff drivenOff
    exact ⟨0,first,rest,lat,lng,d,nearest,run⟩

end MesyafMarket
