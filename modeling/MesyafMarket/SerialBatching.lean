import MesyafMarket.MarkingReady

namespace MesyafMarket
open Relational OrderService

-- Runs of vendorMarkReady alone: process `p` serves the order and the user of
-- `request p`, and no batch is closed.
def MarksReady (request : Nat → Nat × Nat) (s : MarketSessions) : MarketAct → Bool
  | .spawn (.vendorMarkReady orderId userId) => (orderId,userId) = request s.sys.spawned
  | .step p _ => match (s.sys.threads p).map Thread.state with
    | some (.closeBatch ..) => false
    | _ => true
  | .lose _ | .duplicate _ | .clock _ => true
  | _ => false

def Unclosing (x : Proc) : Prop := ∀ b caller, x ≠ .closeBatch b caller

-- Such runs, whatever the statements see.
def freely : Conduct Row Key Proc := ⟨Unclosing,fun _ _ _ => True⟩

theorem batches_freely : Batches freely fun _ _ _ => True :=
  ⟨fun goes => goes _ _ rfl,fun unclosing => unclosing,fun _ => trivial,fun _ _ => trivial⟩

-- What a step's statement sees.
def Seen (sees : Proc → Effect Row Key → Database → Prop) (s : MarketSessions) : MarketAct → Prop
  | .step p _ => ∀ x txn effect next, s.sys.threads p = some (.busy x txn) → txn.prog = .stmt effect next →
      sees x (effect (s.sys.db.apply txn.writes)) (s.sys.db.apply txn.writes)
  | _ => True

theorem seen_freely {s : MarketSessions} : Seen (fun _ _ _ => True) s m := by
  cases m with
  | step p i => exact fun _ _ _ _ _ _ => trivial
  | _ => trivial

theorem marksReady_admits {env : Env} {s : MarketSessions} (marks : MarksReady request s m = true) (seen : Seen sees s m) :
    s.Admits (market env) ⟨Unclosing,sees⟩ (fun p x => x = readyCall request p) (fun p x => Afterwards (request p).1 x) m := by
  cases m with
  | spawn x =>
    cases x with
    | vendorMarkReady orderId userId =>
      simp only [MarksReady,decide_eq_true_eq] at marks
      simp only [Sessions.Admits,readyCall,← marks]
    | _ => cases marks
  | step p i =>
    refine ⟨?_,seen⟩
    intro a found b caller closing
    simp only [MarksReady,found,Option.map_some,closing] at marks
    cases marks
  | work | fail => cases marks
  | lose | duplicate | stop | clock => trivial

section Chains
variable {may : Conduct Row Key Proc} {seen : Nat → Database → Nat → Prop}

-- Calls that succeed one after another, each by itself on what the others have left.
inductive Served (env : Env) (may : Conduct Row Key Proc) (seen : Nat → Database → Nat → Prop)
    (request : Nat → Nat × Nat) (start : Rows Row) : List Nat → Rows Row → Prop where
  | nil : Served env may seen request start [] start
  | snoc (before : Served env may seen request start served rows)
      (alone : Alone (market env) may rows (readyCall request p) (.busy y (.ret z) w h))
      (places : Places env (seen (request p).1) rows (request p).1 orderType b (shown w rows)) :
      Served env may seen request start (served ++ [p]) (shown w rows)

theorem served_standing {env : Env} {db : Database} {rows : Rows Row} (served : Served env may seen request db.rows calls rows) :
    Standing db rows := by
  induction served with
  | nil => exact ⟨fun _ _ => rfl,fun _ => rfl⟩
  | snoc _ _ places ih => exact standing_places ih places

theorem served_of_serial {env : Env} {db : Database} {done : List (Nat × Proc × Proc)} (conduct : Batches may seen)
    (serial : Serial (market env) may db.rows units rows) (parts : units = done.map Prod.snd)
    (worked : ∀ u ∈ done, u.2.1 = readyCall request u.1 ∨ Afterwards (request u.1).1 u.2.1) :
    Served env may seen request db.rows (done.map Prod.fst) rows := by
  induction serial generalizing done with
  | nil =>
    cases done with
    | nil => exact .nil
    | cons => cases parts
  | snoc before alone ih =>
    obtain ⟨earlier,last,cut,at_earlier,at_last⟩ := List.map_eq_append_iff.mp parts.symm
    obtain ⟨u,others,at_cut,at_unit,none⟩ := List.map_eq_cons_iff.mp at_last
    rw [List.map_eq_nil_iff] at none
    subst cut at_cut none
    have served := ih at_earlier.symm fun u member => worked u (List.mem_append_left _ member)
    rw [List.map_append]
    rcases worked u (List.mem_append_right _ List.mem_cons_self) with called | afterwards
    · rw [at_unit] at called
      dsimp only at called
      subst called
      obtain ⟨c,orderType,b,_,places,_⟩ := call_commits conduct (served_standing served) alone
      exact .snoc served alone places
    · rw [at_unit] at afterwards
      obtain ⟨y,same,_⟩ := alone_afterwards conduct afterwards alone
      cases same

-- The order of a call that has succeeded is ready, in a batch that is still open.
def InBatch (rows : Rows Row) (o : Nat) : Prop :=
  ∃ r b k, rows .order o = some r ∧ r.status = .readyForDelivery ∧ r.deliveryBatchId = some b ∧
    rows .deliveryBatch b = some k ∧ k.status = .pending

theorem finds_open {env : Env} {v : Database} (finds : Finds env known v order b batches) :
    (∃ k, batches b = some k ∧ k.status = .pending) ∧
      ∀ b' k, v.rows .deliveryBatch b' = some k → batches b' = some k := by
  cases finds with
  | oldest eligible _ still =>
    rw [still]
    exact ⟨⟨_,eligible.1,eligible.2.1⟩,fun _ _ found => found⟩
  | new _ fresh created =>
    rw [created]
    refine ⟨⟨_,Function.update_self ..,rfl⟩,?_⟩
    intro b' k found
    have apart : b' ≠ b := by
      intro same
      rw [same,fresh] at found
      cases found
    rw [Function.update_of_ne apart]
    exact found

theorem places_inBatch {env : Env} {rows rows' : Rows Row} (places : Places env known rows o orderType b rows') :
    InBatch rows' o ∧ ∀ o', InBatch rows o' → o' ≠ o ∧ InBatch rows' o' := by
  obtain ⟨r,now,found,hit,order,v,shows,finds⟩ := places.order
  obtain ⟨⟨k,at_batch,pending⟩,kept⟩ := finds_open finds
  have batches : v.rows .deliveryBatch = rows .deliveryBatch := by
    rw [shows]
    exact Function.update_of_ne (by decide) ..
  refine ⟨⟨_,b,k,by rw [order]; exact Function.update_self ..,rfl,rfl,at_batch,pending⟩,?_⟩
  intro o' ⟨r',b',k',found',ready,inBatch,at_batch',pending'⟩
  have apart : o' ≠ o := by
    intro same
    rw [same,found] at found'
    cases found'
    rw [ready] at hit
    exact absurd hit (by decide)
  refine ⟨apart,r',b',k',?_,ready,inBatch,kept b' k' (by rw [batches]; exact at_batch'),pending'⟩
  rw [order,Function.update_of_ne apart]
  exact found'

theorem served_once {env : Env} {rows : Rows Row} (served : Served env may seen request start calls rows) :
    (calls.map fun p => (request p).1).Nodup ∧ ∀ p ∈ calls, InBatch rows (request p).1 := by
  induction served with
  | nil => exact ⟨List.nodup_nil,nofun⟩
  | snoc before alone places ih =>
    obtain ⟨distinct,batched⟩ := ih
    obtain ⟨new,kept⟩ := places_inBatch places
    constructor
    · rw [List.map_append,List.nodup_append]
      refine ⟨distinct,List.nodup_singleton _,?_⟩
      intro o earlier o' last same
      obtain ⟨p,member,at_p⟩ := List.mem_map.mp earlier
      rw [List.map_singleton,List.mem_singleton] at last
      subst last
      exact (kept _ (batched p member)).1 (at_p.trans same)
    · intro p member
      rcases List.mem_append.mp member with earlier | last
      · exact (kept _ (batched p earlier)).2
      · rw [List.mem_singleton.mp last]
        exact new

theorem served_aside {env : Env} {rows : Rows Row} (served : Served env may seen request start calls rows)
    (unserved : ∀ p ∈ calls, (request p).1 ≠ o) : rows .order o = start .order o := by
  induction served with
  | nil => rfl
  | snoc before alone places ih =>
    obtain ⟨r,now,_,_,order,_⟩ := places.order
    rw [order,Function.update_of_ne (Ne.symm (unserved _ (List.mem_append_right _ (List.mem_singleton.mpr rfl))))]
    exact ih fun p member => unserved p (List.mem_append_left _ member)

-- The runs as a whole: the calls that have succeeded, and where each call is.
theorem served_run (env : Env) (db : Database) (request : Nat → Nat × Nat) (conduct : Batches may seen) (moves : List MarketAct)
    (admits : ∀ made ∈ (Sessions.open db).trace (market env) moves, made.1.Admits (market env) may
      (fun p x => x = readyCall request p) (fun p x => Afterwards (request p).1 x) made.2) :
    Served env may seen request db.rows ((Sessions.open db).committed (market env) moves)
      ((Sessions.open db).run (market env) moves).sys.db.rows ∧
    ((Sessions.open db).committed (market env) moves).Sublist
      ((Sessions.open db).acquired (market env) (.key .batchLock) moves) ∧
    ∀ p a, ((Sessions.open db).run (market env) moves).sys.threads p = some a →
      (p ∈ (Sessions.open db).committed (market env) moves ∧ ∃ y, a.stage = .idle y ∧ Afterwards (request p).1 y) ∨
      (p ∉ (Sessions.open db).committed (market env) moves ∧
        Calling env db ((Sessions.open db).run (market env) moves).sys.db.rows (request p).1 (request p).2 a.stage) := by
  have sound := calls_restart env db request conduct
  have standing : Standing db db.rows := ⟨fun _ _ => rfl,fun _ => rfl⟩
  obtain ⟨done,valid,log⟩ := Sessions.serially_run sound standing moves admits
  have served := served_of_serial conduct valid.serial rfl fun u member => (valid.worked u member).1
  rw [log] at served
  refine ⟨served,?_,?_⟩
  · refine (Sessions.acquired_order sound standing ?_ moves admits).1
    intro v p x y z w h known works alone
    rcases works with called | afterwards
    · subst called
      obtain ⟨_,_,_,_,_,_,_,held⟩ := call_commits conduct known alone
      exact held
    · obtain ⟨y,same,_⟩ := alone_afterwards conduct afterwards alone
      cases same
  · intro p a found
    obtain ⟨x,⟨first,later⟩,alone⟩ := valid.alone p a found
    rw [log] at first later
    by_cases success : p ∈ (Sessions.open db).committed (market env) moves
    · obtain ⟨y,same,afterwards,_⟩ := alone_afterwards conduct (later success) alone
      exact .inl ⟨success,y,same,afterwards⟩
    · have called := first success
      subst called
      exact .inr ⟨success,alone_calling valid.inv alone⟩

end Chains

-- What the calls of a run come to.
structure BatchesSerially (env : Env) (request : Nat → Nat × Nat) (db : Database) (moves : List MarketAct) : Prop where
  served : Served env freely (fun _ _ _ => True) request db.rows ((Sessions.open db).committed (market env) moves)
    ((Sessions.open db).run (market env) moves).sys.db.rows
  ordered : ((Sessions.open db).committed (market env) moves).Sublist
    ((Sessions.open db).acquired (market env) (.key .batchLock) moves)
  once : (((Sessions.open db).committed (market env) moves).map fun p => (request p).1).Nodup
  batched : ∀ p ∈ (Sessions.open db).committed (market env) moves,
    InBatch ((Sessions.open db).run (market env) moves).sys.db.rows (request p).1
  still : ∀ made ∈ (Sessions.open db).trace (market env) moves, made.1.commits made.2 = none →
    (made.1.move (market env) made.2).sys.db.rows = made.1.sys.db.rows
  answered : ∀ p reply c orderType, Legit db (request p).1 (request p).2 c orderType →
    ((Sessions.open db).run (market env) moves).sys.threads p = some (.idle (.returned reply)) →
    (p ∈ (Sessions.open db).committed (market env) moves ∧ reply = .order (request p).1) ∨
    (p ∉ (Sessions.open db).committed (market env) moves ∧
      reply = .thrown (.conflict "Order was already marked ready or cannot be marked ready") ∧
      ∃ q ∈ (Sessions.open db).committed (market env) moves, (request q).1 = (request p).1)

theorem batching_serializable {env : Env} {db : Database} {request : Nat → Nat × Nat}
    (readyable : ∀ i r, db.rows .order i = some r → r.status ∈ READYABLE_STATUSES) (moves : List MarketAct)
    (marks : ∀ made ∈ (Sessions.open db).trace (market env) moves, MarksReady request made.1 made.2 = true) :
    BatchesSerially env request db moves := by
  obtain ⟨served,ordered,stages⟩ := served_run env db request batches_freely moves
    fun made member => marksReady_admits (marks made member) seen_freely
  obtain ⟨once,batched⟩ := served_once served
  refine ⟨served,ordered,once,batched,fun made _ => Sessions.rows_still,?_⟩
  intro p reply c orderType legit ended
  rcases stages p _ ended with ⟨success,y,same,afterwards⟩ | ⟨failed,calling⟩
  · cases same
    cases afterwards
    exact .inl ⟨success,rfl⟩
  · generalize at_stage : Thread.stage _ = stage at calling
    cases calling with
    | refused answer =>
      rw [legit] at answer
      cases answer
    | conflict _ decided =>
      cases at_stage
      refine .inr ⟨failed,rfl,?_⟩
      by_contra unserved
      have aside : _ = db.rows .order (request p).1 :=
        served_aside served fun q member same => unserved ⟨q,member,same⟩
      unfold Legit Proc.readyOrder at legit
      split at legit
      · cases legit
      · rename_i r found
        exact decided r (aside.trans found) (readyable _ r found)
    | _ => cases at_stage

-- Two orders of one shop; the second is claimed after the first and locks the
-- batches before it. A second call for the first order comes too late.
def acceptedOrder : Order :=
  ⟨0,0,.vendorAccepted,.empty,none,none,none,0,none,none,none,none,some 0,some 0,none,some 0,some 0⟩

def rushRows : (t : Tab) → List (Row t)
  | .order => [acceptedOrder,acceptedOrder]
  | t => villageRows t

def rush : Database := (premises rushRows).db

def rushRequest (p : Nat) : Nat × Nat := if p = 1 then (1,1) else (0,1)

def goesOn (p n : Nat) : List MarketAct := List.replicate n (.step p fun _ => none)

def rushMoves : List MarketAct :=
  [.spawn (.vendorMarkReady 0 1),.spawn (.vendorMarkReady 1 1),.spawn (.vendorMarkReady 0 1)] ++ goesOn 0 4 ++
    [.clock 7] ++ goesOn 2 4 ++ goesOn 1 16 ++ goesOn 0 12 ++ goesOn 2 2

theorem batching_serializable_rush : BatchesSerially village rushRequest rush rushMoves ∧
    (Sessions.open rush).committed (market village) rushMoves = [1,0] := by
  refine ⟨batching_serializable ?_ rushMoves (by decide +kernel),by decide +kernel⟩
  intro i r found
  have member : r ∈ rushRows .order := List.mem_of_getElem? found
  simp only [rushRows,List.mem_cons,List.not_mem_nil,or_false,or_self] at member
  rw [member]
  decide

end MesyafMarket
