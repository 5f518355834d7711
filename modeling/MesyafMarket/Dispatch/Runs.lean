import Mathlib.Algebra.Field.Rat
import Mathlib.Algebra.Order.Ring.Rat
import MesyafMarket.Dispatch.Locals

namespace MesyafMarket
open Relational DelivererAssignmentService DelivererRecoveryService

abbrev Market := World Row QueueJob Proc
abbrev MarketMove := Move (Nat → Option Point) Proc

-- Processes are started by requests, messages and timers only.
def Admitted (_ : Market) : MarketMove → Prop
  | .spawn x => Entry x
  | _ => True

-- Before the first order: accounts and catalog are arbitrary, and nobody delivers.
structure Opening (w : Market) : Prop where
  threads : ∀ p, w.threads p = none
  queue : w.queue = []
  order : ∀ i, (dispatch w.db).order i = none
  job : ∀ i, (dispatch w.db).job i = none
  batch : ∀ i, (dispatch w.db).batch i = none
  stop : ∀ i, (dispatch w.db).stop i = none
  free : ∀ i p, (dispatch w.db).deliverer i = some p → p.activeJobId = none

-- A process starts without locals.
structure Fresh (x : Proc) : Prop where
  pending : x.pending = []
  reading : x.reading = none
  considered : x.considered = []
  formed : x.Formed

theorem fresh_entry (entry : Entry x) : Fresh x := by
  cases entry <;> exact ⟨rfl,rfl,rfl,trivial⟩

theorem fresh_worker {env : Env} (task : QueueJob) : Fresh ((market env).worker task) := by
  cases task <;> exact ⟨rfl,rfl,rfl,trivial⟩

-- What processes may rely on about the locals they carry, at the time `now` and
-- over the committed rows.
structure LocalFacts where
  stale : StaleDeliverer → Nat → Dispatch → Prop
  orders : Nat → List (Nat × Order) → Dispatch → Prop
  candidate : Nat → Dispatch → Prop

structure LocalFacts.Of (F : LocalFacts) (x : Proc) (now : Nat) (c : Dispatch) : Prop where
  formed : x.Formed
  apart : (x.pending.map StaleDeliverer.id).Nodup
  stale : ∀ s ∈ x.pending, F.stale s now c
  orders : ∀ b orders, x.reading = some (b,orders) → F.orders b orders c
  candidate : ∀ d ∈ x.considered, F.candidate d c

variable {F : LocalFacts}

theorem facts_carried (known : F.Of x now c) (carries : Carries x y) : F.Of y now c := by
  refine ⟨carries.formed,known.apart.sublist (carries.pending.map _),
    fun s member => known.stale s (carries.pending.mem member),?_,
    fun d member => known.candidate d (carries.considered d member)⟩
  intro b orders reading
  rcases carries.reading with none | same
  · rw [none] at reading; cases reading
  · rw [same] at reading; exact known.orders b orders reading

theorem facts_fresh (fresh : Fresh x) : F.Of x now c := by
  refine ⟨fresh.formed,by rw [fresh.pending]; exact .nil,by rw [fresh.pending]; exact nofun,?_,?_⟩
  · intro b orders reading; rw [fresh.reading] at reading; cases reading
  · intro d member; rw [fresh.considered] at member; cases member

theorem facts_resumed (resumes : Resumes rest y) (apart : (rest.map StaleDeliverer.id).Nodup)
    (known : ∀ s ∈ rest, F.stale s now c) : F.Of y now c := by
  refine ⟨resumes.formed,apart.sublist (resumes.pending.map _),fun s member => known s (resumes.pending.mem member),
    ?_,?_⟩
  · intro b orders reading; rw [resumes.reading] at reading; cases reading
  · intro d member; rw [resumes.considered] at member; cases member

def Market.Holds (inv : Dispatch → Prop) (F : LocalFacts) (w : Market) : Prop :=
  World.Holds (fun db => inv (dispatch db)) (fun x db => F.Of x db.clock (dispatch db)) (fun _ _ => True) w

theorem staleDeliverer_id (found : staleDeliverer v d = some s) : s.id = d.1 := by
  unfold staleDeliverer at found
  split at found
  · split at found
    · split at found
      · cases found; rfl
      · cases found
    · cases found
  · cases found

theorem staleDeliverers_nodup {env : Env} (v : Database) :
    ((staleDeliverers env v).map StaleDeliverer.id).Nodup := by
  have keys : ((env.scan v (v.all .delivererProfile)).map Prod.fst).Nodup :=
    ((env.scan_perm v _).map Prod.fst).nodup_iff.mpr (v.all_keys_nodup _)
  unfold staleDeliverers
  generalize env.scan v (v.all .delivererProfile) = rows at keys
  refine keys.sublist ?_
  clear keys
  induction rows with
  | nil => exact .refl _
  | cons d rest ih =>
    rw [List.filterMap_cons]
    split
    · exact ih.cons _
    · rename_i s found
      simp only [List.map_cons,staleDeliverer_id found]
      exact ih.cons_cons _

-- The process whose transaction a move commits.
def commits (env : Env) (w : Market) : MarketMove → Option Proc
  | .step p _ => (w.threads p).bind fun x => match Proc.next env x with
    | .tx body => match body.run w.db with
      | .ok _ => some x
      | .error _ => none
    | _ => none
  | _ => none

theorem commits_of {env : Env} {w : Market} (found : w.threads p = some x) (at_tx : Proc.next env x = .tx body)
    (ran : body.run w.db = .ok r) : commits env w (.step p i) = some x := by
  simp only [commits,found,Option.bind_some,at_tx,ran]

-- What has to be shown of an invariant and its local facts: the three reads that
-- bring locals establish them, and every commit keeps them for every process.
structure Kept (env : Env) (inv : Dispatch → Prop) (F : LocalFacts)
    (may : Market → MarketMove → Prop) : Prop where
  admitted : ∀ w m, may w m → Admitted w m
  later : ∀ s now ms c, F.stale s now c → F.stale s (now+ms) c
  snapshot : ∀ v s, inv (dispatch v) → s ∈ staleDeliverers env v → F.stale s v.clock (dispatch v)
  read : ∀ (v : Database) b, inv (dispatch v) → F.orders b (batchOrders env v b) (dispatch v)
  available : ∀ v d, d ∈ availableDeliverers env v → F.candidate d.1 (dispatch v)
  commit : ∀ (w : Market) p i x y c, Market.Holds inv F w → w.threads p = some x → may w (.step p i) →
    commits env w (.step p i) = some x → Committed w.db.clock x (dispatch w.db) y c → inv c
  stale : ∀ (w : Market) p i x y c, Market.Holds inv F w → w.threads p = some x → may w (.step p i) →
    commits env w (.step p i) = some x → Committed w.db.clock x (dispatch w.db) y c →
    ∀ q z s, w.threads q = some z → s ∈ z.pending → (q = p → s ∈ y.pending) →
      F.stale s w.db.clock (dispatch w.db) → F.stale s w.db.clock c
  orders : ∀ (w : Market) p i x y c b orders, Market.Holds inv F w → w.threads p = some x →
    may w (.step p i) → commits env w (.step p i) = some x → Committed w.db.clock x (dispatch w.db) y c →
    F.orders b orders (dispatch w.db) → F.orders b orders c
  candidate : ∀ (w : Market) p i x y c d, Market.Holds inv F w → w.threads p = some x →
    may w (.step p i) → commits env w (.step p i) = some x → Committed w.db.clock x (dispatch w.db) y c →
    F.candidate d (dispatch w.db) → F.candidate d c

theorem sound_of_kept {env : Env} {inv : Dispatch → Prop} {may : Market → MarketMove → Prop}
    (kept : Kept env inv F may) :
    Sound (market env) (fun db => inv (dispatch db)) (fun x db => F.Of x db.clock (dispatch db))
      (fun _ _ => True) may where
  spawn w x _ allowed := facts_fresh (fresh_entry (kept.admitted w _ allowed))
  work w task _ _ := facts_fresh (fresh_worker task)
  query w p x read valid found at_query := by
    have known := valid.fact p x found
    have asked := queried at_query w.db
    generalize read w.db = y at asked ⊢
    cases asked with
    | carries carries => exact facts_carried known carries
    | snapshot =>
      exact facts_resumed (resumes_sweepNext _) (staleDeliverers_nodup w.db) fun s => kept.snapshot w.db s valid.inv
    | @batch b caller k first others lat lng at_assign _ _ orders =>
      subst x
      refine ⟨trivial,known.apart,known.stale,?_,fun d member => absurd member List.not_mem_nil⟩
      intro b' orders' reading
      cases reading
      rw [← orders]
      exact kept.read w.db b valid.inv
    | @candidates b orders lat lng caller at_read =>
      subst x
      refine ⟨trivial,known.apart,known.stale,known.orders,?_⟩
      intro d member
      obtain ⟨e,at_e,same⟩ := List.mem_map.mp member
      rw [← same]
      exact kept.available w.db e at_e
  input x db read i known at_input := facts_carried known (carries_input at_input)
  add x db task next _ known at_add := ⟨facts_carried known (carries_add at_add),trivial⟩
  emit x db note next known at_emit := facts_carried known (carries_emit at_emit)
  caught x db e known := facts_carried known (carries_caught x e)
  commit w p x body i y db valid found allowed at_tx ran := by
    have commit := committed at_tx ran
    have hit := commits_of (i := i) found at_tx ran
    have clock : db.clock = w.db.clock := run_clock ran
    have carries := carries_commit commit
    have others : ∀ q z, w.threads q = some z → F.Of z w.db.clock (dispatch w.db) := valid.fact
    have own := others p x found
    refine ⟨kept.commit w p i x y _ valid found allowed hit commit,?_,?_,fun _ _ => trivial⟩
    · rw [clock]
      refine ⟨carries.formed,own.apart.sublist (carries.pending.map _),?_,?_,?_⟩
      · intro s member
        have before := carries.pending.mem member
        exact kept.stale w p i x y _ valid found allowed hit commit p x s found before (fun _ => member)
          (own.stale s before)
      · intro b orders reading
        refine kept.orders w p i x y _ b orders valid found allowed hit commit ?_
        exact (facts_carried own carries).orders b orders reading
      · intro d member
        refine kept.candidate w p i x y _ d valid found allowed hit commit ?_
        exact (facts_carried own carries).candidate d member
    · intro q z apart atQ
      have known := others q z atQ
      rw [clock]
      exact ⟨known.formed,known.apart,
        fun s member => kept.stale w p i x y _ valid found allowed hit commit q z s atQ member
          (fun same => absurd same apart) (known.stale s member),
        fun b orders reading => kept.orders w p i x y _ b orders valid found allowed hit commit
          (known.orders b orders reading),
        fun d member => kept.candidate w p i x y _ d valid found allowed hit commit (known.candidate d member)⟩
  tick w ms valid := by
    refine ⟨valid.inv,?_,fun _ _ => trivial⟩
    intro p x found
    have known := valid.fact p x found
    exact ⟨known.formed,known.apart,fun s member => kept.later s _ ms _ (known.stale s member),known.orders,known.candidate⟩

theorem kept_reached {env : Env} {inv : Dispatch → Prop} {may : Market → MarketMove → Prop}
    (kept : Kept env inv F may) (opening : Opening start) (initial : inv (dispatch start.db))
    (path : Reached (market env) may start w) : Market.Holds inv F w := by
  refine holds_reached (sound_of_kept kept) ⟨initial,?_,fun _ _ => trivial⟩ path
  intro p x found
  rw [opening.threads p] at found
  cases found

-- The rows that a move changes are those of one commit, if it changes any.
inductive Moved (env : Env) (w : Market) : MarketMove → Dispatch → Prop where
  | still : Moved env w m (dispatch w.db)
  | commit (found : w.threads p = some x) (commit : Committed w.db.clock x (dispatch w.db) y c) :
      Moved env w (.step p i) c

theorem moved (env : Env) (w : Market) (m : MarketMove) :
    Moved env w m (dispatch (w.move (market env) m).db) := by
  cases m with
  | step p i =>
    unfold World.move
    dsimp only
    split
    · rename_i x found
      unfold World.instr
      split
      · exact .still
      · rename_i body at_tx
        split
        · rename_i y db ran
          exact .commit found (committed at_tx ran)
        · exact .still
      · exact .still
      · exact .still
      · exact .still
      · exact .still
    · exact .still
  | work n => unfold World.move; dsimp only; split <;> exact .still
  | duplicate n => unfold World.move; dsimp only; split <;> exact .still
  | fail p => unfold World.move; dsimp only; split <;> exact .still
  | tick ms => exact .still
  | spawn | lose | stop => exact .still

section Steps
variable {env : Env} {w : Market}

theorem step_query {read : Database → Proc} (found : w.threads p = some x)
    (at_query : Proc.next env x = .query read) :
    w.move (market env) (.step p i) = w.goto p (read w.db) ∧ commits env w (.step p i) = none := by
  have next : (market env).next x = .query read := at_query
  simp only [World.move,found,World.instr,next,commits,Option.bind_some,at_query,and_self]

theorem step_input {read : (Nat → Option Point) → Proc} (found : w.threads p = some x)
    (at_input : Proc.next env x = .input read) :
    w.move (market env) (.step p i) = w.goto p (read i) ∧ commits env w (.step p i) = none := by
  have next : (market env).next x = .input read := at_input
  simp only [World.move,found,World.instr,next,commits,Option.bind_some,at_input,and_self]

theorem step_add (found : w.threads p = some x) (at_add : Proc.next env x = .add task y) :
    w.move (market env) (.step p i) = {w.goto p y with queue := w.queue ++ [task]} ∧
      commits env w (.step p i) = none := by
  have next : (market env).next x = .add task y := at_add
  simp only [World.move,found,World.instr,next,commits,Option.bind_some,at_add,and_self]

theorem step_emit (found : w.threads p = some x) (at_emit : Proc.next env x = .emit note y) :
    w.move (market env) (.step p i) = w.goto p y ∧ commits env w (.step p i) = none := by
  have next : (market env).next x = .emit note y := at_emit
  simp only [World.move,found,World.instr,next,commits,Option.bind_some,at_emit,and_self]

theorem step_done (found : w.threads p = some x) (at_end : Proc.next env x = .done) :
    w.move (market env) (.step p i) = w ∧ commits env w (.step p i) = none := by
  have next : (market env).next x = .done := at_end
  simp only [World.move,found,World.instr,next,commits,Option.bind_some,at_end,and_self]

theorem step_tx (found : w.threads p = some x) (at_tx : Proc.next env x = .tx body) :
    (∃ y db, body.run w.db = .ok (y,db) ∧ w.move (market env) (.step p i) = {w.goto p y with db := db} ∧
      commits env w (.step p i) = some x) ∨
    ∃ e, w.move (market env) (.step p i) = w.goto p (x.caught e) ∧ commits env w (.step p i) = none := by
  have next : (market env).next x = .tx body := at_tx
  cases ran : body.run w.db with
  | ok r =>
    refine .inl ⟨r.1,r.2,rfl,?_,commits_of found at_tx ran⟩
    simp only [World.move,found,World.instr,next,ran]
  | error e =>
    refine .inr ⟨e,?_,?_⟩
    · simp only [World.move,found,World.instr,next,ran]; rfl
    · simp only [commits,found,Option.bind_some,at_tx,ran]

end Steps

theorem commits_parts {env : Env} {w : Market} (hit : commits env w m = some x) :
    ∃ p i y, m = .step p i ∧ w.threads p = some x ∧
      Committed w.db.clock x (dispatch w.db) y (dispatch (w.move (market env) m).db) := by
  cases m with
  | step p i =>
    simp only [commits] at hit
    obtain ⟨z,found,hit⟩ := Option.bind_eq_some_iff.mp hit
    split at hit
    · rename_i body at_tx
      split at hit
      · rename_i r ran
        cases hit
        have same : (w.move (market env) (.step p i)).db = r.2 := by
          have next : (market env).next x = .tx body := at_tx
          simp only [World.move,found,World.instr]
          rw [next]
          simp only [ran]
        refine ⟨p,i,r.1,rfl,found,?_⟩
        rw [same]
        exact committed at_tx ran
      · cases hit
    · cases hit
  | _ => cases hit

theorem flows_kind {env : Env} (flows : Flows (market env) v v' x y) : y.kind = .request ∨ y.kind = x.kind := by
  cases flows with
  | query at_query still => exact queried_kind (queried at_query v)
  | commit at_tx ran => exact (carries_commit (committed at_tx ran)).kind
  | caught => exact (carries_caught x _).kind
  | input at_input still => exact (carries_input at_input).kind
  | add at_add still => exact (carries_add at_add).kind
  | emit at_emit still => exact (carries_emit at_emit).kind

-- A process of a kind other than a request's was started as one of that kind.
theorem kind_move {env : Env} (w : Market) (m : MarketMove)
    (found : (w.move (market env) m).threads q = some z) (kind : z.kind ≠ .request) :
    (∃ x, w.threads q = some x ∧ x.kind = z.kind) ∨ (q = w.spawned ∧ m = .spawn z) := by
  rcases thread_parts (market env) w m found with before | ⟨x,at_q,flows⟩ | ⟨last,_,spawned | ⟨task,_,worker⟩⟩
  · exact .inl ⟨z,before,rfl⟩
  · rcases flows_kind flows with request | same
    · exact absurd request kind
    · exact .inl ⟨x,at_q,same.symm⟩
  · exact .inr ⟨last,spawned⟩
  · subst worker
    cases task <;> exact absurd rfl kind

-- A condition on commits, at the rows that each of them finds.
def Guarded (P : Proc → Dispatch → Prop) (w : Market) (m : MarketMove) : Prop :=
  ∀ p i x, m = .step p i → w.threads p = some x → P x (dispatch w.db)

def Sweeping (w : Market) (p : Nat) : Prop := ∃ x, w.threads p = some x ∧ x.kind = .sweep

theorem pending_sweep (x : Proc) (member : s ∈ x.pending) : x.kind = .sweep := by
  cases x with
  | recordEvent _ caller => cases caller <;> first | rfl | cases member
  | projectEvent _ _ caller => cases caller <;> first | rfl | cases member
  | assignDelivererToBatch _ caller => cases caller <;> first | rfl | cases member
  | readCandidates _ _ _ _ caller => cases caller <;> first | rfl | cases member
  | readPositions _ _ _ _ _ caller => cases caller <;> first | rfl | cases member
  | readMissing _ _ _ _ _ _ caller => cases caller <;> first | rfl | cases member
  | assign _ _ _ caller => cases caller <;> first | rfl | cases member
  | notifyAssigned _ _ _ _ caller => cases caller <;> first | rfl | cases member
  | notifyCustomers _ _ _ caller => cases caller <;> first | rfl | cases member
  | recoverUnstartedJob | escalateStartedJob | notifyIssue => rfl
  | _ => cases member

-- No sweep starts while another one is still handling its snapshot.
def Apart (w : Market) : MarketMove → Prop
  | .spawn .checkDeliverers => ∀ p, ¬Sweeping w p
  | _ => True

def Unremoved (_ : Market) : MarketMove → Prop
  | .spawn (.removeDeliverer _) => False
  | _ => True

theorem one_sweep_move {env : Env} {w : Market} (admitted : Admitted w m) (apart : Apart w m)
    (one : ∀ p q, Sweeping w p → Sweeping w q → p = q) (atP : Sweeping (w.move (market env) m) p)
    (atQ : Sweeping (w.move (market env) m) q) : p = q := by
  have origin : ∀ p, Sweeping (w.move (market env) m) p → Sweeping w p ∨
      (p = w.spawned ∧ ∀ q, ¬Sweeping w q) := by
    rintro p ⟨z,found,sweep⟩
    rcases kind_move w m found (by rw [sweep]; exact nofun) with ⟨x,before,same⟩ | ⟨new,rfl⟩
    · exact .inl ⟨x,before,same.trans sweep⟩
    · cases admitted with
      | checkDeliverers => exact .inr ⟨new,apart⟩
      | _ => cases sweep
  rcases origin p atP with beforeP | ⟨newP,noneP⟩
  · rcases origin q atQ with beforeQ | ⟨_,noneQ⟩
    · exact one p q beforeP beforeQ
    · exact absurd beforeP (noneQ p)
  · rcases origin q atQ with beforeQ | ⟨newQ,_⟩
    · exact absurd beforeQ (noneP q)
    · rw [newP,newQ]

theorem one_sweep {env : Env} {may : Market → MarketMove → Prop} (apart : ∀ w m, may w m → Apart w m)
    (admitted : ∀ w m, may w m → Admitted w m) (opening : Opening start) (path : Reached (market env) may start w) :
    ∀ p q, Sweeping w p → Sweeping w q → p = q := by
  induction path with
  | refl =>
    rintro p q ⟨x,found,_⟩ _
    rw [opening.threads p] at found; cases found
  | step _ allowed ih => exact fun p q => one_sweep_move (admitted _ _ allowed) (apart _ _ allowed) ih

theorem no_removal_move {env : Env} {w : Market} (admitted : Admitted w m) (unremoved : Unremoved w m)
    (none : ∀ p x, w.threads p = some x → x.kind ≠ .removal)
    (found : (w.move (market env) m).threads p = some z) : z.kind ≠ .removal := by
  intro removal
  rcases kind_move w m found (by rw [removal]; exact nofun) with ⟨x,before,same⟩ | ⟨_,rfl⟩
  · exact none p x before (same.trans removal)
  · cases admitted with
    | removeDeliverer => exact unremoved
    | _ => cases removal

theorem no_removal {env : Env} {may : Market → MarketMove → Prop} (unremoved : ∀ w m, may w m → Unremoved w m)
    (admitted : ∀ w m, may w m → Admitted w m) (opening : Opening start) (path : Reached (market env) may start w) :
    ∀ p x, w.threads p = some x → x.kind ≠ .removal := by
  induction path with
  | refl =>
    intro p x found
    rw [opening.threads p] at found; cases found
  | step _ allowed ih => exact fun p z => no_removal_move (admitted _ _ allowed) (unremoved _ _ allowed) ih

-- One shop, one customer and two deliverers at one place, where every distance is
-- 0, with the default configuration.
def village : Env where
  checkBatchEligibility := OrderService.checkBatchEligibility (fun _ _ => (0 : Rat)) false (OrderService.rules none)
  WINDOW_MIN := (OrderService.rules (K := Rat) none).WINDOW_MIN
  findClosestDeliverer := findClosestDeliverer fun _ _ => .km (0 : Rat)
  scan _ rows := rows
  scan_perm _ _ := .refl _
  closest_mem _ _ _ _ chosen := findClosestDeliverer_mem _ chosen

def villageRows : (t : Tab) → List (Row t)
  | .user => [⟨.customer,none,false⟩,⟨.vendor,none,false⟩,⟨.deliverer,some 0,true⟩,⟨.deliverer,some 0,true⟩]
  | .vendorProfile => [⟨1,some 0,some 0,true,true⟩]
  | .delivererProfile => [⟨2,some 0,some 0,true,none⟩,⟨3,some 0,some 0,true,none⟩]
  | _ => []

def morning : Market where
  db := ⟨fun t i => (villageRows t)[i]?,fun t => (villageRows t).length,0,fun _ _ above => List.getElem?_eq_none above⟩
  threads _ := none
  spawned := 0
  queue := []

theorem opening_morning : Opening morning := by
  refine ⟨fun _ => rfl,rfl,fun _ => rfl,fun _ => rfl,fun _ => rfl,fun _ => rfl,?_⟩
  intro i p found
  have member : p ∈ villageRows .delivererProfile := List.mem_of_getElem? found
  simp only [villageRows,List.mem_cons,List.not_mem_nil,or_false] at member
  rcases member with rfl | rfl <;> rfl

-- The same before the first order, whatever accounts and catalog there are.
def premises (rows : (t : Tab) → List (Row t)) : Market where
  db := ⟨fun t i => (rows t)[i]?,fun t => (rows t).length,0,fun _ _ above => List.getElem?_eq_none above⟩
  threads _ := none
  spawned := 0
  queue := []

theorem opening_premises {rows : (t : Tab) → List (Row t)} (order : rows .order = []) (job : rows .deliveryJob = [])
    (batch : rows .deliveryBatch = []) (stop : rows .deliveryDropOff = [])
    (free : ∀ p ∈ rows .delivererProfile, DelivererProfile.activeJobId p = none) : Opening (premises rows) := by
  refine ⟨fun _ => rfl,rfl,?_,?_,?_,?_,?_⟩
  · intro i; simp [dispatch,premises,order]
  · intro i; simp [dispatch,premises,job]
  · intro i; simp [dispatch,premises,batch]
  · intro i; simp [dispatch,premises,stop]
  · intro i p found
    exact free p (List.mem_of_getElem? found)

def steps (p n : Nat) : List MarketMove := List.replicate n (.step p fun _ => none)

def ask (x : Proc) (p n : Nat) : List MarketMove := .spawn x::steps p n

theorem steps_moves {P : MarketMove → Prop} (step : ∀ p i, P (.step p i)) : ∀ m ∈ steps p n, P m := by
  intro m member
  rw [List.eq_of_mem_replicate member]
  exact step _ _

theorem ask_moves {P : MarketMove → Prop} (step : ∀ p i, P (.step p i)) (entry : P (.spawn x)) :
    ∀ m ∈ ask x p n, P m :=
  List.forall_mem_cons.mpr ⟨entry,steps_moves step⟩

def isEntry : Proc → Bool
  | .createOrder .. | .vendorMarkReady .. | .vendorDecide .. | .closeExpiredBatches | .startJob .. => true
  | .completeDropOff .. | .completeJob .. | .flushToDb _ .own | .checkDeliverers | .updateProfile .. => true
  | .markPresence .. | .removeDeliverer _ | .promoteUserToDeliverer _ => true
  | _ => false

theorem isEntry_entry (entry : isEntry x = true) : Entry x := by
  cases x with
  | createOrder | vendorMarkReady | vendorDecide | closeExpiredBatches | startJob => constructor
  | completeDropOff | completeJob | checkDeliverers | updateProfile => constructor
  | markPresence | removeDeliverer | promoteUserToDeliverer => constructor
  | flushToDb d caller => cases caller <;> first | constructor | cases entry
  | _ => cases entry

def enters : MarketMove → Bool
  | .spawn x => isEntry x
  | _ => true

theorem enters_admitted (entry : enters m = true) : Admitted w m := by
  cases m with
  | spawn x => exact isEntry_entry entry
  | _ => exact trivial

theorem admitted_reached {may : Market → MarketMove → Prop} (moves : List MarketMove)
    (enough : ∀ w, ∀ m ∈ moves, Admitted w m → may w m) (entries : moves.all enters = true) :
    Reached (market village) may morning (morning.run (market village) moves) :=
  reached_moves .refl moves fun m member w =>
    enough w m member (enters_admitted (List.all_eq_true.mp entries m member))

-- One order is placed, made ready, its batch closed by the timer, and assigned.
def dispatched : List MarketMove :=
  ask (.createOrder ⟨[],none,some 0,some 0,none,none⟩ 0 0) 0 3 ++ ask (.vendorMarkReady 0 1) 1 5 ++
    .work 0::steps 2 2 ++ .work 0::steps 3 7

theorem dispatched_moves {P : MarketMove → Prop} (step : ∀ p i, P (.step p i)) (work : ∀ n, P (.work n))
    (create : ∀ dto vendorId costumerId, P (.spawn (.createOrder dto vendorId costumerId)))
    (ready : ∀ orderId userId, P (.spawn (.vendorMarkReady orderId userId))) : ∀ m ∈ dispatched, P m := by
  intro m member
  rcases List.mem_append.mp member with member | assigned
  · rcases List.mem_append.mp member with member | closed
    · rcases List.mem_append.mp member with placed | marked
      · exact ask_moves step (create _ _ _) m placed
      · exact ask_moves step (ready _ _) m marked
    · exact List.forall_mem_cons.mpr ⟨work 0,steps_moves step⟩ m closed
  · exact List.forall_mem_cons.mpr ⟨work 0,steps_moves step⟩ m assigned

end MesyafMarket
