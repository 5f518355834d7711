import MesyafMarket.SerialBatching
import MesyafMarket.Dispatch.OrderWaits

namespace MesyafMarket
open Relational OrderService DelivererAssignmentService DelivererJobService DelivererRecoveryService
open VendorService SessionService DelivererService DelivererLocationService AdminService

section Single
variable {x : Proc} {db : Database}

-- A transaction of one statement waits before it holds anything.
theorem safe_single {effect : Database → Effect Row Key} {next : Database → Transaction α} {Q : α → Mark Row Key}
    (linked : Linked Tight (dispatch db))
    (step : ∀ db : Database, Linked Tight (dispatch db) → Drawn db (effect (db.apply .none)) ∧
      ∀ L : MarketLock → Prop, Linked Tight (dispatch (db.apply (effect db).writes)) ∧
        Respects L (dispatch db) (dispatch (db.apply (effect db).writes)))
    (rest : ∀ v h w db, Midway Tight h w db → (next v).Safe locking x Q h w db) :
    (Tx.stmt effect next).Safe locking x Q [] .none db := by
  refine safe_first linked ?_
  intro T db linked sees
  obtain ⟨drawn,links⟩ := step db linked
  rw [Db.apply_none] at drawn
  have same : dispatch ((db.reserve (effect db).writes).apply (effect db).writes) = dispatch (db.apply (effect db).writes) :=
    dispatch_rows rfl
  refine ⟨drawn,rest _ _ _ _ ⟨linked,?_,?_⟩⟩
  · rw [same]; exact (links fun _ => True).1
  · rw [same]; exact (links _).2

theorem safe_singleUpdate {t : Tab} {p : Nat → Row t → Bool} {f : Nat → Row t → Row t} {missing : Err}
    (linked : Linked Tight (dispatch db))
    (links : ∀ db : Database, Linked Tight (dispatch db) → ∀ L : MarketLock → Prop,
      Linked Tight (dispatch (db.apply (db.updates t p (f db.clock)))) ∧
        Respects L (dispatch db) (dispatch (db.apply (db.updates t p (f db.clock))))) :
    (Tx.update t p f missing).Safe locking x (fun _ => Midway Tight) [] .none db := by
  unfold Tx.update
  refine safe_single linked ?_ ?_
  · exact fun db linked => ⟨drawn_updates (by simp),links db linked⟩
  · intro v h w db midway
    split
    · trivial
    · exact midway

theorem safe_closeBatchUpdate (linked : Linked Tight (dispatch db)) :
    (closeBatchUpdate b).Safe locking x (fun _ => Midway Tight) [] .none db := by
  refine safe_single linked (fun db linked => ⟨drawn_updates (by simp),fun L => ?_⟩) fun _ _ _ _ midway => midway
  have kept : ∀ i k, (dispatch db).batch i = some k → k.delivererId ≠ none → ∃ k', rewritten
      (fun i (b' : DeliveryBatch) => i = b ∧ b'.status = .pending) (fun b' => {b' with status := .inProgress}) (dispatch db).batch i = some k' ∧
      k'.delivererId ≠ none := by
    intro i k found claimed
    refine ⟨_,rewritten_of found,?_⟩
    split <;> exact claimed
  simp only [Tx.updatesEffect,dispatch_updates_batch]
  refine ⟨linked_batches linked ?_,respects_batches fun i k found claimed => .inl (kept i k found claimed)⟩
  intro j job found begun tight
  obtain ⟨k,at_k,claimed⟩ := linked.claimed j job found begun tight
  exact kept _ k at_k claimed

theorem safe_updateUser {f : Nat → User → User} (linked : Linked Tight (dispatch db)) :
    (updateUser userId f).Safe locking x (fun _ => Midway Tight) [] .none db := by
  refine safe_singleUpdate linked fun db linked L => ?_
  rw [dispatch_updates_user]
  exact linked_aside linked

theorem safe_updateProfile {p : Nat → DelivererProfile → Bool} {f : DelivererProfile → DelivererProfile} {missing : Err}
    (linked : Linked Tight (dispatch db)) :
    (Tx.update .delivererProfile p (fun _ => f) missing).Safe locking x (fun _ => Midway Tight) [] .none db :=
  safe_singleUpdate linked fun _ linked _ => linked_deliverers linked

theorem safe_createProfileTx (linked : Linked Tight (dispatch db)) :
    (AdminService.createProfileTx userId).Safe locking x (fun _ => Midway Tight) [] .none db := by
  refine safe_select stable_true (working_start linked) trivial ?_
  intro T db working _ sees
  refine safe_select stable_true working trivial ?_
  intro T db working _ sees
  split
  · trivial
  · split
    · trivial
    · refine safe_step stable_true working trivial ?_
      rintro T db working _ sees e same
      have asks : ∀ k ∈ e.locks, MayAsk [] db k := by rw [same]; exact asks_inserts
      refine ⟨asks,by rw [same]; exact drawn_inserts (by simp),(working_next working asks ?_).1⟩
      rw [same]
      simp only [Tx.insertsEffect,dispatch_inserts_deliverer]
      exact linked_aside working.1.view

end Single

section Bodies
variable {env : Env} {x : Proc} {db : Database}

theorem plain_notifyNewOrder : Plain (.notifyNewOrder vendorId orderId) := ⟨rfl,rfl,rfl,trivial,rfl⟩

theorem plain_flushToDb : Plain (.flushToDb d caller) := ⟨rfl,rfl,rfl,trivial,rfl⟩

-- Where a process goes on when its transaction commits.
structure Proceeds (x y : Proc) : Prop where
  carries : Carries x y
  plainly : y.Plainly

theorem gives_proceeds {t : Transaction α} {f : α → Proc} (carries : ∀ a, Carries x (f a)) (plainly : ∀ a, (f a).Plainly) :
    (t >>= fun a => pure (f a)).Gives (Proceeds x) := gives_pure fun a => ⟨carries a,plainly a⟩

theorem proceeds_body {body : Transaction Proc} (delivers : x.delivers = true) (at_tx : Proc.next env x = .tx body) :
    body.Gives (Proceeds x) := by
  cases x <;> simp only [Proc.next,reduceCtorEq] at at_tx
  case insertOrder => cases at_tx; exact gives_proceeds (fun _ => plain_notifyNewOrder.carried _) fun _ => ⟨rfl,rfl⟩
  case claimReady =>
    cases at_tx
    refine gives_proceeds ?_ ?_
    · intro outcome
      split
      · exact (⟨rfl,rfl,rfl,trivial,rfl⟩ : Plain (.scheduleBatchTimeout ..)).carried _
      · exact plain_afterBatching.carried _
    · intro outcome
      split
      · exact ⟨rfl,rfl⟩
      · exact plainly_afterBatching
  case closeBatch b caller =>
    cases at_tx
    refine gives_proceeds ?_ ?_
    · intro count
      split
      · exact (plain_closed caller).carried _
      · exact (⟨rfl,rfl,rfl,trivial,rfl⟩ : Plain (.queueAssignment ..)).carried _
    · intro count
      split
      · exact plainly_closed caller
      · exact ⟨rfl,rfl⟩
  case updateDecided => cases delivers
  case recordEvent params caller =>
    cases at_tx
    refine gives_proceeds (t := EventLogService.createEvent params) ?_ fun _ => ⟨rfl,rfl⟩
    exact fun event => ⟨.refl _,.inl rfl,fun _ member => absurd member List.not_mem_nil,trivial,.inr rfl⟩
  case projectEvent id event caller =>
    cases at_tx
    exact gives_proceeds (fun _ => carried_recorded caller rfl rfl) fun _ => plainly_recorded caller
  case assign b orders d caller =>
    cases at_tx
    refine gives_proceeds ?_ fun _ => ⟨rfl,rfl⟩
    exact fun _ => ⟨.refl _,.inl rfl,fun _ member => absurd member List.not_mem_nil,trivial,.inr rfl⟩
  case startJob => cases at_tx; exact gives_proceeds (fun _ => plain_returned.carried _) fun _ => plainly_returned
  case completeDropOff j s d =>
    cases at_tx
    refine gives_proceeds ?_ ?_
    · intro completed
      split
      · exact plain_flushToDb.carried _
      · exact plain_returned.carried _
    · intro completed
      split <;> exact ⟨rfl,rfl⟩
  case completeJob => cases at_tx; exact gives_proceeds (fun _ => plain_flushToDb.carried _) fun _ => ⟨rfl,rfl⟩
  case writeLocation d loc caller =>
    cases at_tx
    exact gives_proceeds (fun _ => (plain_flushed caller).carried _) fun _ => plainly_flushed caller
  case recoverUnstartedJob d job rest =>
    cases at_tx
    refine gives_proceeds ?_ fun _ => ⟨rfl,rfl⟩
    exact fun _ => ⟨.cons _ (.refl _),.inl rfl,fun _ member => absurd member List.not_mem_nil,trivial,.inr rfl⟩
  case writeProfile => cases at_tx; exact gives_proceeds (fun _ => plain_returned.carried _) fun _ => plainly_returned
  case markPresence => cases at_tx; exact gives_proceeds (fun _ => plain_returned.carried _) fun _ => plainly_returned
  case deleteProfile => cases delivers
  case demote => cases at_tx; exact gives_proceeds (fun _ => plain_returned.carried _) fun _ => plainly_returned
  case promote =>
    cases at_tx
    exact gives_proceeds (fun _ => (⟨rfl,rfl,rfl,trivial,rfl⟩ : Plain (.createProfile ..)).carried _) fun _ => ⟨rfl,rfl⟩
  case createProfile => cases at_tx; exact gives_proceeds (fun _ => plain_returned.carried _) fun _ => plainly_returned
  case notifyCustomers => split at at_tx <;> cases at_tx
  case requeue => split at at_tx <;> cases at_tx

theorem safe_recording {t : Transaction α} (linked : Linked Tight (dispatch db))
    (safe : Working Tight [] .none db → t.Safe locking x (fun _ h w db => Working Tight h w db ∧ True) [] .none db) :
    t.Safe locking x (fun _ => Midway Tight) [] .none db :=
  safe_mono (fun _ _ _ _ both => both.1.1) (safe (working_start linked))

theorem safe_then {t : Transaction α} {f : α → Proc} (safe : t.Safe locking x (fun _ => Midway Tight) [] .none db) :
    (t >>= fun a => pure (f a)).Safe locking x (fun _ => Midway Tight) [] .none db := safe_bind safe

theorem midway_body {body : Transaction Proc} (linked : Linked Tight (dispatch db)) (delivers : x.delivers = true)
    (formed : x.Formed) (at_tx : Proc.next env x = .tx body) : body.Safe locking x (fun _ => Midway Tight) [] .none db := by
  cases x <;> simp only [Proc.next,reduceCtorEq] at at_tx
  case insertOrder => cases at_tx; exact safe_then (safe_createOrderTx linked)
  case claimReady => cases at_tx; exact safe_then (safe_vendorMarkReadyTx linked)
  case closeBatch => cases at_tx; exact safe_then (safe_closeBatchUpdate linked)
  case updateDecided => cases delivers
  case recordEvent params caller =>
    cases at_tx
    refine safe_then (t := EventLogService.createEvent params) ?_
    exact safe_recording linked fun working => safe_createEvent stable_true lasting_true working trivial params
  case projectEvent id event caller =>
    cases at_tx
    exact safe_then (safe_recording linked fun working => safe_projectEvent stable_true lasting_true working trivial id event)
  case assign b orders d caller =>
    cases at_tx
    exact safe_then (safe_assignTx linked fun now c knows => knows.remembered.orders b orders rfl)
  case startJob => cases at_tx; exact safe_then (safe_startJobTx linked)
  case completeDropOff => cases at_tx; exact safe_then (safe_completeDropOffTx linked rfl)
  case completeJob => cases at_tx; exact safe_then (safe_completeJobTx linked rfl)
  case writeLocation => cases at_tx; exact safe_then (safe_updateProfile linked)
  case recoverUnstartedJob d job rest =>
    cases at_tx
    exact safe_then (safe_recoverTx linked fun now c knows => knows.remembered.stale d List.mem_cons_self job formed.1)
  case writeProfile => cases at_tx; exact safe_then (safe_updateProfile linked)
  case markPresence => cases at_tx; exact safe_then (safe_updateUser linked)
  case deleteProfile => cases delivers
  case demote => cases at_tx; exact safe_then (safe_updateUser linked)
  case promote => cases at_tx; exact safe_then (safe_updateUser linked)
  case createProfile => cases at_tx; exact safe_then (safe_createProfileTx linked)
  case notifyCustomers => split at at_tx <;> cases at_tx
  case requeue => split at at_tx <;> cases at_tx

theorem safe_body {body : Transaction Proc} (linked : Linked Tight (dispatch db)) (delivers : x.delivers = true)
    (formed : x.Formed) (at_tx : Proc.next env x = .tx body) : body.Safe locking x (locking.Commits x) [] .none db :=
  safe_mono (fun _ _ _ _ both => midway_commits both.1 both.2.carries both.2.plainly)
    (safe_gives (midway_body linked delivers formed at_tx) (proceeds_body delivers at_tx))

-- What the reads bring has to hold of the rows that they read.
theorem facts_queried {F : LocalFacts} {read : Database → Proc} (known : F.Of x now (dispatch v)) (at_query : Proc.next env x = .query read)
    (snapshot : ∀ s ∈ staleDeliverers env v, F.stale s now (dispatch v))
    (orders : ∀ b first others, batchOrders env v b = first::others → F.orders b (first::others) (dispatch v))
    (available : ∀ d ∈ availableDeliverers env v, F.candidate d.1 (dispatch v)) : F.Of (read v) now (dispatch v) := by
  have asked := queried at_query v
  generalize read v = y at asked ⊢
  cases asked with
  | carries carries => exact facts_carried known carries
  | snapshot => exact facts_resumed (resumes_sweepNext _) (staleDeliverers_nodup v) snapshot
  | @batch b caller k first others lat lng at_assign _ _ found =>
    subst x
    refine ⟨trivial,known.apart,known.stale,?_,fun d member => absurd member List.not_mem_nil⟩
    intro b' orders' reading
    cases reading
    exact orders b first others found
  | @candidates b handed lat lng caller at_read =>
    subst x
    refine ⟨trivial,known.apart,known.stale,known.orders,?_⟩
    intro d member
    obtain ⟨e,at_e,same⟩ := List.mem_map.mp member
    rw [← same]
    exact available e at_e

theorem remembered_query {read : Database → Proc} (known : remembered.Of x now (dispatch v)) (at_query : Proc.next env x = .query read) :
    remembered.Of (read v) now (dispatch v) := by
  refine facts_queried known at_query (fun s => snapshotBatch_read) ?_ fun _ _ => trivial
  intro b first others found
  rw [← found]
  exact readOrders_read env v b

end Bodies

-- Requests other than decisions on orders and the removal of profiles; a completion
-- is asked for when its job is there.
def Timely (s : MarketSessions) : MarketAct → Bool
  | .spawn x => isEntry x && x.delivers && x.completes.all fun j => (s.sys.db.rows .deliveryJob j).isSome
  | _ => true

theorem timely_knows {s : MarketSessions} (timely : Timely s (.spawn x) = true) : Knows x now (dispatch s.sys.db) := by
  simp only [Timely,Bool.and_eq_true] at timely
  obtain ⟨⟨entry,delivers⟩,completes⟩ := timely
  refine ⟨facts_fresh (fresh_entry (isEntry_entry entry)),delivers,?_⟩
  intro j same
  rw [same] at completes
  exact Option.isSome_iff_exists.mp completes

theorem market_locks (env : Env) : (market env).Follows locking fun s m => Timely s m = true where
  spawn s x _ timely := timely_knows timely
  query s p i x read _ known _ _ at_query :=
    ⟨remembered_query known.remembered at_query,(plainly_query at_query known.serves.delivers _).serves _⟩
  input x T db read i known at_input :=
    ⟨facts_carried known.remembered (carries_input at_input),(plainly_input at_input).serves _⟩
  add x T db task y known at_add := by
    refine ⟨⟨facts_carried known.remembered (carries_add at_add),(plainly_add at_add).serves _⟩,facts_fresh (fresh_worker task),?_⟩
    cases task <;> exact Proc.Plainly.serves ⟨rfl,rfl⟩ _
  emit x T db note y known at_emit :=
    ⟨facts_carried known.remembered (carries_emit at_emit),(plainly_emit at_emit).serves _⟩
  caught x T db e known := ⟨facts_carried known.remembered (carries_caught x e),(plainly_caught x e).serves _⟩
  body x T db body inv known at_tx := safe_body inv.1 known.serves.delivers known.remembered.formed at_tx

-- Nothing is delivered yet.
structure Undelivered (db : Database) : Prop where
  job : ∀ i, db.rows .deliveryJob i = none
  stop : ∀ i, db.rows .deliveryDropOff i = none
  order : ∀ i o, db.rows .order i = some o → o.deliveryBatchId = none ∧ o.deliveryJobId = none

theorem linked_undelivered (undelivered : Undelivered db) : Linked Tight (dispatch db) := by
  refine ⟨?_,?_,?_,?_,?_⟩
  · intro j _ job _ found
    cases (undelivered.job j).symm.trans found
  · intro i o j found part
    rw [(undelivered.order i o found).2] at part; cases part
  · intro s stop found
    cases (undelivered.stop s).symm.trans found
  · exact fun i o found _ => (undelivered.order i o found).1
  · intro j job found
    cases (undelivered.job j).symm.trans found

section Runs
variable {env : Env} {db : Database} (undelivered : Undelivered db) (moves : List MarketAct)
  (timely : ∀ made ∈ (Sessions.open db).trace (market env) moves, Timely made.1 made.2 = true)
include undelivered timely

theorem locks_disciplined : ((Sessions.open db).run (market env) moves).Disciplined locking (market env) :=
  disciplined_run (market_locks env) (disciplined_open ⟨linked_undelivered undelivered,fun _ _ no => no.elim⟩) moves timely

-- The waits are for rows that a statement writes or reads FOR UPDATE, for the advisory
-- lock and for entries of unique indexes. They close no cycle, and every one ends at a
-- transaction that waits for none of these. The KEY SHARE locks of foreign keys are not
-- among them: two jobs for one deliverer share a lock on its profile, which both write.
theorem waits_acyclic :
    (∀ p, ¬Relation.TransGen ((Sessions.open db).run (market env) moves).sys.WaitsFor p p) ∧
    ∀ p, ∃ q, Relation.ReflTransGen ((Sessions.open db).run (market env) moves).sys.WaitsFor p q ∧
      ∀ x txn, ((Sessions.open db).run (market env) moves).sys.threads q = some (.busy x txn) →
        (((Sessions.open db).run (market env) moves).sys.advance? (market env).caught q).isSome := by
  have valid := locks_disciplined undelivered moves timely
  generalize (Sessions.open db).run (market env) moves = s at valid ⊢
  have none : ∀ p, ¬Relation.TransGen s.sys.WaitsFor p p := by
    refine System.acyclic lockRank ?_
    intro p q r k k' holds asks held apart asks' held' apart'
    obtain ⟨e,takes,needs⟩ := asked_takes valid.sys asks
    obtain ⟨e',takes',needs'⟩ := asked_takes valid.sys asks'
    have holds' : s.sys.heldBy q ≠ [] := List.ne_nil_of_mem held
    exact rank_falls valid.sys.inv.1 valid.sys.inv.2 (takes'.asks holds').1 ((takes.asks holds).2 k needs) held apart
      ((takes'.asks holds').2 k' needs') held' apart'
  refine ⟨none,?_⟩
  intro p
  obtain ⟨q,path,free⟩ := System.unblocked none p
  refine ⟨q,path,?_⟩
  intro x txn found
  rw [Option.isSome_iff_ne_none,Ne,System.waits_iff found]
  rintro ⟨r,waits⟩
  exact free r waits

end Runs

-- One order; its batch is assigned and the job started, and two completions of the
-- stop come while a second vendor call for the order runs.
def mealRows : (t : Tab) → List (Row t)
  | .order => [acceptedOrder]
  | t => villageRows t

def meal : Database := (premises mealRows).db

theorem undelivered_meal : Undelivered meal := by
  refine ⟨fun _ => rfl,fun _ => rfl,?_⟩
  intro i o found
  have member : o ∈ mealRows .order := List.mem_of_getElem? found
  simp only [mealRows,List.mem_cons,List.not_mem_nil,or_false] at member
  rw [member]
  exact ⟨rfl,rfl⟩

def assignedMeal : List MarketAct :=
  [.spawn (.vendorMarkReady 0 1)] ++ goesOn 0 16 ++ [.work 0] ++ goesOn 1 5 ++ [.work 0] ++ goesOn 2 20

def completedTwice : List MarketAct :=
  assignedMeal ++ [.spawn (.startJob 0 0)] ++ goesOn 3 8 ++
    [.spawn (.completeDropOff 0 0 0),.spawn (.completeDropOff 0 0 0)] ++ goesOn 4 4 ++ goesOn 5 2

theorem timely_completedTwice :
    ∀ made ∈ (Sessions.open meal).trace (market village) completedTwice, Timely made.1 made.2 = true := by
  have checked : (((Sessions.open meal).trace (market village) completedTwice).all fun made => Timely made.1 made.2) = true := by
    decide +kernel
  exact fun made member => List.all_eq_true.mp checked made member

theorem waits_acyclic_meal :
    ((Sessions.open meal).run (market village) completedTwice).sys.WaitsFor 5 4 ∧
      ∀ p, ¬Relation.TransGen ((Sessions.open meal).run (market village) completedTwice).sys.WaitsFor p p :=
  ⟨by decide +kernel,(waits_acyclic undelivered_meal completedTwice timely_completedTwice).1⟩

-- Ready orders, starts and completions that are asked for at any time, with the closing,
-- assigning and sweeping that they lead to.
def Proc.dispatches : Proc → Bool
  | vendorMarkReady .. | startJob .. | completeDropOff .. | checkDeliverers => true
  | _ => false

def Dispatching : MarketAct → Bool
  | .spawn x => x.dispatches
  | _ => true

-- A completion whose FOR UPDATE came before its job was there goes on without the
-- lock, and waits for the next one, which waits for it.
def completedEarly : List MarketAct :=
  [.spawn (.vendorMarkReady 0 1)] ++ goesOn 0 16 ++ [.work 0] ++ goesOn 1 5 ++ [.work 0] ++
    [.spawn (.completeDropOff 0 0 0)] ++ goesOn 3 2 ++ goesOn 2 20 ++ [.spawn (.startJob 0 0)] ++ goesOn 4 8 ++
    goesOn 3 2 ++ [.spawn (.completeDropOff 0 0 0)] ++ goesOn 5 5 ++ goesOn 3 9

theorem waits_cyclic : ¬∀ (env : Env) (db : Database) (moves : List MarketAct), Undelivered db →
    (∀ m ∈ moves, Dispatching m = true) →
    ∀ p, ¬Relation.TransGen ((Sessions.open db).run (market env) moves).sys.WaitsFor p p := by
  intro claim
  have dispatching : completedEarly.all Dispatching = true := by decide +kernel
  have there : ((Sessions.open meal).run (market village) completedEarly).sys.WaitsFor 3 5 := by decide +kernel
  have back : ((Sessions.open meal).run (market village) completedEarly).sys.WaitsFor 5 3 := by decide +kernel
  exact claim village meal completedEarly undelivered_meal (List.all_eq_true.mp dispatching) 3 (.tail (.single there) back)

section Kept
variable {env : Env} {db : Database} (undelivered : Undelivered db) (moves : List MarketAct)
  (timely : ∀ made ∈ (Sessions.open db).trace (market env) moves, Timely made.1 made.2 = true)
include undelivered timely

-- Whatever is committed, between any two statements of whoever is running.
theorem links_kept : Linked Tight (dispatch ((Sessions.open db).run (market env) moves).sys.db) :=
  (locks_disciplined undelivered moves timely).sys.inv.1

end Kept

theorem links_kept_meal : Linked Tight (dispatch ((Sessions.open meal).run (market village) completedTwice).sys.db) :=
  links_kept undelivered_meal completedTwice timely_completedTwice

end MesyafMarket
