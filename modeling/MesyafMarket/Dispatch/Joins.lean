import MesyafMarket.Dispatch.Members

namespace MesyafMarket
open Relational OrderService

-- The services' own rules, in the field that distances are measured in.
def Env.configured {K : Type} [Field K] [LinearOrder K] (env : Env) (calcDistanceKm : Point → Point → K)
    (ALLOW_MULTI_VENDOR : Bool) (rules : CityRules K) : Env :=
  {env with
    checkBatchEligibility := OrderService.checkBatchEligibility calcDistanceKm ALLOW_MULTI_VENDOR rules
    WINDOW_MIN := rules.WINDOW_MIN}

namespace OrderService

def members (v : Database) (b : Nat) : List (Nat × Order) :=
  v.matching .order fun _ (o : Order) => o.deliveryBatchId = some b

-- What vendorMarkReady sees of the orders once it has claimed its own.
def claimed (db : Database) (orderId : Nat) (orderType : OrderType) : Database :=
  db.apply (db.updates .order (fun i (o : Order) => i = orderId ∧ o.status ∈ READYABLE_STATUSES)
    (readied orderType db.clock))

def choice (env : Env) (db : Database) (orderId : Nat) (orderType : OrderType) (r : Order) : Option OpenBatch :=
  picked env (readied orderType db.clock r) (openBatches env (claimed db orderId orderType))

end OrderService

theorem mem_members {v : Database} : (i,o) ∈ members v b ↔ v.rows .order i = some o ∧ o.deliveryBatchId = some b := by
  unfold members
  rw [Db.mem_matching,decide_eq_true_eq]

-- The batch that an order joins and the answer about it.
inductive Joins (env : Env) (db : Database) (orderId : Nat) (orderType : OrderType) (r : Order) :
    BatchOutcome → Prop where
  | existing (chosen : choice env db orderId orderType r = some batch) :
      Joins env db orderId orderType r ⟨batch.1,false,shouldCloseBatch env.WINDOW_MIN db.clock batch.2.1.createdAt
        (batch.2.2 ++ [readied orderType db.clock r])⟩
  | new (refused : choice env db orderId orderType r = none) (fresh : db.rows .deliveryBatch b = none) :
      Joins env db orderId orderType r ⟨b,true,false⟩

theorem picked_cons {env : Env} {batch : OpenBatch} : picked env order (batch::rest) =
    if env.checkBatchEligibility order batch.2.2 then some batch else picked env order rest := by
  unfold picked
  rw [List.find?_cons]
  split <;> simp_all

theorem assignToBatchLoop_joins {env : Env} (batches : List OpenBatch) (found : db.rows .order o = some r)
    (ran : (assignToBatchLoop env o order batches).run db = .ok (outcome,db')) :
    db'.rows .order = Function.update (db.rows .order) o (some (joined outcome.batchId r)) ∧
    ((∃ batch, picked env order batches = some batch ∧ outcome = ⟨batch.1,false,
        shouldCloseBatch env.WINDOW_MIN db.clock batch.2.1.createdAt (batch.2.2 ++ [order])⟩) ∨
      (picked env order batches = none ∧ outcome = ⟨db.seq .deliveryBatch,true,false⟩)) := by
  induction batches with
  | nil =>
    simp only [assignToBatchLoop] at ran
    obtain ⟨created,middle,opened,ran⟩ := Tx.run_bind_ok.mp ran
    rw [Tx.run_create] at opened
    cases opened
    obtain ⟨now,last,connected,ended⟩ := Tx.run_bind_ok.mp ran
    cases ended
    obtain ⟨_,rfl⟩ := connectOrder_parts connected
    refine ⟨?_,.inr ⟨rfl,rfl⟩⟩
    have same : (db.apply (db.inserts .deliveryBatch [⟨none,.pending,db.clock⟩])).rows .order = db.rows .order :=
      db.apply_inserts_other _ (by decide)
    rw [Db.apply_updates,same]
    exact rewritten_only found
  | cons batch rest ih =>
    simp only [assignToBatchLoop] at ran
    rw [picked_cons]
    split at ran
    · rename_i refused
      rw [if_neg (by simpa using refused)]
      exact ih ran
    · rename_i eligible
      rw [if_pos (by simpa using eligible)]
      obtain ⟨now,last,connected,ended⟩ := Tx.run_bind_ok.mp ran
      cases ended
      obtain ⟨rfl,rfl⟩ := connectOrder_parts connected
      refine ⟨?_,.inl ⟨batch,rfl,rfl⟩⟩
      rw [Db.apply_updates]
      exact rewritten_only found

theorem vendorMarkReadyTx_joins {env : Env}
    (ran : (vendorMarkReadyTx env o orderType).run db = .ok (outcome,db')) :
    ∃ r, db.rows .order o = some r ∧ r.status ∈ READYABLE_STATUSES ∧ Joins env db o orderType r outcome ∧
      db'.rows .order =
        Function.update (db.rows .order) o (some (joined outcome.batchId (readied orderType db.clock r))) := by
  unfold vendorMarkReadyTx at ran
  obtain ⟨count,middle,updated,ran⟩ := Tx.run_bind_ok.mp ran
  rw [Tx.run_updateMany] at updated
  cases updated
  split at ran
  · cases ran
  rename_i some
  obtain ⟨i,r,found,hit⟩ := matching_length some
  obtain ⟨rfl,readyable⟩ : i = o ∧ r.status ∈ READYABLE_STATUSES := by simpa using hit
  have key : (claimed db i orderType).rows .order =
      Function.update (db.rows .order) i (.some (readied orderType db.clock r)) := by
    unfold claimed
    rw [Db.apply_updates]
    exact rewritten_key (P := fun r : Order => r.status ∈ READYABLE_STATUSES) found readyable
  have own : (claimed db i orderType).rows .order i = .some (readied orderType db.clock r) := by
    rw [key]; exact Function.update_self ..
  obtain ⟨readyOrder,_,read,ran⟩ := Tx.run_bind_ok.mp ran
  obtain ⟨same,rfl⟩ := Tx.run_findUniqueOrThrow_ok read
  obtain rfl := Option.some.inj (own.symm.trans same)
  obtain ⟨batching,last,batched,ran⟩ := Tx.run_bind_ok.mp ran
  obtain ⟨_,final,recorded,ended⟩ := Tx.run_bind_ok.mp ran
  cases ended
  have aside : db'.rows .order = last.rows .order := congrArg Dispatch.order (recordEvent_parts recorded)
  unfold assignToBatch at batched
  obtain ⟨_,_,locked,batched⟩ := Tx.run_bind_ok.mp batched
  rw [Tx.run_lock] at locked
  cases locked
  obtain ⟨pending,_,selected,batched⟩ := Tx.run_bind_ok.mp batched
  rw [Tx.run_select] at selected
  cases selected
  obtain ⟨batches,_,selected,batched⟩ := Tx.run_bind_ok.mp batched
  rw [Tx.run_selectLocking] at selected
  cases selected
  obtain ⟨rows,outcome⟩ := assignToBatchLoop_joins _ own batched
  refine ⟨r,found,readyable,?_,?_⟩
  · rcases outcome with ⟨batch,chosen,rfl⟩ | ⟨refused,rfl⟩
    · exact .existing chosen
    · exact .new refused (db.bounded _ _ (Nat.le_max_left _ _))
  · rw [aside,rows,key,Function.update_idem]

-- A commit of vendorMarkReady at its place in a run.
theorem joins_move {env : Env} {w : Market} (hit : commits env w m = some (.claimReady o customerId orderType)) :
    ∃ r outcome, w.db.rows .order o = some r ∧ r.status ∈ READYABLE_STATUSES ∧ Joins env w.db o orderType r outcome ∧
      (w.move (market env) m).db.rows .order =
        Function.update (w.db.rows .order) o (some (joined outcome.batchId (readied orderType w.db.clock r))) := by
  cases m with
  | step p i =>
    simp only [commits] at hit
    obtain ⟨z,found,hit⟩ := Option.bind_eq_some_iff.mp hit
    split at hit
    · rename_i body at_tx
      split at hit
      · rename_i ended ran
        cases hit
        have next : (market env).next (.claimReady o customerId orderType) = .tx body := at_tx
        have after : (w.move (market env) (.step p i)).db = ended.2 := by
          simp only [World.move,found,World.instr]
          rw [next]
          simp only [ran]
        cases at_tx
        obtain ⟨outcome,middle,first,last⟩ := Tx.run_bind_ok.mp ran
        cases last
        obtain ⟨r,at_order,readyable,joins,rows⟩ := vendorMarkReadyTx_joins first
        exact ⟨r,outcome,at_order,readyable,joins,by rw [after]; exact rows⟩
      · cases hit
    · cases hit
  | _ => cases hit

theorem rows_still {env : Env} {w : Market} (hit : commits env w m = none) :
    dispatch (w.move (market env) m).db = dispatch w.db := by
  cases m with
  | step p i =>
    cases found : w.threads p with
    | none => simp only [World.move,found]
    | some x =>
      simp only [World.move,found]
      unfold World.instr
      split
      · rfl
      · rename_i body at_tx
        split
        · rename_i y db ran
          rw [commits_of found at_tx ran] at hit; cases hit
        · rfl
      · rfl
      · rfl
      · rfl
      · rfl
  | work n => unfold World.move; dsimp only; split <;> rfl
  | duplicate n => unfold World.move; dsimp only; split <;> rfl
  | fail p => unfold World.move; dsimp only; split <;> rfl
  | tick ms => rfl
  | spawn | lose | stop => rfl

end MesyafMarket
