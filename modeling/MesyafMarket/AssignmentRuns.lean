import MesyafMarket.Dispatch.Held
import MesyafMarket.Relational.Alone

namespace MesyafMarket
open Relational OrderService DelivererAssignmentService DelivererJobService DelivererRecoveryService

-- What assignDelivererToBatch does when it runs alone from `db`, and how it ends.
inductive AssignsAlone (env : Env) (db : Database) (b : Nat) : Reply → Database → Prop where
  | skipped (skips : Proc.batchToAssign env db b .worker = .returned .done) : AssignsAlone env db b .done db
  | nobody (read : Proc.batchToAssign env db b .worker = .readCandidates b orders lat lng .worker)
      (none : availableDeliverers env db = []) : AssignsAlone env db b (.thrown (.noDelivererAvailable b)) db
  | failed (read : Proc.batchToAssign env db b .worker = .readCandidates b orders lat lng .worker)
      (redis : Nat → Option Point)
      (chosen : chosenDeliverer env (withLocation (getMany redis db) (availableDeliverers env db)) lat lng = some d)
      (ran : (assignTx b orders d.1).run db = .error e) : AssignsAlone env db b (.thrown e) db
  | assigned (read : Proc.batchToAssign env db b .worker = .readCandidates b orders lat lng .worker)
      (redis : Nat → Option Point)
      (chosen : chosenDeliverer env (withLocation (getMany redis db) (availableDeliverers env db)) lat lng = some d)
      (ran : (assignTx b orders d.1).run db = .ok (j,after)) : AssignsAlone env db b .done after

theorem batchToAssign_cases (env : Env) (v : Database) (b : Nat) (caller : AssignCaller) :
    Proc.batchToAssign env v b caller = .assigned caller ∨
    ∃ k first rest lat lng, v.rows .deliveryBatch b = some k ∧ k.delivererId = none ∧
      batchOrders env v b = first::rest ∧ first.2.vendorLat = some lat ∧ first.2.vendorLng = some lng ∧
      Proc.batchToAssign env v b caller = .readCandidates b (first::rest) lat lng caller := by
  unfold Proc.batchToAssign
  split
  · rename_i k first rest at_batch orders
    split
    · exact .inl rfl
    · rename_i unclaimed
      split
      · rename_i lat lng at_lat at_lng
        exact .inr ⟨k,first,rest,lat,lng,at_batch,Option.not_isSome_iff_eq_none.mp unclaimed,orders,at_lat,at_lng,rfl⟩
      · exact .inl rfl
  · exact .inl rfl

theorem batchToAssign_of {env : Env} {v : Database} (at_batch : v.rows .deliveryBatch b = some k) (unclaimed : k.delivererId = none)
    (orders : batchOrders env v b = first::rest) (at_lat : first.2.vendorLat = some lat)
    (at_lng : first.2.vendorLng = some lng) (caller : AssignCaller) :
    Proc.batchToAssign env v b caller = .readCandidates b (first::rest) lat lng caller := by
  unfold Proc.batchToAssign
  rw [at_batch,orders]
  simp only [unclaimed,Option.isSome_none,Bool.false_eq_true,if_false,at_lat,at_lng]

theorem chosen_some (env : Env) (fresh : Nat → Option Point) (lat lng : Rat) (some : deliverers ≠ []) :
    ∃ d, chosenDeliverer env (withLocation fresh deliverers) lat lng = .some d := by
  unfold chosenDeliverer
  cases found : env.findClosestDeliverer (withLocation fresh deliverers) lat lng with
  | some d => exact ⟨d,rfl⟩
  | none =>
    cases deliverers with
    | nil => exact absurd rfl some
    | cons first rest => exact ⟨_,rfl⟩

theorem chosen_available {env : Env} (chosen : chosenDeliverer env (withLocation fresh deliverers) lat lng = some d) :
    ∃ p, (d.1,p) ∈ deliverers := by
  have located : d ∈ withLocation fresh deliverers := by
    unfold chosenDeliverer at chosen
    cases found : env.findClosestDeliverer (withLocation fresh deliverers) lat lng with
    | some c =>
      rw [found] at chosen
      cases chosen
      exact env.closest_mem _ _ _ _ found
    | none =>
      rw [found] at chosen
      exact List.mem_of_head? chosen
  obtain ⟨e,member,same⟩ := List.mem_map.mp located
  have key : e.1 = d.1 := by
    rw [← same]
    split <;> rfl
  exact ⟨e.2,by rw [← key]; exact member⟩

theorem mem_availableDeliverers {env : Env} {v : Database} : (d,p) ∈ availableDeliverers env v ↔
    v.rows .delivererProfile d = some p ∧ isCandidate v p = true := by
  unfold availableDeliverers
  rw [(env.scan_perm v _).mem_iff,Db.mem_matching]

theorem candidate_free (candidate : isCandidate v p = true) : p.availability = true ∧ p.activeJobId = none := by
  unfold isCandidate at candidate
  simp only [Bool.and_eq_true,Option.isNone_iff_eq_none] at candidate
  exact candidate.1

section Success
variable {db : Database}

theorem projectEvent_runs : ∃ db', (EventLogService.projectEvent eventId event).run db = .ok ((),db') := by
  unfold EventLogService.projectEvent
  split
  · unfold OrderTimelineProjectionService.project
    split
    · exact ⟨db,rfl⟩
    · exact ⟨_,Tx.run_bind_ok.mpr ⟨_,_,rfl,rfl⟩⟩
  · unfold JobTimelineProjectionService.project
    split
    · exact ⟨db,rfl⟩
    · exact ⟨_,Tx.run_bind_ok.mpr ⟨_,_,rfl,rfl⟩⟩

theorem recordEvent_runs : ∃ db', (EventLogService.recordEvent params).run db = .ok ((),db') := by
  unfold EventLogService.recordEvent
  let first := (db.seq .eventLog,params.event db.clock)
  have projected : ∀ db : Database, ∃ db', (EventLogService.projectEvent first.1 first.2).run db = .ok ((),db') :=
    fun _ => projectEvent_runs
  obtain ⟨db',ran⟩ := projected (db.apply (db.inserts .eventLog [params.event db.clock]))
  exact ⟨db',Tx.run_bind_ok.mpr ⟨first,_,Tx.run_create db _,ran⟩⟩

theorem upsertJob_runs (at_deliverer : db.rows .delivererProfile d = some p) :
    ∃ j db', (upsertJob b d n).run db = .ok (j,db') := by
  unfold upsertJob
  simp only [Tx.run]
  rw [if_neg (by rw [at_deliverer]; exact (fun no => by cases no))]
  exact ⟨_,_,rfl⟩

theorem claimDeliverer_runs (at_deliverer : db.rows .delivererProfile d = some p) (available : p.availability = true)
    (free : p.activeJobId = none)
    (only : ∀ i p', i ≠ d → db.rows .delivererProfile i = some p' → DelivererProfile.activeJobId p' ≠ some j) :
    ∃ db', (claimDeliverer d j).run db = .ok ((),db') := by
  unfold claimDeliverer
  simp only [Tx.run]
  have claimed : (db.matching .delivererProfile (claimable d)).isEmpty ≠ true := by
    intro empty
    have missed := db.matching_nil.mp (List.isEmpty_iff.mp empty) d p at_deliverer
    simp [claimable,available,free] at missed
  have alone : holdsElsewhere db d j ≠ true := by
    unfold holdsElsewhere
    intro held
    rw [Bool.not_eq_true',List.isEmpty_eq_false_iff] at held
    obtain ⟨i,p',found,hit⟩ := matching_some held
    obtain ⟨other,same⟩ := of_decide_eq_true hit
    exact only i p' other found same
  rw [if_neg claimed,if_neg alone]
  exact ⟨_,rfl⟩

-- The deliverer is free, and nobody else holds the job of an unclaimed batch.
theorem assignTx_runs (referring : Referring (dispatch db)) (unheld : (dispatch db).Unheld b) (at_batch : (dispatch db).batch b = some k)
    (unclaimed : k.delivererId = none) (closed : k.status = .inProgress) (at_deliverer : (dispatch db).deliverer d = some p)
    (available : p.availability = true) (free : p.activeJobId = none) :
    ∃ j db', (assignTx b orders d).run db = .ok (j,db') := by
  obtain ⟨j,first,upserted⟩ := upsertJob_runs (b := b) (n := orders.length) at_deliverer
  obtain ⟨job,atFirst⟩ := upsertJob_parts upserted
  have batchFirst : first.rows .deliveryBatch b = some k := by
    have same : first.rows .deliveryBatch = db.rows .deliveryBatch := congrArg Dispatch.batch atFirst
    rw [same]; exact at_batch
  have claimed : (first.matching .deliveryBatch fun i (k : DeliveryBatch) => i = b ∧ k.delivererId = none ∧
      k.status = .inProgress).length ≠ 0 := by
    intro empty
    have missed := matching_empty empty b k batchFirst
    simp [unclaimed,closed] at missed
  have profiles : (first.apply (first.updates .deliveryBatch (fun i (k : DeliveryBatch) => i = b ∧ k.delivererId = none ∧
      k.status = .inProgress) fun k => {k with delivererId := some d})).rows .delivererProfile = db.rows .delivererProfile := by
    rw [first.apply_updates_other (show Tab.delivererProfile ≠ .deliveryBatch from nofun)]
    exact congrArg Dispatch.deliverer atFirst
  have only : ∀ i p', i ≠ d → db.rows .delivererProfile i = some p' → DelivererProfile.activeJobId p' ≠ some j :=
    fun i p' _ found => unheld_only referring unheld job i p' found
  obtain ⟨third,taken⟩ := claimDeliverer_runs (j := j) (by rw [profiles]; exact at_deliverer) available free
    (by rw [profiles]; exact only)
  unfold assignTx
  refine ⟨j,?_⟩
  have rest : ∀ db : Database, ∃ db', (EventLogService.recordEvent ⟨.job,j,EVENTS.JOB.ASSIGNED,jobPayload j .assigned⟩).run db =
      .ok ((),db') := fun _ => recordEvent_runs
  obtain ⟨last,recorded⟩ := rest _
  refine ⟨last,Tx.run_bind_ok.mpr ⟨j,first,upserted,Tx.run_bind_ok.mpr ⟨_,_,Tx.run_updateMany first,?_⟩⟩⟩
  rw [if_neg claimed]
  refine Tx.run_bind_ok.mpr ⟨(),third,taken,?_⟩
  refine Tx.run_bind_ok.mpr ⟨_,_,Tx.run_updateMany third,?_⟩
  refine Tx.run_bind_ok.mpr ⟨_,_,Tx.run_deleteMany _,?_⟩
  refine Tx.run_bind_ok.mpr ⟨_,_,Tx.run_createMany _ _,?_⟩
  exact Tx.run_bind_ok.mpr ⟨(),last,recorded,rfl⟩

end Success

section Machine
variable {env : Env} {w last : Market}

theorem ends_returned (found : w.threads p = some (.returned reply)) : Ends (market env) p w last ↔ last = w :=
  ends_done found rfl

-- After the commit only notifications are left.
theorem ends_notified (orders : List (Nat × Order)) (found : w.threads p = some (Proc.notifyNext j d .worker orders)) :
    Ends (market env) p w last ↔ last = w.goto p (.returned .done) := by
  induction orders generalizing w with
  | nil =>
    have still : w.goto p (.returned .done) = w := by
      have same : Function.update w.threads p (some (.returned .done)) = w.threads := by
        rw [Function.update_eq_self_iff]; exact found.symm
      simp only [World.goto,same]
    rw [still]
    exact ends_returned found
  | cons order rest ih =>
    rw [ends_emit (y := Proc.notifyNext j d .worker rest) found rfl,
      ih (goto_threads ..),goto_goto]

theorem ends_assign (found : w.threads p = some (.assignDelivererToBatch b .worker)) :
    Ends (market env) p w last ↔ ∃ reply db, AssignsAlone env w.db b reply db ∧
      last = {w.goto p (.returned reply) with db := db} := by
  rw [ends_query found rfl]
  rcases batchToAssign_cases env w.db b .worker with skips | ⟨k,first,rest,lat,lng,_,_,_,_,_,read⟩
  · have skips : Proc.batchToAssign env w.db b .worker = .returned .done := skips
    rw [skips,ends_returned (goto_threads ..)]
    constructor
    · rintro rfl
      exact ⟨.done,w.db,.skipped skips,rfl⟩
    · rintro ⟨reply,db,alone,rfl⟩
      cases alone with
      | skipped => rfl
      | nobody read => cases skips.symm.trans read
      | failed read => cases skips.symm.trans read
      | assigned read => cases skips.symm.trans read
  · rw [read,ends_query (goto_threads ..) rfl,goto_goto,goto_db]
    -- The candidates are read once more for their positions, at the same rows.
    cases available : availableDeliverers env w.db with
    | nil =>
      have thrown : Proc.candidates env w.db b (first::rest) lat lng .worker =
          .returned (.thrown (.noDelivererAvailable b)) := by
        unfold Proc.candidates; rw [available]; rfl
      rw [thrown,ends_returned (goto_threads ..)]
      constructor
      · rintro rfl
        exact ⟨_,w.db,.nobody read available,rfl⟩
      · rintro ⟨reply,db,alone,rfl⟩
        cases alone with
        | skipped skips => cases skips.symm.trans read
        | nobody => rfl
        | failed _ redis chosen => rw [available] at chosen; obtain ⟨_,member⟩ := chosen_available chosen; cases member
        | assigned _ redis chosen => rw [available] at chosen; obtain ⟨_,member⟩ := chosen_available chosen; cases member
    | cons d others =>
      have going : Proc.candidates env w.db b (first::rest) lat lng .worker =
          .readPositions b (first::rest) lat lng (d::others) .worker := by
        unfold Proc.candidates; rw [available]
      rw [going,ends_input (goto_threads ..) rfl]
      have each : ∀ redis, Ends (market env) p (w.goto p (.readMissing b (first::rest) lat lng (d::others) redis .worker)) last ↔
          ∃ c, chosenDeliverer env (withLocation (getMany redis w.db) (d::others)) lat lng = some c ∧
            ((∃ j db, (assignTx b (first::rest) c.1).run w.db = .ok (j,db) ∧
                last = {w.goto p (.returned .done) with db := db}) ∨
              ∃ e, (assignTx b (first::rest) c.1).run w.db = .error e ∧ last = w.goto p (.returned (.thrown e))) := by
        intro redis
        obtain ⟨c,chosen⟩ := chosen_some env (getMany redis w.db) lat lng
          (List.cons_ne_nil d others)
        rw [ends_query (goto_threads ..) rfl,goto_goto,goto_db]
        have next : Proc.choose env (getMany redis w.db) b (first::rest) lat lng (d::others) .worker =
            .assign b (first::rest) c.1 .worker := by
          unfold Proc.choose; rw [chosen]
        rw [next]
        simp only [chosen,Option.some.injEq,exists_eq_left']
        have caught : ∀ e, (market env).caught (.assign b (first::rest) c.1 .worker) e = .returned (.thrown e) := fun _ => rfl
        have at_tx : (market env).next (.assign b (first::rest) c.1 .worker) =
          .tx (do return Proc.notifyAssigned (← assignTx b (first::rest) c.1) b c.1 (first::rest) .worker) := rfl
        cases ran : (assignTx b (first::rest) c.1).run w.db with
        | error e =>
          rw [ends_throw (e := e) (goto_threads ..) at_tx (Tx.run_bind_error.mpr (.inl ran)),goto_goto,caught,
            ends_returned (goto_threads ..)]
          simp
        | ok r =>
          obtain ⟨j,db⟩ := r
          rw [ends_commit (goto_threads ..) at_tx (Tx.run_bind_ok.mpr ⟨j,db,ran,rfl⟩),
            ends_emit (x := .notifyAssigned j b c.1 (first::rest) .worker)
              (y := Proc.notifyNext j c.1 .worker (first::rest)) (by simp) rfl,
            ends_notified _ (goto_threads ..)]
          simp [World.goto]
      simp only [goto_goto,each]
      constructor
      · rintro ⟨redis,c,chosen,⟨j,db,ran,rfl⟩ | ⟨e,ran,rfl⟩⟩
        · exact ⟨.done,db,.assigned read redis (by rw [available]; exact chosen) ran,rfl⟩
        · exact ⟨_,w.db,.failed read redis (by rw [available]; exact chosen) ran,rfl⟩
      · rintro ⟨reply,db,alone,rfl⟩
        cases alone with
        | skipped skips => cases skips.symm.trans read
        | nobody _ none => cases available.symm.trans none
        | failed read' redis chosen ran =>
          cases read.symm.trans read'
          rw [available] at chosen
          exact ⟨redis,_,chosen,.inr ⟨_,ran,rfl⟩⟩
        | assigned read' redis chosen ran =>
          cases read.symm.trans read'
          rw [available] at chosen
          exact ⟨redis,_,chosen,.inl ⟨_,_,ran,rfl⟩⟩

end Machine
end MesyafMarket
