import MesyafMarket.LockOrder
import MesyafMarket.Dispatch.Posting

namespace MesyafMarket
open Relational OrderService DelivererAssignmentService DelivererJobService DelivererRecoveryService

section Bodies
variable {env : Env} {x : Proc} {db : Database}

theorem enacts_body {body : Transaction Proc} (serves : x.Serves c) (at_tx : Proc.next env x = .tx body) :
    body.Keeps posting x (Enacts x) [] .none db := by
  cases x <;> simp only [Proc.next,reduceCtorEq] at at_tx
  case insertOrder => cases at_tx; exact keeps_idle (keeps_offboard offboard_createOrderTx planned_start) fun _ => rfl
  case claimReady =>
    cases at_tx
    exact keeps_bind (keeps_mono (fun _ _ _ _ joining => joining_enacts joining rfl) keeps_vendorMarkReady)
  case closeBatch => cases at_tx; exact keeps_closeBatch
  case updateDecided => cases serves.delivers
  case recordEvent =>
    cases at_tx
    exact keeps_idle (keeps_offboard (confined_create (by simp [Offboard])) planned_start) fun _ => rfl
  case projectEvent =>
    cases at_tx
    exact keeps_idle (keeps_offboard (confined_projectEvent (by simp [Offboard]) (by simp [Offboard])) planned_start) fun _ => rfl
  case assign =>
    cases at_tx
    exact keeps_bind (keeps_mono (fun _ _ _ _ assigning => assigning_enacts assigning .assigns) keeps_assigns)
  case startJob =>
    cases at_tx
    refine keeps_bind (keeps_mono ?_ keeps_starts)
    rintro _ h w db ⟨b,planned⟩
    exact starts_enacts planned .starts
  case completeDropOff =>
    cases at_tx
    refine keeps_bind (keeps_mono ?_ (keeps_completeDropOff rfl))
    rintro completed h w db (⟨rfl,t,planned⟩ | ⟨rfl,b,k,i,planned⟩)
    · exact reading_enacts planned rfl
    · exact finished_enacts planned .finishes
  case completeJob =>
    cases at_tx
    refine keeps_bind (keeps_mono ?_ (keeps_completeJob rfl))
    rintro _ h w db ⟨b,k,i,planned⟩
    exact finished_enacts planned .completes
  case writeLocation =>
    cases at_tx
    exact keeps_idle (keeps_profiles (fun _ _ => rfl) planned_start) fun _ => rfl
  case recoverUnstartedJob =>
    cases at_tx
    refine keeps_bind (keeps_mono ?_ keeps_recovers)
    rintro _ h w db ⟨b',e,k,i,planned⟩
    exact recovered_enacts planned .recovers
  case writeProfile => cases at_tx; exact keeps_idle (keeps_profiles (fun _ _ => rfl) planned_start) fun _ => rfl
  case markPresence =>
    cases at_tx
    exact keeps_idle (keeps_offboard (confined_updateUser (by simp [Offboard])) planned_start) fun _ => rfl
  case deleteProfile => cases serves.delivers
  case demote =>
    cases at_tx
    exact keeps_idle (keeps_offboard (confined_updateUser (by simp [Offboard])) planned_start) fun _ => rfl
  case promote =>
    cases at_tx
    exact keeps_idle (keeps_offboard (confined_updateUser (by simp [Offboard])) planned_start) fun _ => rfl
  case createProfile =>
    cases at_tx
    refine keeps_bind (keeps_mono ?_ keeps_creates)
    rintro _ h w db ⟨d,planned⟩
    exact creates_enacts planned .hires
  case notifyCustomers => split at at_tx <;> cases at_tx
  case requeue => split at at_tx <;> cases at_tx

end Bodies

theorem market_enacts (env : Env) : (market env).Overlays locking boarding fun s m => Timely s m = true where
  spawn _ _ _ := trivial
  query _ _ _ _ _ := trivial
  input _ _ _ _ _ _ := trivial
  add _ _ _ _ _ _ := ⟨trivial,trivial⟩
  emit _ _ _ _ _ _ := trivial
  caught _ _ _ _ := trivial
  body x T db body _ known at_tx :=
    keeps_mono (fun _ _ _ _ both => enacts_commits both.1 both.2.carries)
      (keeps_gives (enacts_body known.1.serves at_tx) (proceeds_body known.1.serves.delivers at_tx))

theorem market_atomic (env : Env) : (market env).Follows posting fun s m => Timely s m = true :=
  follows_over (market_locks env) (market_enacts env) fun _ _ => id

section Refinement
variable {env : Env} {s : MarketSessions} {db : Database}

theorem posting_open (undelivered : Undelivered db) : (Sessions.open db : MarketSessions).Disciplined posting (market env) :=
  disciplined_open ⟨⟨linked_undelivered undelivered,fun _ _ no => no.elim⟩,trivial⟩

-- One commit is one deed, on the board that was committed before.
theorem commit_deed (valid : s.Disciplined posting (market env)) (ended : s.ended m = some (x,y)) :
    Carries x y ∧ ∃ deed, Does x y deed ∧ (dispatch s.sys.db).board.Step deed (dispatch (s.move (market env) m).sys.db).board :=
  (commit_made valid ended).2.2

theorem board_still (unended : s.ended m = none) : dispatch (s.move (market env) m).sys.db = dispatch s.sys.db :=
  dispatch_rows (Sessions.rows_still (G := market env) (ended_none unended))

-- Whatever the statements of different calls do in between, their commits, in the order
-- in which they come, are a run of the board.
theorem dispatch_atomic (undelivered : Undelivered db) (moves : List MarketAct)
    (timely : ∀ made ∈ (Sessions.open db).trace (market env) moves, Timely made.1 made.2 = true) :
    ∃ deeds, List.Forall₂ (fun e deed => Does e.1 e.2 deed) ((Sessions.open db).endings (market env) moves) deeds ∧
      (dispatch db).board.Steps deeds (dispatch ((Sessions.open db).run (market env) moves).sys.db).board := by
  induction moves using List.reverseRecOn with
  | nil => exact ⟨[],.nil,.nil⟩
  | append_singleton moves m ih =>
    rw [sessions_trace_snoc] at timely
    have before : ∀ made ∈ (Sessions.open db).trace (market env) moves, Timely made.1 made.2 = true :=
      fun made member => timely made (List.mem_append_left _ member)
    obtain ⟨deeds,does,steps⟩ := ih before
    have reached := disciplined_run (market_atomic env) (posting_open undelivered) moves before
    rw [sessions_run_snoc,endings_snoc]
    generalize (Sessions.open db).run (market env) moves = now at reached steps ⊢
    cases ended : now.ended m with
    | none =>
      rw [board_still ended,Option.toList_none,List.append_nil]
      exact ⟨deeds,does,steps⟩
    | some e =>
      obtain ⟨x,y⟩ := e
      obtain ⟨_,deed,did,step⟩ := commit_deed reached ended
      exact ⟨deeds ++ [deed],List.rel_append does (.cons did .nil),.snoc steps step⟩

end Refinement

-- The second completion of the stop has not committed yet, the job is under way.
theorem dispatch_atomic_meal : ∃ deeds,
    List.Forall₂ (fun e deed => Does e.1 e.2 deed) ((Sessions.open meal).endings (market village) completedTwice) deeds ∧
      (dispatch meal).board.Steps deeds (dispatch ((Sessions.open meal).run (market village) completedTwice).sys.db).board :=
  dispatch_atomic undelivered_meal completedTwice timely_completedTwice

end MesyafMarket
