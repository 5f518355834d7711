import MesyafMarket.Dispatch.Members
import MesyafMarket.Stations

namespace MesyafMarket
open Relational DelivererAssignmentService DelivererJobService DelivererRecoveryService AdminService EventLogService

def PlacedBy (v : Database) (customerId orderId : Nat) : Prop :=
  ∃ o, v.rows .order orderId = some o ∧ o.customerId = customerId

def SoldBy (v : Database) (vendorId orderId : Nat) : Prop :=
  ∃ o, v.rows .order orderId = some o ∧ o.vendorId = vendorId

def ShopOf (v : Database) (userId vendorId : Nat) : Prop :=
  ∃ p, v.rows .vendorProfile vendorId = some p ∧ p.userId = userId

-- The profile was the user's, and may have been deleted since.
def RiderOf (v : Database) (userId delivererId : Nat) : Prop :=
  delivererId < v.seq .delivererProfile ∧ ∀ p, v.rows .delivererProfile delivererId = some p → p.userId = userId

-- Rows stay with whom they belong to, and the number of a deleted profile is not
-- given again.
structure Belonging (v v' : Database) : Prop where
  orders : ∀ i o, v.rows .order i = some o →
    ∃ o', v'.rows .order i = some o' ∧ o'.customerId = o.customerId ∧ o'.vendorId = o.vendorId
  vendors : v'.rows .vendorProfile = v.rows .vendorProfile
  grows : v.seq .delivererProfile ≤ v'.seq .delivererProfile
  riders : ∀ d p', d < v.seq .delivererProfile → v'.rows .delivererProfile d = some p' →
    ∃ p, v.rows .delivererProfile d = some p ∧ p'.userId = p.userId

theorem Belonging.refl (v : Database) : Belonging v v :=
  ⟨fun _ o found => ⟨o,found,rfl,rfl⟩,rfl,Nat.le_refl _,fun _ p _ found => ⟨p,found,rfl⟩⟩

theorem belonging_tick (v : Database) (ms : Nat) : Belonging v (v.tick ms) :=
  ⟨fun _ o found => ⟨o,found,rfl,rfl⟩,rfl,Nat.le_refl _,fun _ p _ found => ⟨p,found,rfl⟩⟩

theorem Belonging.trans (v v₁ v₂ : Database) (first : Belonging v v₁) (second : Belonging v₁ v₂) : Belonging v v₂ := by
  refine ⟨?_,second.vendors.trans first.vendors,Nat.le_trans first.grows second.grows,?_⟩
  · intro i o found
    obtain ⟨o₁,found₁,customer₁,vendor₁⟩ := first.orders i o found
    obtain ⟨o₂,found₂,customer₂,vendor₂⟩ := second.orders i o₁ found₁
    exact ⟨o₂,found₂,customer₂.trans customer₁,vendor₂.trans vendor₁⟩
  · intro d p₂ early found₂
    obtain ⟨p₁,found₁,same₂⟩ := second.riders d p₂ (Nat.lt_of_lt_of_le early first.grows) found₂
    obtain ⟨p,found,same₁⟩ := first.riders d p₁ early found₁
    exact ⟨p,found,same₂.trans same₁⟩

section Lasting
variable {v v' : Database}

theorem placed_on (placed : PlacedBy v c i) (belong : Belonging v v') : PlacedBy v' c i := by
  obtain ⟨o,found,own⟩ := placed
  obtain ⟨o',found',customer,_⟩ := belong.orders i o found
  exact ⟨o',found',customer.trans own⟩

theorem sold_on (sold : SoldBy v k i) (belong : Belonging v v') : SoldBy v' k i := by
  obtain ⟨o,found,own⟩ := sold
  obtain ⟨o',found',_,vendor⟩ := belong.orders i o found
  exact ⟨o',found',vendor.trans own⟩

theorem shop_on (shop : ShopOf v u k) (belong : Belonging v v') : ShopOf v' u k := by
  unfold ShopOf
  rw [belong.vendors]; exact shop

theorem rider_on (rider : RiderOf v u d) (belong : Belonging v v') : RiderOf v' u d := by
  obtain ⟨early,own⟩ := rider
  refine ⟨Nat.lt_of_lt_of_le early belong.grows,?_⟩
  intro p' found'
  obtain ⟨p,found,same⟩ := belong.riders d p' early found'
  exact same.trans (own p found)

end Lasting

-- A profile that a commit leaves was there before, unless it is the one created.
theorem deliverer_back (commit : Committed now x c y c') (other : ∀ userId, x ≠ .createProfile userId)
    (found : c'.deliverer d = some p') : ∃ p, c.deliverer d = some p ∧ p'.userId = p.userId := by
  have updated : ∀ k (old new : DelivererProfile), Function.update c.deliverer k (some new) d = some p' →
      c.deliverer k = some old → new.userId = old.userId → ∃ p, c.deliverer d = some p ∧ p'.userId = p.userId := by
    intro k old new changed at_k same
    rcases update_some changed with ⟨hit,ends⟩ | ⟨_,before⟩
    · subst hit ends; exact ⟨old,at_k,same⟩
    · exact ⟨p',before,rfl⟩
  cases commit with
  | assign _ _ _ at_deliverer => exact updated _ _ _ found at_deliverer rfl
  | completeLast _ _ _ _ _ _ _ _ at_deliverer => exact updated _ _ _ found at_deliverer rfl
  | completeJob _ _ _ _ at_deliverer => exact updated _ _ _ found at_deliverer rfl
  | writeLocation at_deliverer => exact updated _ _ _ found at_deliverer rfl
  | recoverUnstartedJob at_deliverer => exact updated _ _ _ found at_deliverer rfl
  | writeProfile =>
    dsimp only at found
    obtain ⟨old,before,same⟩ := rewritten_some found
    refine ⟨old,before,?_⟩
    rw [same]
    split <;> rfl
  | deleteProfile =>
    rw [Dispatch.forget_deliverer] at found
    exact ⟨p',(removed_some.mp found).1,rfl⟩
  | createProfile => exact absurd rfl (other _)
  | _ => exact ⟨p',found,rfl⟩

theorem createProfile_above {v v' : Database} (ran : (createProfileTx userId).run v = .ok (u,v'))
    (early : d < v.seq .delivererProfile) : v'.rows .delivererProfile d = v.rows .delivererProfile d := by
  unfold createProfileTx at ran
  obtain ⟨found,_,selected,rest⟩ := Tx.run_bind_ok.mp ran
  rw [Tx.run_select] at selected
  cases selected
  obtain ⟨user,_,read,rest⟩ := Tx.run_bind_ok.mp rest
  rw [Tx.run_findUnique] at read
  cases read
  split at rest
  · cases rest
  split at rest
  · cases rest
  obtain ⟨_,last,created,ended⟩ := Tx.run_bind_ok.mp rest
  cases ended
  rw [Tx.run_create] at created
  cases created
  rw [Db.apply_inserts]
  simp [Nat.not_le_of_lt early]

theorem belonging_commit {env : Env} {v v' : Database} (at_tx : Proc.next env x = .tx body)
    (ran : body.run v = .ok (y,v')) : Belonging v v' := by
  have commit := committed at_tx ran
  refine ⟨?_,(ongoing_commit at_tx v (y,v') ran).vendors,run_seq ran,?_⟩
  · intro i o found
    obtain ⟨o',after⟩ := order_stays commit (show (dispatch v).order i = some o from found)
    have change := order_change commit after
    rw [show (dispatch v).order i = some o from found] at change
    refine ⟨o',after,?_⟩
    cases change <;> exact ⟨rfl,rfl⟩
  · intro d p' early found
    by_cases creates : ∃ userId, x = .createProfile userId
    · obtain ⟨userId,rfl⟩ := creates
      cases at_tx
      obtain ⟨_,_,created,ended⟩ := Tx.run_bind_ok.mp ran
      cases ended
      rw [createProfile_above created early] at found
      exact ⟨p',found,rfl⟩
    · exact deliverer_back commit (fun userId same => creates ⟨userId,same⟩) found

theorem belonging_startJobOfAnyoneTx : Follows Belonging (startJobOfAnyoneTx j) := by
  intro v r ran
  have within : Confined (fun t => t ≠ .vendorProfile ∧ t ≠ .delivererProfile) (startJobOfAnyoneTx j) := by
    refine confined_bind (confined_updateMany (by decide)) fun started => ?_
    split
    · refine confined_bind confined_select fun job => ?_
      split <;> trivial
    · refine confined_bind (confined_updateMany (by decide)) fun _ => ?_
      exact confined_recordEvent (by decide) (by decide) (by decide)
  obtain ⟨riders,_⟩ := confined_run within ran (t := .delivererProfile) fun out => out.2 rfl
  refine ⟨?_,(confined_run within ran (t := .vendorProfile) fun out => out.1 rfl).1,run_seq ran,?_⟩
  · intro i o found
    unfold startJobOfAnyoneTx at ran
    obtain ⟨started,v₁,first,rest⟩ := Tx.run_bind_ok.mp ran
    have kept : v₁.rows .order = v.rows .order :=
      (confined_run (confined_updateMany (T := (· = .deliveryJob)) rfl) first (fun same => by cases same)).1
    split at rest
    · obtain ⟨job,_,_,refused⟩ := Tx.run_bind_ok.mp rest
      split at refused <;> cases refused
    · obtain ⟨_,v₂,second,recorded⟩ := Tx.run_bind_ok.mp rest
      have last : r.2.rows .order = v₂.rows .order :=
        (confined_run (confined_recordEvent (T := (· ≠ .order)) (by decide) (by decide) (by decide)) recorded
          (fun other => other rfl)).1
      obtain ⟨_,after⟩ := updateMany_parts second
      rw [last,after,Db.apply_updates]
      dsimp only
      rw [kept,found,Option.map_some]
      refine ⟨_,rfl,?_⟩
      split <;> exact ⟨rfl,rfl⟩
  · intro d p' _ found
    rw [riders] at found
    exact ⟨p',found,rfl⟩

-- What every commit and the clock keep to, every move of a station keeps to.
theorem station_rows {R : Database → Database → Prop} (refl : ∀ v, R v v) (tick : ∀ v ms, R v (v.tick ms))
    (commit : ∀ (x : Proc) body v r, Proc.next env x = .tx body → body.run v = .ok r → R v r.2)
    (anyone : ∀ j, Follows R (startJobOfAnyoneTx j)) (st : Station) (m : StationMove) :
    R st.market.db (st.move env m).1.market.db := by
  have still := refl st.market.db
  cases m with
  | market m => exact move_rows (market env) refl tick commit st.market m
  | connect | leave => exact still
  | disconnect client => simp only [Station.move]; split <;> exact still
  | message client m =>
    simp only [Station.move]
    split
    · split <;> exact still
    · exact still
  | fail h =>
    simp only [Station.move]
    split
    · rw [go_rows]; exact still
    · exact still
  | resume h =>
    simp only [Station.move]
    split
    · unfold Station.resumed
      split
      · split
        · rw [go_rows]; exact still
        · exact still
      · split
        · split
          · rename_i db ran
            dsimp only
            rw [go_rows]
            exact anyone _ _ _ ran
          · dsimp only
            rw [go_rows]; exact still
        · rw [go_rows]; exact still
    · exact still

theorem belonging_station (env : Env) (st : Station) (m : StationMove) :
    Belonging st.market.db (st.move env m).1.market.db :=
  station_rows Belonging.refl belonging_tick (fun _ _ _ _ at_tx ran => belonging_commit at_tx ran)
    (fun _ => belonging_startJobOfAnyoneTx) st m

theorem belonging_run (env : Env) (st : Station) (moves : List StationMove) :
    Belonging st.market.db (st.run env moves).1.market.db := by
  induction moves generalizing st with
  | nil => exact .refl _
  | cons m rest ih => exact .trans _ _ _ (belonging_station env st m) (ih (st.move env m).1)

end MesyafMarket
