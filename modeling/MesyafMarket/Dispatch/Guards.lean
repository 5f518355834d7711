import MesyafMarket.Dispatch.Links

namespace MesyafMarket
open Relational OrderService DelivererRecoveryService

-- The rows of a batch: the batch itself, its orders, and the stops of its job.
inductive OfBatch (c : Dispatch) (b : Nat) : MarketLock → Prop where
  | batch (found : c.batch b = some k) : OfBatch c b (.row .deliveryBatch b)
  | order (found : c.order i = some o) (joined : o.deliveryBatchId = some b) : OfBatch c b (.row .order i)
  | stop (found : c.stop s = some stop) (part : c.job stop.jobId = some job) (same : job.batchId = b) :
      OfBatch c b (.row .deliveryDropOff s)

-- Who holds the batch's job may lock them, or who is about to insert it.
def Owns (h : List MarketLock) (c : Dispatch) (b : Nat) : Prop :=
  (∃ j job, c.job j = some job ∧ job.batchId = b ∧ .row .deliveryJob j ∈ h) ∨
  (.key (.jobOfBatch b) ∈ h ∧ ∀ j job, c.job j = some job → job.batchId ≠ b)

theorem owns_apart (linked : Linked loose c) (first : Owns h c b) (second : Owns h' c b) : ∃ k ∈ h, k ∈ h' := by
  rcases first with ⟨j,job,found,same,held⟩ | ⟨held,none⟩
  · rcases second with ⟨j',job',found',same',held'⟩ | ⟨_,none⟩
    · rw [linked.unique j j' job job' found found' (same.trans same'.symm)] at held
      exact ⟨_,held,held'⟩
    · exact absurd same (none j job found)
  · rcases second with ⟨j,job,found,same,_⟩ | ⟨held',_⟩
    · exact absurd same (none j job found)
    · exact ⟨_,held,held'⟩

-- Every lock is held under the one that guards it.
structure Sheltered (h : List MarketLock) (c : Dispatch) : Prop where
  joins : ∀ b, .key (.joins b) ∈ h → .key .batchLock ∈ h
  active : ∀ j, .key (.activeJob j) ∈ h → .row .deliveryJob j ∈ h
  batch : ∀ k ∈ h, ∀ b, OfBatch c b k → Owns h c b

theorem owns_more (more : ∀ k ∈ h, k ∈ h') (owns : Owns h c b) : Owns h' c b := by
  rcases owns with ⟨j,job,found,same,held⟩ | ⟨held,none⟩
  · exact .inl ⟨j,job,found,same,more _ held⟩
  · exact .inr ⟨more _ held,none⟩

section Later
variable {h : List MarketLock} {db later : Database} (others : Altering (· ∉ h) db later)
include others

theorem job_sees (held : .row .deliveryJob j ∈ h) : (dispatch later).job j = (dispatch db).job j :=
  others.rows .deliveryJob j (not_not.mpr held)

theorem order_sees (held : .row .order i ∈ h) : (dispatch later).order i = (dispatch db).order i :=
  others.rows .order i (not_not.mpr held)

theorem batch_sees (held : .row .deliveryBatch b ∈ h) : (dispatch later).batch b = (dispatch db).batch b :=
  others.rows .deliveryBatch b (not_not.mpr held)

theorem stop_sees (held : .row .deliveryDropOff s ∈ h) : (dispatch later).stop s = (dispatch db).stop s :=
  others.rows .deliveryDropOff s (not_not.mpr held)

theorem owns_sees (owns : Owns h (dispatch db) b) : Owns h (dispatch later) b := by
  rcases owns with ⟨j,job,found,same,held⟩ | ⟨held,none⟩
  · exact .inl ⟨j,job,(job_sees others held).trans found,same,held⟩
  · refine .inr ⟨held,?_⟩
    intro j job found same
    cases before : (dispatch db).job j with
    | some job' =>
      obtain ⟨job'',after,kept⟩ := others.respects.job j job' before
      cases found.symm.trans after
      exact none j job' before (kept.symm.trans same)
    | none =>
      have unheld := others.respects.fresh j job found before
      rw [same] at unheld
      exact unheld held

theorem sheltered_sees (linked : Linked loose (dispatch db)) (sheltered : Sheltered h (dispatch db)) :
    Sheltered h (dispatch later) := by
  refine ⟨sheltered.joins,sheltered.active,?_⟩
  intro k held b part
  refine owns_sees others (sheltered.batch k held b ?_)
  cases part with
  | batch found => exact .batch ((batch_sees others held).symm.trans found)
  | order found joined => exact .order ((order_sees others held).symm.trans found) joined
  | stop found part same =>
    have before := (stop_sees others held).symm.trans found
    obtain ⟨job,_,at_j,_⟩ := linked.stop _ _ before
    obtain ⟨job',after,kept⟩ := others.respects.job _ job at_j
    cases part.symm.trans after
    exact .stop before at_j (kept.symm.trans same)

end Later

-- Why a statement of a transaction that holds `h` may ask for a lock: nobody else can
-- hold it and wait, or those who do wait for locks further down.
inductive MayAsk (h : List MarketLock) (db : Database) : MarketLock → Prop where
  | held (member : k ∈ h) : MayAsk h db k
  | fresh (above : db.seq t ≤ i) : MayAsk h db (.row t i)
  | guarded (part : OfBatch (dispatch db) b k) (owns : Owns h (dispatch db) b) : MayAsk h db k
  | joins (guard : .key .batchLock ∈ h) : MayAsk h db (.key (.joins b))
  | active (guard : .row .deliveryJob j ∈ h) : MayAsk h db (.key (.activeJob j))
  | deliverer (first : ∀ i, .row .delivererProfile i ∉ h) (unlocked : .key .batchLock ∉ h)
      (ended : ∀ j job, .row .deliveryJob j ∈ h → (dispatch db).job j = some job → job.status ≠ .assigned) :
      MayAsk h db (.row .delivererProfile d)
  | job (found : (dispatch db).job j = some job) (assigned : job.status = .assigned)
      (deliverers : ∀ k ∈ h, ∃ d, k = .row .delivererProfile d) : MayAsk h db (.row .deliveryJob j)
  | batching (orders : ∀ k ∈ h, ∃ i, k = .row .order i) : MayAsk h db (.key .batchLock)

def lockRank : MarketLock → Nat
  | .row .delivererProfile _ => 2
  | .row .deliveryJob _ => 1
  | .key .batchLock => 1
  | _ => 0

theorem guarded_rank (part : OfBatch c b k) : lockRank k = 0 := by
  cases part <;> rfl

-- What a statement needs when it runs: all of its locks may be asked for, and they
-- are on rows that are there or on ids that it draws.
structure Takes (h : List MarketLock) (db : Database) (e : Effect Row Key) : Prop where
  asks : h ≠ [] → Sheltered h (dispatch db) ∧ ∀ k ∈ e.locks, MayAsk h db k
  drawn : ∀ t i, .row t i ∈ e.locks → i < (db.reserve e.writes).seq t

section Ranked
variable {P : Type} {s : System Row Key Err P}

theorem rank_falls (linked : Linked loose (dispatch s.db)) (drawn : ∀ t i, s.taken (.row t i) → i < s.db.seq t)
    (sheltered' : Sheltered (s.heldBy q) (dispatch s.db))
    (may : MayAsk (s.heldBy p) s.db k) (held : k ∈ s.heldBy q) (apart : q ≠ p)
    (may' : MayAsk (s.heldBy q) s.db k') (held' : k' ∈ s.heldBy r) (apart' : r ≠ q) : lockRank k' < lockRank k := by
  have below : ∀ {p t i}, .row t i ∈ s.heldBy p → i < s.db.seq t := by
    intro p t i member
    obtain ⟨a,at_p,inside⟩ := System.held_some member
    exact drawn t i ⟨p,a,at_p,inside⟩
  have apart_held : ∀ {k}, k ∈ s.heldBy q → k ∉ s.heldBy p := System.held_apart (Ne.symm apart)
  cases may with
  | held member => exact absurd member (apart_held held)
  | fresh above => exact absurd (below held) (by omega)
  | guarded part owns =>
    obtain ⟨k₁,mine,other⟩ := owns_apart linked owns (sheltered'.batch _ held _ part)
    exact absurd mine (apart_held other)
  | joins guard => exact absurd guard (apart_held (sheltered'.joins _ held))
  | active guard => exact absurd guard (apart_held (sheltered'.active _ held))
  | deliverer first unlocked ended =>
    cases may' with
    | held member => exact absurd member (System.held_apart (Ne.symm apart') held')
    | fresh above => exact absurd (below held') (by omega)
    | guarded part _ => rw [guarded_rank part]; exact Nat.two_pos
    | joins => exact Nat.two_pos
    | active => exact Nat.two_pos
    | deliverer none => exact absurd held (none _)
    | job => exact Nat.one_lt_two
    | batching orders =>
      obtain ⟨i,same⟩ := orders _ held
      cases same
  | job found assigned deliverers =>
    cases may' with
    | held member => exact absurd member (System.held_apart (Ne.symm apart') held')
    | fresh above => exact absurd (below held') (by omega)
    | guarded part _ => rw [guarded_rank part]; exact Nat.one_pos
    | joins => exact Nat.one_pos
    | active => exact Nat.one_pos
    | deliverer _ _ ended => exact absurd assigned (ended _ _ held found)
    | job _ _ deliverers' =>
      obtain ⟨d,same⟩ := deliverers' _ held
      cases same
    | batching orders =>
      obtain ⟨i,same⟩ := orders _ held
      cases same
  | batching orders =>
    cases may' with
    | held member => exact absurd member (System.held_apart (Ne.symm apart') held')
    | fresh above => exact absurd (below held') (by omega)
    | guarded part _ => rw [guarded_rank part]; exact Nat.one_pos
    | joins => exact Nat.one_pos
    | active => exact Nat.one_pos
    | deliverer _ unlocked _ => exact absurd held unlocked
    | job _ _ deliverers' =>
      obtain ⟨d,same⟩ := deliverers' _ held
      cases same
    | batching orders' =>
      obtain ⟨i,same⟩ := orders' _ held
      cases same

end Ranked
end MesyafMarket
