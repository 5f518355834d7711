import MesyafMarket.Dispatch.Runs
import MesyafMarket.Relational.Deadlock

namespace MesyafMarket
open Relational OrderService

abbrev MarketLock := Lock Tab Key

-- How orders, jobs, batches and stops refer to one another. The jobs in `loose`
-- are still without a claimed batch.
structure Linked (loose : Nat → Prop) (c : Dispatch) : Prop where
  unique : ∀ j j' job job', c.job j = some job → c.job j' = some job' → job.batchId = job'.batchId → j = j'
  job : ∀ i o j, c.order i = some o → o.deliveryJobId = some j →
    ∃ job, c.job j = some job ∧ o.deliveryBatchId = some job.batchId
  stop : ∀ s stop, c.stop s = some stop → ∃ job o, c.job stop.jobId = some job ∧ c.order stop.orderId = some o ∧
    o.deliveryBatchId = some job.batchId
  readyable : ∀ i o, c.order i = some o → o.status ∈ READYABLE_STATUSES → o.deliveryBatchId = none
  claimed : ∀ j job, c.job j = some job → job.status ≠ .pending → ¬loose j →
    ∃ b, c.batch job.batchId = some b ∧ b.delivererId ≠ none

def Tight (_ : Nat) : Prop := False

-- What a transaction that holds the locks `L` may make of the rows.
structure Respects (L : MarketLock → Prop) (a b : Dispatch) : Prop where
  job : ∀ j job, a.job j = some job → ∃ job', b.job j = some job' ∧ job'.batchId = job.batchId
  fresh : ∀ j job, b.job j = some job → a.job j = none → L (.key (.jobOfBatch job.batchId))
  order : ∀ i o k, a.order i = some o → o.deliveryBatchId = some k →
    ∃ o', b.order i = some o' ∧ o'.deliveryBatchId = some k
  claimed : ∀ k x, a.batch k = some x → x.delivererId ≠ none →
    (∃ x', b.batch k = some x' ∧ x'.delivererId ≠ none) ∨
    ∃ j job, b.job j = some job ∧ job.batchId = k ∧ L (.row .deliveryJob j)

variable {L L' : MarketLock → Prop} {a b c : Dispatch} {loose : Nat → Prop}

theorem Respects.refl : Respects L a a := by
  refine ⟨fun _ job found => ⟨job,found,rfl⟩,?_,fun _ o _ found batched => ⟨o,found,batched⟩,
    fun _ x found claimed => .inl ⟨x,found,claimed⟩⟩
  intro j job found none
  cases found.symm.trans none

theorem Respects.trans (first : Respects L a b) (second : Respects L b c) : Respects L a c := by
  refine ⟨?_,?_,?_,?_⟩
  · intro j job found
    obtain ⟨job₁,at_b,same₁⟩ := first.job j job found
    obtain ⟨job₂,at_c,same₂⟩ := second.job j job₁ at_b
    exact ⟨job₂,at_c,same₂.trans same₁⟩
  · intro j job found none
    cases at_b : b.job j with
    | none => exact second.fresh j job found at_b
    | some job₁ =>
      obtain ⟨job₂,at_c,same⟩ := second.job j job₁ at_b
      cases found.symm.trans at_c
      rw [same]
      exact first.fresh j job₁ at_b none
  · intro i o k found batched
    obtain ⟨o₁,at_b,batched₁⟩ := first.order i o k found batched
    exact second.order i o₁ k at_b batched₁
  · intro k x found claimed
    rcases first.claimed k x found claimed with ⟨x₁,at_b,claimed₁⟩ | ⟨j,job,at_b,same,held⟩
    · exact second.claimed k x₁ at_b claimed₁
    · obtain ⟨job',at_c,same'⟩ := second.job j job at_b
      exact .inr ⟨j,job',at_c,same'.trans same,held⟩

theorem Respects.more (wider : ∀ k, L k → L' k) (respects : Respects L a b) : Respects L' a b := by
  refine ⟨respects.job,fun j job found none => wider _ (respects.fresh j job found none),respects.order,?_⟩
  intro k x found claimed
  rcases respects.claimed k x found claimed with still | ⟨j,job,at_b,same,held⟩
  · exact .inl still
  · exact .inr ⟨j,job,at_b,same,wider _ held⟩

-- Only what is locked is written.
structure Altering (L : MarketLock → Prop) (a b : Database) : Prop where
  rows : ∀ t i, ¬L (.row t i) → b.rows t i = a.rows t i
  respects : Respects L (dispatch a) (dispatch b)

theorem dispatch_rows {a b : Database} (same : b.rows = a.rows) : dispatch b = dispatch a := by
  simp only [dispatch,same]

theorem Altering.of_rows {a b : Database} (same : b.rows = a.rows) : Altering L a b :=
  ⟨fun _ _ _ => by rw [same],by rw [dispatch_rows same]; exact .refl⟩

theorem Altering.trans {a b c : Database} (first : Altering L a b) (second : Altering L b c) : Altering L a c :=
  ⟨fun t i free => (second.rows t i free).trans (first.rows t i free),first.respects.trans second.respects⟩

theorem Altering.more {a b : Database} (wider : ∀ k, L k → L' k) (alters : Altering L a b) : Altering L' a b :=
  ⟨fun t i free => alters.rows t i fun held => free (wider _ held),alters.respects.more wider⟩

-- A transaction that has written `w` under the locks `h` since the rows were `db`,
-- and others that have made `later` of them meanwhile.
section Merge
variable {h : List MarketLock} {w : Writes Row} {db later : Database} (locked : Locked h w)
  (others : Altering (· ∉ h) db later)

-- A row is the transaction's own, or it is as the others left it.
inductive Merged (h : List MarketLock) (w : Writes Row) (db later : Database) (t : Tab) (i : Nat) : Prop where
  | own (held : .row t i ∈ h) (after : (later.apply w).rows t i = (db.apply w).rows t i)
      (before : later.rows t i = db.rows t i)
  | others (after : (later.apply w).rows t i = later.rows t i) (before : (db.apply w).rows t i = db.rows t i)

include locked others in
theorem merged (t : Tab) (i : Nat) : Merged h w db later t i := by
  cases written : w.rows t i with
  | none => exact .others (by simp [written]) (by simp [written])
  | some version =>
    have held := locked t i (by rw [written]; exact Option.some_ne_none _)
    exact .own held (by simp [written]) (others.rows t i (not_not.mpr held))

variable (view : Respects (· ∈ h) (dispatch db) (dispatch (db.apply w)))

include locked others in
theorem job_ofView (found : (dispatch (db.apply w)).job j = some job) :
    ∃ job', (dispatch (later.apply w)).job j = some job' ∧ job'.batchId = job.batchId := by
  cases merged locked others .deliveryJob j with
  | own held after before => exact ⟨job,after.trans found,rfl⟩
  | others after before =>
    obtain ⟨job',at_later,same⟩ := others.respects.job j job (before.symm.trans found)
    exact ⟨job',after.trans at_later,same⟩

include locked others view in
theorem job_ofLater (found : (dispatch later).job j = some job) :
    ∃ job', (dispatch (later.apply w)).job j = some job' ∧ job'.batchId = job.batchId := by
  cases merged locked others .deliveryJob j with
  | own held after before =>
    obtain ⟨job',at_view,same⟩ := view.job j job (before.symm.trans found)
    exact ⟨job',after.trans at_view,same⟩
  | others after before => exact ⟨job,after.trans found,rfl⟩

include locked others in
theorem order_ofView (found : (dispatch (db.apply w)).order i = some o) (batched : o.deliveryBatchId = some k) :
    ∃ o', (dispatch (later.apply w)).order i = some o' ∧ o'.deliveryBatchId = some k := by
  cases merged locked others .order i with
  | own held after before => exact ⟨o,after.trans found,batched⟩
  | others after before =>
    obtain ⟨o',at_later,same⟩ := others.respects.order i o k (before.symm.trans found) batched
    exact ⟨o',after.trans at_later,same⟩

include locked others view in
theorem order_ofLater (found : (dispatch later).order i = some o) (batched : o.deliveryBatchId = some k) :
    ∃ o', (dispatch (later.apply w)).order i = some o' ∧ o'.deliveryBatchId = some k := by
  cases merged locked others .order i with
  | own held after before =>
    obtain ⟨o',at_view,same⟩ := view.order i o k (before.symm.trans found) batched
    exact ⟨o',after.trans at_view,same⟩
  | others after before => exact ⟨o,after.trans found,batched⟩

include locked others view in
theorem altering_merged : Altering (· ∈ h) later (later.apply w) := by
  refine ⟨?_,fun j job => job_ofLater locked others view,?_,fun i o k => order_ofLater locked others view,?_⟩
  · intro t i free
    cases written : w.rows t i with
    | none => simp [written]
    | some version => exact absurd (locked t i (by rw [written]; exact Option.some_ne_none _)) free
  · intro j job found none
    cases merged locked others .deliveryJob j with
    | own held after before => exact view.fresh j job (after.symm.trans found) (before.symm.trans none)
    | others after before => cases found.symm.trans (after.trans none)
  · intro k x found claimed
    cases merged locked others .deliveryBatch k with
    | own held after before =>
      rcases view.claimed k x (before.symm.trans found) claimed with ⟨x',at_view,claimed'⟩ | ⟨j,job,at_view,same,held'⟩
      · exact .inl ⟨x',after.trans at_view,claimed'⟩
      · obtain ⟨job',at_j,same'⟩ := job_ofView locked others at_view
        exact .inr ⟨j,job',at_j,same'.trans same,held'⟩
    | others after before => exact .inl ⟨x,after.trans found,claimed⟩

variable (linked : Linked Tight (dispatch later)) (own : Linked loose (dispatch (db.apply w)))

include locked others view linked own in
theorem linked_merged : Linked loose (dispatch (later.apply w)) := by
  have job_view : ∀ {j job}, (dispatch (db.apply w)).job j = some job →
      ∃ job', (dispatch (later.apply w)).job j = some job' ∧ job'.batchId = job.batchId :=
    job_ofView locked others
  have job_later : ∀ {j job}, (dispatch later).job j = some job →
      ∃ job', (dispatch (later.apply w)).job j = some job' ∧ job'.batchId = job.batchId :=
    job_ofLater locked others view
  -- A job of the transaction and one of the others.
  have mixed : ∀ {j j' job job'}, .row .deliveryJob j ∈ h → later.rows .deliveryJob j = db.rows .deliveryJob j →
      (dispatch (db.apply w)).job j = some job → (db.apply w).rows .deliveryJob j' = db.rows .deliveryJob j' →
      (dispatch later).job j' = some job' → job.batchId = job'.batchId → j = j' := by
    intro j j' job job' held before at_view before' at_later same
    cases at_db' : (dispatch db).job j' with
    | some x =>
      obtain ⟨y,at_y,kept⟩ := others.respects.job j' x at_db'
      cases at_later.symm.trans at_y
      exact own.unique j j' job x at_view (before'.trans at_db') (same.trans kept)
    | none =>
      have unheld := others.respects.fresh j' job' at_later at_db'
      cases at_db : (dispatch db).job j with
      | none =>
        have key := view.fresh j job at_view at_db
        rw [same] at key
        exact absurd key unheld
      | some y =>
        obtain ⟨z,at_z,kept⟩ := view.job j y at_db
        cases at_view.symm.trans at_z
        exact linked.unique j j' y job' (before.trans at_db) at_later (kept.symm.trans same)
  have unique : ∀ j j' job job', (dispatch (later.apply w)).job j = some job →
      (dispatch (later.apply w)).job j' = some job' → job.batchId = job'.batchId → j = j' := by
    intro j j' job job' found found' same
    cases merged locked others .deliveryJob j with
    | own held after before =>
      cases merged locked others .deliveryJob j' with
      | own held' after' before' => exact own.unique j j' job job' (after.symm.trans found) (after'.symm.trans found') same
      | others after' before' =>
        exact mixed held before (after.symm.trans found) before' (after'.symm.trans found') same
    | others after before =>
      cases merged locked others .deliveryJob j' with
      | own held' after' before' =>
        exact (mixed held' before' (after'.symm.trans found') before (after.symm.trans found) same.symm).symm
      | others after' before' => exact linked.unique j j' job job' (after.symm.trans found) (after'.symm.trans found') same
  refine ⟨unique,?_,?_,?_,?_⟩
  · intro i o j found part
    cases merged locked others .order i with
    | own held after before =>
      obtain ⟨job,at_j,batched⟩ := own.job i o j (after.symm.trans found) part
      obtain ⟨job',at_j',same⟩ := job_view at_j
      exact ⟨job',at_j',by rw [same]; exact batched⟩
    | others after before =>
      obtain ⟨job,at_j,batched⟩ := linked.job i o j (after.symm.trans found) part
      obtain ⟨job',at_j',same⟩ := job_later at_j
      exact ⟨job',at_j',by rw [same]; exact batched⟩
  · intro s stop found
    cases merged locked others .deliveryDropOff s with
    | own held after before =>
      obtain ⟨job,o,at_j,at_o,batched⟩ := own.stop s stop (after.symm.trans found)
      obtain ⟨job',at_j',same⟩ := job_view at_j
      obtain ⟨o',at_o',batched'⟩ := order_ofView locked others at_o batched
      exact ⟨job',o',at_j',at_o',by rw [same]; exact batched'⟩
    | others after before =>
      obtain ⟨job,o,at_j,at_o,batched⟩ := linked.stop s stop (after.symm.trans found)
      obtain ⟨job',at_j',same⟩ := job_later at_j
      obtain ⟨o',at_o',batched'⟩ := order_ofLater locked others view at_o batched
      exact ⟨job',o',at_j',at_o',by rw [same]; exact batched'⟩
  · intro i o found ready
    cases merged locked others .order i with
    | own held after before => exact own.readyable i o (after.symm.trans found) ready
    | others after before => exact linked.readyable i o (after.symm.trans found) ready
  · intro j job found begun tight
    -- A claim that is given up is given up by the one who holds the job.
    have same_job : ∀ {j' job'}, (dispatch (later.apply w)).job j' = some job' → job'.batchId = job.batchId → j' = j :=
      fun at_j' same => unique _ _ _ _ at_j' found same
    cases merged locked others .deliveryJob j with
    | own held after before =>
      obtain ⟨b,at_b,claimed⟩ := own.claimed j job (after.symm.trans found) begun tight
      cases merged locked others .deliveryBatch job.batchId with
      | own _ after' _ => exact ⟨b,after'.trans at_b,claimed⟩
      | others after' before' =>
        rcases others.respects.claimed _ b (before'.symm.trans at_b) claimed with
          ⟨b',at_b',claimed'⟩ | ⟨j',job',at_j',same,unheld⟩
        · exact ⟨b',after'.trans at_b',claimed'⟩
        · obtain ⟨job'',at_j'',same'⟩ := job_later at_j'
          have hit := same_job at_j'' (same'.trans same)
          rw [hit] at unheld
          exact absurd held unheld
    | others after before =>
      have at_later := after.symm.trans found
      obtain ⟨b,at_b,claimed⟩ := linked.claimed j job at_later begun id
      cases merged locked others .deliveryBatch job.batchId with
      | others after' _ => exact ⟨b,after'.trans at_b,claimed⟩
      | own _ after' before' =>
        rcases view.claimed _ b (before'.symm.trans at_b) claimed with ⟨b',at_b',claimed'⟩ | ⟨j',job',at_j',same,held⟩
        · exact ⟨b',after'.trans at_b',claimed'⟩
        · obtain ⟨job'',at_j'',same'⟩ := job_view at_j'
          have hit := same_job at_j'' (same'.trans same)
          rw [hit] at held
          have kept := others.rows .deliveryJob j (not_not.mpr held)
          obtain ⟨b',at_b',claimed'⟩ := own.claimed j job (before.trans (kept.symm.trans at_later)) begun tight
          exact ⟨b',after'.trans at_b',claimed'⟩

end Merge

-- What the statements make of the links, a table at a time.
section Tables

-- What a write may make of an order.
structure Rejoins (c : Dispatch) (o o' : Order) : Prop where
  batch : ∀ k, o.deliveryBatchId = some k → o'.deliveryBatchId = some k
  job : ∀ j, o'.deliveryJobId = some j → ∃ job, c.job j = some job ∧ o'.deliveryBatchId = some job.batchId
  readyable : o'.status ∈ READYABLE_STATUSES → o'.deliveryBatchId = none

theorem rejoins_same (linked : Linked loose c) (found : c.order i = some o) (batch : o'.deliveryBatchId = o.deliveryBatchId)
    (job : o'.deliveryJobId = o.deliveryJobId ∨ o'.deliveryJobId = none) (readied : o'.status ∉ READYABLE_STATUSES) :
    Rejoins c o o' := by
  refine ⟨fun k batched => batch.trans batched,?_,fun ready => absurd ready readied⟩
  intro j part
  rcases job with same | none
  · rw [batch]
    exact linked.job i o j found (same.symm.trans part)
  · rw [none] at part; cases part

theorem linked_orders {p : Nat → Order → Bool} (linked : Linked loose c)
    (each : ∀ i o, c.order i = some o → p i o = true → Rejoins c o (f o)) :
    Linked loose {c with order := rewritten p f c.order} ∧ Respects L c {c with order := rewritten p f c.order} := by
  have batched : ∀ i o k, c.order i = some o → o.deliveryBatchId = some k →
      ∃ o', rewritten p f c.order i = some o' ∧ o'.deliveryBatchId = some k := by
    intro i o k found batched
    refine ⟨_,rewritten_of found,?_⟩
    split
    · rename_i hit
      exact (each i o found hit).batch k batched
    · exact batched
  refine ⟨⟨linked.unique,?_,?_,?_,linked.claimed⟩,fun _ job found => ⟨job,found,rfl⟩,?_,batched,
    fun _ x found claimed => .inl ⟨x,found,claimed⟩⟩
  · intro i o' j found part
    obtain ⟨o,before,rfl⟩ := rewritten_some found
    split at part
    · rename_i hit
      rw [if_pos hit]
      exact (each i o before hit).job j part
    · rename_i missed
      rw [if_neg missed]
      exact linked.job i o j before part
  · intro s stop found
    obtain ⟨job,o,at_j,at_o,same⟩ := linked.stop s stop found
    obtain ⟨o',at_o',same'⟩ := batched _ o _ at_o same
    exact ⟨job,o',at_j,at_o',same'⟩
  · intro i o' found ready
    obtain ⟨o,before,rfl⟩ := rewritten_some found
    split at ready
    · rename_i hit
      rw [if_pos hit]
      exact (each i o before hit).readyable ready
    · rename_i missed
      rw [if_neg missed]
      exact linked.readyable i o before ready
  · intro j job found none
    cases found.symm.trans none

theorem linked_newOrder (linked : Linked loose c) (fresh : c.order n = none) (unbatched : o.deliveryBatchId = none)
    (jobless : o.deliveryJobId = none) : Linked loose {c with order := Function.update c.order n (some o)} ∧
      Respects L c {c with order := Function.update c.order n (some o)} := by
  have kept : ∀ i r, c.order i = some r → Function.update c.order n (some o) i = some r := by
    intro i r found
    rw [Function.update_of_ne (by rintro rfl; cases fresh.symm.trans found)]
    exact found
  refine ⟨⟨linked.unique,?_,?_,?_,linked.claimed⟩,fun _ job found => ⟨job,found,rfl⟩,?_,
    fun i r _ found batched => ⟨r,kept i r found,batched⟩,fun _ x found claimed => .inl ⟨x,found,claimed⟩⟩
  · intro i r j found part
    rcases update_some found with ⟨_,rfl⟩ | ⟨_,before⟩
    · rw [jobless] at part; cases part
    · exact linked.job i r j before part
  · intro s stop found
    obtain ⟨job,r,at_j,at_r,same⟩ := linked.stop s stop found
    exact ⟨job,r,at_j,kept _ r at_r,same⟩
  · intro i r found ready
    rcases update_some found with ⟨_,rfl⟩ | ⟨_,before⟩
    · exact unbatched
    · exact linked.readyable i r before ready
  · intro j job found none
    cases found.symm.trans none

-- A job that is there stays with its batch, a new one is the first of its batch.
theorem linked_job {wider : Nat → Prop} (linked : Linked loose c)
    (alone : ∀ i job, c.job i = some job → (i = j ↔ job.batchId = new.batchId))
    (key : c.job j = none → L (.key (.jobOfBatch new.batchId)))
    (more : ∀ i, loose i → wider i) (unclaimed : wider j) :
    Linked wider {c with job := Function.update c.job j (some new)} ∧
      Respects L c {c with job := Function.update c.job j (some new)} := by
  have kept : ∀ i job, c.job i = some job →
      ∃ job', Function.update c.job j (some new) i = some job' ∧ job'.batchId = job.batchId := by
    intro i job found
    by_cases same : i = j
    · subst i
      exact ⟨new,Function.update_self ..,((alone j job found).mp rfl).symm⟩
    · exact ⟨job,by rw [Function.update_of_ne same]; exact found,rfl⟩
  refine ⟨⟨?_,?_,?_,linked.readyable,?_⟩,kept,?_,fun i o _ found batched => ⟨o,found,batched⟩,
    fun _ x found claimed => .inl ⟨x,found,claimed⟩⟩
  · intro i i' job job' found found' same
    rcases update_some found with ⟨hit,rfl⟩ | ⟨other,before⟩
    · rcases update_some found' with ⟨hit',_⟩ | ⟨other',before'⟩
      · exact hit.trans hit'.symm
      · exact absurd ((alone i' job' before').mpr same.symm) other'
    · rcases update_some found' with ⟨_,rfl⟩ | ⟨_,before'⟩
      · exact absurd ((alone i job before).mpr same) other
      · exact linked.unique i i' job job' before before' same
  · intro i o k found part
    obtain ⟨job,at_k,same⟩ := linked.job i o k found part
    obtain ⟨job',at_k',same'⟩ := kept k job at_k
    exact ⟨job',at_k',by rw [same']; exact same⟩
  · intro s stop found
    obtain ⟨job,o,at_k,at_o,same⟩ := linked.stop s stop found
    obtain ⟨job',at_k',same'⟩ := kept _ job at_k
    exact ⟨job',o,at_k',at_o,by rw [same']; exact same⟩
  · intro i job found begun tight
    rcases update_some found with ⟨rfl,rfl⟩ | ⟨_,before⟩
    · exact absurd unclaimed tight
    · exact linked.claimed i job before begun fun inside => tight (more i inside)
  · intro i job found none
    rcases update_some found with ⟨rfl,rfl⟩ | ⟨_,before⟩
    · exact key none
    · cases before.symm.trans none

-- Jobs that are rewritten keep their batch, and none stops being PENDING.
theorem linked_jobs {p : Nat → DeliveryJob → Bool} (linked : Linked loose c)
    (each : ∀ i job, c.job i = some job → p i job = true →
      (f job).batchId = job.batchId ∧ (job.status = .pending → (f job).status = .pending)) :
    Linked loose {c with job := rewritten p f c.job} ∧ Respects L c {c with job := rewritten p f c.job} := by
  have kept : ∀ i job, c.job i = some job → ∃ job', rewritten p f c.job i = some job' ∧ job'.batchId = job.batchId := by
    intro i job found
    refine ⟨_,rewritten_of found,?_⟩
    split
    · rename_i hit
      exact (each i job found hit).1
    · rfl
  have before : ∀ i job', rewritten p f c.job i = some job' →
      ∃ job, c.job i = some job ∧ job'.batchId = job.batchId ∧ (job.status = .pending → job'.status = .pending) := by
    intro i job' found
    obtain ⟨job,at_i,rfl⟩ := rewritten_some found
    refine ⟨job,at_i,?_⟩
    split
    · rename_i hit
      exact each i job at_i hit
    · exact ⟨rfl,id⟩
  refine ⟨⟨?_,?_,?_,linked.readyable,?_⟩,kept,?_,fun i o _ found batched => ⟨o,found,batched⟩,
    fun _ x found claimed => .inl ⟨x,found,claimed⟩⟩
  · intro i i' job job' found found' same
    obtain ⟨old,at_i,kept,_⟩ := before i job found
    obtain ⟨old',at_i',kept',_⟩ := before i' job' found'
    exact linked.unique i i' old old' at_i at_i' (kept.symm.trans (same.trans kept'))
  · intro i o k found part
    obtain ⟨job,at_k,same⟩ := linked.job i o k found part
    obtain ⟨job',at_k',same'⟩ := kept k job at_k
    exact ⟨job',at_k',by rw [same']; exact same⟩
  · intro s stop found
    obtain ⟨job,o,at_k,at_o,same⟩ := linked.stop s stop found
    obtain ⟨job',at_k',same'⟩ := kept _ job at_k
    exact ⟨job',o,at_k',at_o,by rw [same']; exact same⟩
  · intro i job found begun tight
    obtain ⟨old,at_i,kept,still⟩ := before i job found
    rw [kept]
    exact linked.claimed i old at_i (mt still begun) tight
  · intro i job found none
    obtain ⟨old,at_i,_⟩ := before i job found
    cases at_i.symm.trans none

theorem linked_batches {wider : Nat → Prop} {batches : Nat → Option DeliveryBatch} (linked : Linked loose c)
    (claims : ∀ j job, c.job j = some job → job.status ≠ .pending → ¬wider j →
      ∃ b, batches job.batchId = some b ∧ b.delivererId ≠ none) : Linked wider {c with batch := batches} :=
  ⟨linked.unique,linked.job,linked.stop,linked.readyable,claims⟩

theorem respects_batches {batches : Nat → Option DeliveryBatch}
    (claims : ∀ k x, c.batch k = some x → x.delivererId ≠ none → (∃ x', batches k = some x' ∧ x'.delivererId ≠ none) ∨
      ∃ j job, c.job j = some job ∧ job.batchId = k ∧ L (.row .deliveryJob j)) :
    Respects L c {c with batch := batches} := by
  refine ⟨fun _ job found => ⟨job,found,rfl⟩,?_,fun i o _ found batched => ⟨o,found,batched⟩,claims⟩
  intro j job found none
  cases found.symm.trans none

theorem linked_stops {stops : Nat → Option DeliveryDropOff} (linked : Linked loose c)
    (each : ∀ s stop, stops s = some stop → ∃ job o, c.job stop.jobId = some job ∧ c.order stop.orderId = some o ∧
      o.deliveryBatchId = some job.batchId) :
    Linked loose {c with stop := stops} ∧ Respects L c {c with stop := stops} := by
  refine ⟨⟨linked.unique,linked.job,each,linked.readyable,linked.claimed⟩,fun _ job found => ⟨job,found,rfl⟩,?_,
    fun i o _ found batched => ⟨o,found,batched⟩,fun _ x found claimed => .inl ⟨x,found,claimed⟩⟩
  intro j job found none
  cases found.symm.trans none

theorem linked_aside {people : Nat → Option User} {profiles : Nat → Option DelivererProfile} (linked : Linked loose c) :
    Linked loose {c with user := people,deliverer := profiles} ∧ Respects L c {c with user := people,deliverer := profiles} := by
  refine ⟨⟨linked.unique,linked.job,linked.stop,linked.readyable,linked.claimed⟩,fun _ job found => ⟨job,found,rfl⟩,?_,
    fun i o _ found batched => ⟨o,found,batched⟩,fun _ x found claimed => .inl ⟨x,found,claimed⟩⟩
  intro j job found none
  cases found.symm.trans none

end Tables
end MesyafMarket
