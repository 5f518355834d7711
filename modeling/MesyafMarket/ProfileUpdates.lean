import MesyafMarket.Assignability
import MesyafMarket.Relational.Scripts
import MesyafMarket.Stations

namespace MesyafMarket
open Relational DelivererService DelivererLocationService

namespace DelivererService.UpdateDelivererProfileDto

-- The row as the request asks for it: what it names, and the rest as it is.
def apply (dto : UpdateDelivererProfileDto) (p : DelivererProfile) : DelivererProfile :=
  {p with currentLat := dto.currentLat.or p.currentLat,currentLng := dto.currentLng.or p.currentLng,
          availability := dto.availability.getD p.availability}

-- No field that the request omits differs.
structure Spares (dto : UpdateDelivererProfileDto) (p q : DelivererProfile) : Prop where
  availability : dto.availability = none → q.availability = p.availability
  currentLat : dto.currentLat = none → q.currentLat = p.currentLat
  currentLng : dto.currentLng = none → q.currentLng = p.currentLng

end DelivererService.UpdateDelivererProfileDto

-- The market, with the request of each update whose last step was its read.
structure Desk where
  market : Market
  asked : Nat → Option UpdateDelivererProfileDto

namespace Desk

def request (w : Market) (p : Nat) : Option UpdateDelivererProfileDto :=
  match w.threads p with
  | some (.updateProfile _ dto) => some dto
  | _ => none

def move (env : Env) (s : Desk) (m : MarketMove) : Desk where
  market := s.market.move (MesyafMarket.market env) m
  asked := match m with
    | .step p _ => Function.update s.asked p (request s.market p)
    | .fail p | .stop p => Function.update s.asked p none
    | _ => s.asked

-- The update of the user's profile has read it and not yet written it.
def Writing (s : Desk) (p userId : Nat) (dto : UpdateDelivererProfileDto) : Prop :=
  (∃ data, s.market.threads p = some (.writeProfile userId data)) ∧ s.asked p = some dto

-- Nothing but the update itself writes a field of the profile that it omits.
def Undisturbed (env : Env) (s : Desk) (m : MarketMove) : Prop :=
  ∀ p userId dto, s.Writing p userId dto → (∀ i, m ≠ .step p i) →
    ∀ d q, (s.move env m).market.db.rows .delivererProfile d = some q → q.userId = userId →
      ∃ a, s.market.db.rows .delivererProfile d = some a ∧ a.userId = userId ∧ dto.Spares a q

-- The write of an update changes the profile as the request asks, from what the row
-- holds by then, and no other.
def Keeps (env : Env) (s : Desk) (p userId : Nat) (dto : UpdateDelivererProfileDto) : Prop :=
  ∀ i d q, (s.move env (.step p i)).market.db.rows .delivererProfile d = some q →
    ∃ a, s.market.db.rows .delivererProfile d = some a ∧ q = if a.userId = userId then dto.apply a else a

end Desk

-- The unique column of the profiles.
def OneProfile (c : Dispatch) : Prop :=
  ∀ d e p q, c.deliverer d = some p → c.deliverer e = some q → p.userId = q.userId → d = e

theorem profileData_spares {dto : UpdateDelivererProfileDto} (spares : dto.Spares p q) : profileData dto q = profileData dto p := by
  obtain ⟨availability,lat,lng⟩ := spares
  unfold profileData
  cases at_lat : dto.currentLat <;> cases at_lng : dto.currentLng <;> cases at_a : dto.availability <;>
    simp_all

-- A profile keeps its user, and a new one is of a user who had none.
theorem profile_origin (commit : Committed now x c y c') (found : c'.deliverer d = some q) :
    (∃ p, c.deliverer d = some p ∧ p.userId = q.userId) ∨
      ((∀ e p, c.deliverer e = some p → p.userId ≠ q.userId) ∧ ∀ e p, c'.deliverer e = some p → e = d ∨ c.deliverer e = some p) := by
  have updated : ∀ e (old new : DelivererProfile), c.deliverer e = some old →
      Function.update c.deliverer e (some new) d = some q → new.userId = old.userId → ∃ p, c.deliverer d = some p ∧ p.userId = q.userId := by
    intro e old new at_e hit same
    rcases update_some hit with ⟨rfl,rfl⟩ | ⟨_,before⟩
    · exact ⟨old,at_e,same.symm⟩
    · exact ⟨q,before,rfl⟩
  cases commit with
  | assign _ _ _ at_deliverer => exact .inl (updated _ _ _ at_deliverer found rfl)
  | completeLast _ _ _ _ _ _ _ _ at_deliverer => exact .inl (updated _ _ _ at_deliverer found rfl)
  | completeJob _ _ _ _ at_deliverer => exact .inl (updated _ _ _ at_deliverer found rfl)
  | writeLocation at_deliverer => exact .inl (updated _ _ _ at_deliverer found rfl)
  | recoverUnstartedJob at_deliverer => exact .inl (updated _ _ _ at_deliverer found rfl)
  | writeProfile =>
    dsimp only at found
    obtain ⟨p,before,rfl⟩ := rewritten_some found
    refine .inl ⟨p,before,?_⟩
    split <;> rfl
  | deleteProfile =>
    rw [Dispatch.forget_deliverer] at found
    exact .inl ⟨q,(removed_some.mp found).1,rfl⟩
  | createProfile _ only =>
    rcases update_some found with ⟨rfl,rfl⟩ | ⟨_,before⟩
    · refine .inr ⟨only,fun e p at_e => ?_⟩
      rcases update_some at_e with ⟨rfl,_⟩ | ⟨_,before⟩
      · exact .inl rfl
      · exact .inr before
    · exact .inl ⟨q,before,rfl⟩
  | _ => exact .inl ⟨q,found,rfl⟩

theorem oneProfile_commit (one : OneProfile c) (commit : Committed now x c y c') : OneProfile c' := by
  intro d e p q at_d at_e same
  rcases profile_origin commit at_d with ⟨p',before_d,own_d⟩ | ⟨fresh,only⟩
  · rcases profile_origin commit at_e with ⟨q',before_e,own_e⟩ | ⟨fresh,_⟩
    · exact one d e p' q' before_d before_e (by rw [own_d,own_e,same])
    · exact absurd (own_d.trans same) (fresh d p' before_d)
  · rcases only e q at_e with last | before
    · exact last.symm
    · exact absurd same.symm (fresh e q before)

theorem oneProfile_move (env : Env) {w : Market} (m : MarketMove) (one : OneProfile (dispatch w.db)) :
    OneProfile (dispatch (w.move (market env) m).db) := by
  have change := moved env w m
  generalize dispatch (w.move (market env) m).db = c at change
  cases change with
  | still => exact one
  | commit _ commit => exact oneProfile_commit one commit

namespace Desk

-- What an update is about to write is what it would make of the row as it is now.
structure Valid (s : Desk) : Prop where
  one : OneProfile (dispatch s.market.db)
  bounded : ∀ p, s.market.spawned ≤ p → s.market.threads p = none ∧ s.asked p = none
  current : ∀ p userId data dto, s.market.threads p = some (.writeProfile userId data) → s.asked p = some dto →
    ∀ d a, s.market.db.rows .delivererProfile d = some a → a.userId = userId → data = profileData dto a

theorem request_some {w : Market} (asked : request w p = some dto) : ∃ userId, w.threads p = some (.updateProfile userId dto) := by
  unfold request at asked
  split at asked
  · rename_i userId _ found
    cases asked
    exact ⟨userId,found⟩
  · cases asked

-- Only the own step of a process begins an update.
theorem asked_move {env : Env} {s : Desk} {m : MarketMove} (asked : (s.move env m).asked p = some dto) :
    (∃ i userId, m = .step p i ∧ s.market.threads p = some (.updateProfile userId dto)) ∨
      (s.asked p = some dto ∧ (∀ i, m ≠ .step p i) ∧ m ≠ .fail p ∧ m ≠ .stop p) := by
  have updated : ∀ q new, Function.update s.asked q new p = some dto → (q = p ∧ new = some dto) ∨ (p ≠ q ∧ s.asked p = some dto) := by
    intro q new hit
    by_cases same : p = q
    · subst same
      rw [Function.update_self] at hit
      exact .inl ⟨rfl,hit⟩
    · rw [Function.update_of_ne same] at hit
      exact .inr ⟨same,hit⟩
  cases m with
  | step q i =>
    rcases updated _ _ asked with ⟨rfl,known⟩ | ⟨other,before⟩
    · obtain ⟨userId,found⟩ := request_some known
      exact .inl ⟨i,userId,rfl,found⟩
    · refine .inr ⟨before,?_,nofun,nofun⟩
      rintro _ ⟨⟩
      exact other rfl
  | fail q =>
    rcases updated _ _ asked with ⟨_,none⟩ | ⟨other,before⟩
    · cases none
    · refine .inr ⟨before,nofun,?_,nofun⟩
      rintro ⟨⟩
      exact other rfl
  | stop q =>
    rcases updated _ _ asked with ⟨_,none⟩ | ⟨other,before⟩
    · cases none
    · refine .inr ⟨before,nofun,nofun,?_⟩
      rintro ⟨⟩
      exact other rfl
  | _ => exact .inr ⟨asked,nofun,nofun,nofun⟩

theorem spawned_move (env : Env) (w : Market) (m : MarketMove) : w.spawned ≤ (w.move (MesyafMarket.market env) m).spawned := by
  cases none : w.spawned with
  | zero => exact Nat.zero_le _
  | succ n => exact none ▸ (thread_moved env w m (p := 0) (by omega)).1

-- The read of an update.
theorem read_profile {env : Env} {w : Market} (found : w.threads p = some (.updateProfile userId dto)) (i : Nat → Option Point)
    (writing : (w.move (MesyafMarket.market env) (.step p i)).threads p = some (.writeProfile u data)) :
    u = userId ∧ (w.move (MesyafMarket.market env) (.step p i)).db = w.db ∧
      ∃ d b, w.db.rows .delivererProfile d = some b ∧ b.userId = userId ∧ data = profileData dto b := by
  have at_query : (MesyafMarket.market env).next (.updateProfile userId dto) = .query _ := rfl
  simp only [World.move,found,World.instr,at_query,goto_threads] at writing
  refine ⟨?_,?_,?_⟩
  · split at writing <;> cases writing
    rfl
  · simp only [World.move,found,World.instr,at_query]
    rfl
  · split at writing
    · cases writing
    · rename_i profile read
      cases writing
      obtain ⟨at_d,own⟩ := w.db.mem_matching.mp (List.mem_of_head? read)
      exact ⟨profile.1,profile.2,at_d,of_decide_eq_true own,rfl⟩

theorem valid_step (env : Env) {s : Desk} (valid : s.Valid) {m : MarketMove} (undisturbed : s.Undisturbed env m) :
    (s.move env m).Valid := by
  have grown := spawned_move env s.market m
  have known : ∀ p x, s.market.threads p = some x → p < s.market.spawned := by
    intro p x found
    by_contra above
    rw [(valid.bounded p (by omega)).1] at found
    cases found
  refine ⟨oneProfile_move env m valid.one,?_,?_⟩
  · intro p above
    have above : (s.market.move (MesyafMarket.market env) m).spawned ≤ p := above
    constructor
    · rw [Option.eq_none_iff_forall_not_mem]
      intro z found
      rcases thread_parts (MesyafMarket.market env) s.market m found with before | ⟨x,before,_⟩ | ⟨_,within,_⟩
      · have within := known p z before
        omega
      · have within := known p x before
        omega
      · omega
    · rw [Option.eq_none_iff_forall_not_mem]
      intro dto asked
      rcases asked_move asked with ⟨i,userId,_,found⟩ | ⟨before,_⟩
      · have within := known p _ found
        omega
      · rw [(valid.bounded p (by omega)).2] at before
        cases before
  · intro p userId data dto writing asked d a found own
    rcases asked_move asked with ⟨i,u,rfl,begun⟩ | ⟨before,other,running,going⟩
    · obtain ⟨rfl,still,e,b,at_e,own_b,same⟩ := read_profile begun i writing
      have at_d : s.market.db.rows .delivererProfile d = some a := by rw [← still]; exact found
      have equal := valid.one d e a b at_d at_e (own.trans own_b.symm)
      subst equal
      cases at_d.symm.trans at_e
      exact same
    · have within : p < s.market.spawned := by
        by_contra above
        rw [(valid.bounded p (by omega)).2] at before
        cases before
      rcases (thread_moved env s.market m within).2 with same | ⟨i,step⟩ | fail | stop
      · have writing : s.market.threads p = some (.writeProfile userId data) := same.symm.trans writing
        obtain ⟨b,at_d,own_b,spares⟩ := undisturbed p userId dto ⟨⟨data,writing⟩,before⟩ other d a found own
        rw [profileData_spares spares]
        exact valid.current p userId data dto writing before d b at_d own_b
      · exact absurd step (other i)
      · exact absurd fail running
      · exact absurd stop going

-- The write of an update.
theorem keeps_writing {env : Env} {s : Desk} (valid : s.Valid) (writing : s.Writing p userId dto) : s.Keeps env p userId dto := by
  obtain ⟨⟨data,at_p⟩,asked⟩ := writing
  intro i d q found
  have at_tx : (MesyafMarket.market env).next (.writeProfile userId data) =
      .tx (do updateProfileTx userId data; return .returned .done) := rfl
  simp only [move,World.move,at_p,World.instr,at_tx] at found
  cases ran : (updateProfileTx userId data).run s.market.db with
  | error e =>
    -- Without a profile of the user nothing is written.
    rw [Tx.run_bind_error.mpr (.inl ran)] at found
    refine ⟨q,found,(if_neg ?_).symm⟩
    intro own
    rw [show (updateProfileTx userId data).run s.market.db = _ from Tx.run_update found (decide_eq_true own)] at ran
    cases ran
  | ok r =>
    rw [Tx.run_bind_ok.mpr ⟨r.1,r.2,ran,rfl⟩] at found
    obtain ⟨same,_⟩ := update_parts (u := r.1) ran
    dsimp only at found
    rw [same,Db.apply_updates] at found
    obtain ⟨a,at_d,rfl⟩ := Option.map_eq_some_iff.mp found
    refine ⟨a,at_d,?_⟩
    by_cases own : a.userId = userId
    · rw [if_pos own,if_pos (decide_eq_true own),valid.current p userId data dto at_p asked d a at_d own]
      rfl
    · rw [if_neg own,if_neg (by simpa using own)]

end Desk

theorem valid_reached {env : Env} (opening : Opening start) (one : OneProfile (dispatch start.db))
    (path : Reaches (Desk.move env) (fun s m => Admitted s.market m ∧ s.Undisturbed env m) ⟨start,fun _ => none⟩ s) : s.Valid := by
  refine reaches_keeps (P := Desk.Valid) ?_ (fun s m valid allowed => Desk.valid_step env valid allowed.2) path
  refine ⟨one,fun p _ => ⟨opening.threads p,rfl⟩,?_⟩
  intro p userId data dto found
  rw [opening.threads p] at found
  cases found

-- In any run in which nothing else writes, between the read and the write of an
-- update, what it omits, an update changes what its request names and nothing else.
theorem updates_keep {env : Env} (opening : Opening start) (one : OneProfile (dispatch start.db))
    (path : Reaches (Desk.move env) (fun s m => Admitted s.market m ∧ s.Undisturbed env m) ⟨start,fun _ => none⟩ s) :
    ∀ p userId dto, s.Writing p userId dto → s.Keeps env p userId dto :=
  fun _ _ _ writing => Desk.keeps_writing (valid_reached opening one path) writing

theorem desk_moves {env : Env} {may : Desk → MarketMove → Prop} {start s : Desk} (path : Reaches (Desk.move env) may start s)
    (moves : List MarketMove) (allowed : ∀ m ∈ moves, ∀ s, may s m) : Reaches (Desk.move env) may start (moves.foldl (Desk.move env) s) := by
  induction moves generalizing s with
  | nil => exact path
  | cons m rest ih =>
    exact ih (.next path (allowed m List.mem_cons_self s)) fun later member => allowed later (List.mem_cons_of_mem _ member)

theorem oneProfile_morning : OneProfile (dispatch morning.db) := by
  intro d e p q at_d at_e same
  have rows : ∀ i (r : DelivererProfile), morning.db.rows .delivererProfile i = some r → r.userId = i+2 := by
    intro i r found
    have listed : (villageRows .delivererProfile)[i]? = some r := found
    match i with
    | 0 => cases listed; rfl
    | 1 => cases listed; rfl
    | i+2 => cases listed
  have first := rows d p at_d
  have second := rows e q at_e
  omega

def moving : UpdateDelivererProfileDto := ⟨some 1,some 1,none⟩

-- Only requests that carry both coordinates are on their way, and the move writes
-- nothing else to a profile.
def Desk.steady (s : Desk) (m : MarketMove) : Bool :=
  let v := (s.move village m).market.db
  enters m && ((List.range s.market.spawned).all fun p => (s.asked p).all fun dto => dto.currentLat.isSome && dto.currentLng.isSome) &&
    (List.range (v.seq .delivererProfile)).all fun d => (v.rows .delivererProfile d).all fun q =>
      (s.market.db.rows .delivererProfile d).any fun a => decide (a.userId = q.userId ∧ q.availability = a.availability)

theorem steady_undisturbed {s : Desk} (valid : s.Valid) (steady : s.steady m = true) : s.Undisturbed village m := by
  intro p userId dto writing _ d q found own
  simp only [Desk.steady,Bool.and_eq_true] at steady
  obtain ⟨⟨_,asks⟩,rows⟩ := steady
  have asked : s.asked p = some dto := writing.2
  have within : p < s.market.spawned := by
    by_contra above
    rw [(valid.bounded p (by omega)).2] at asked
    cases asked
  have both := List.all_eq_true.mp asks p (List.mem_range.mpr within)
  rw [asked,Option.all_some,Bool.and_eq_true] at both
  have below : d < (s.move village m).market.db.seq .delivererProfile := by
    by_contra above
    rw [(s.move village m).market.db.bounded .delivererProfile d (by omega)] at found
    cases found
  have kept := List.all_eq_true.mp rows d (List.mem_range.mpr below)
  rw [found,Option.all_some,Option.any_eq_true] at kept
  obtain ⟨a,at_d,same⟩ := kept
  obtain ⟨user,availability⟩ := of_decide_eq_true same
  refine ⟨a,at_d,user.trans own,fun _ => availability,?_,?_⟩
  · intro none
    rw [none] at both; cases both.1
  · intro none
    rw [none] at both; cases both.2

def Desk.steadily (s : Desk) : List MarketMove → Bool
  | [] => true
  | m::rest => s.steady m && (s.move village m).steadily rest

theorem steady_run {start : Market} {s : Desk} (opening : Opening start) (one : OneProfile (dispatch start.db))
    (path : Reaches (Desk.move village) (fun s m => Admitted s.market m ∧ s.Undisturbed village m) ⟨start,fun _ => none⟩ s)
    (moves : List MarketMove) (steadily : s.steadily moves = true) :
    Reaches (Desk.move village) (fun s m => Admitted s.market m ∧ s.Undisturbed village m) ⟨start,fun _ => none⟩
      (moves.foldl (Desk.move village) s) := by
  induction moves generalizing s with
  | nil => exact path
  | cons m rest ih =>
    obtain ⟨steady,later⟩ := Bool.and_eq_true_iff.mp steadily
    have entry : enters m = true := by
      simp only [Desk.steady,Bool.and_eq_true] at steady
      exact steady.1.1
    have undisturbed := steady_undisturbed (valid_reached opening one path) steady
    exact ih (.next path ⟨enters_admitted entry,undisturbed⟩) later

def Proc.profileOf : Proc → Option Nat
  | writeProfile userId _ => some userId
  | _ => none

theorem profileOf_some {x : Proc} : x.profileOf = some userId ↔ ∃ data, x = .writeProfile userId data := by
  cases x <;> simp [Proc.profileOf]

-- The cached location of the deliverer is flushed between the read and the write.
def flushedBetween : List MarketMove :=
  [.spawn (.updateProfile 2 moving),.step 0 fun _ => none,.spawn (.flushToDb 0 .own),.step 1 fun _ => some ⟨2,2⟩,
    .step 1 fun _ => none]

def flushedDesk : Desk := flushedBetween.foldl (Desk.move village) ⟨morning,fun _ => none⟩

-- The update replaces the coordinates that the flush has written.
theorem updates_keep_flushed : (flushedDesk.market.db.rows .delivererProfile 0).bind DelivererProfile.currentLat = some 2 ∧
    flushedDesk.Writing 0 2 moving ∧ flushedDesk.Keeps village 0 2 moving := by
  have path := steady_run (s := ⟨morning,fun _ => none⟩) opening_morning oneProfile_morning .start flushedBetween
    (by decide +kernel)
  have waiting : (flushedDesk.market.threads 0).bind Proc.profileOf = some 2 ∧ flushedDesk.asked 0 = some moving := by
    decide +kernel
  obtain ⟨x,at_0,writes⟩ := Option.bind_eq_some_iff.mp waiting.1
  obtain ⟨data,rfl⟩ := profileOf_some.mp writes
  have writing : flushedDesk.Writing 0 2 moving := ⟨⟨data,at_0⟩,waiting.2⟩
  exact ⟨by decide +kernel,writing,updates_keep opening_morning oneProfile_morning path 0 2 moving writing⟩

-- The deliverer is assigned between the read and the write of an update that carries
-- coordinates alone.
def overtaking : List MarketMove :=
  closedByTimer ++ (.work 0::.spawn (.updateProfile 2 moving)::.step 4 (fun _ => none)::steps 3 5)

def overtaken : Desk := overtaking.foldl (Desk.move village) ⟨morning,fun _ => none⟩

theorem update_frees_busy : ¬∀ (env : Env) (start : Market) (s : Desk), Opening start → OneProfile (dispatch start.db) →
    Reaches (Desk.move env) (fun s m => Admitted s.market m) ⟨start,fun _ => none⟩ s →
      ∀ p userId dto, s.Writing p userId dto → s.Keeps env p userId dto := by
  intro claim
  have entries : overtaking.all enters = true := by decide +kernel
  have path : Reaches (Desk.move village) (fun s m => Admitted s.market m) ⟨morning,fun _ => none⟩ overtaken :=
    desk_moves .start _ fun m member s => enters_admitted (List.all_eq_true.mp entries m member)
  have waiting : (overtaken.market.threads 4).bind Proc.profileOf = some 2 ∧ overtaken.asked 4 = some moving := by
    decide +kernel
  have writing : overtaken.Writing 4 2 moving := by
    obtain ⟨x,found,user⟩ := Option.bind_eq_some_iff.mp waiting.1
    obtain ⟨data,rfl⟩ := profileOf_some.mp user
    exact ⟨⟨data,found⟩,waiting.2⟩
  have keeps := claim village morning overtaken opening_morning oneProfile_morning path 4 2 moving writing
  have busy : (overtaken.market.db.rows .delivererProfile 0).map (fun p : DelivererProfile => p.availability) = some false := by
    decide +kernel
  have freed : ((overtaken.move village (.step 4 fun _ => none)).market.db.rows .delivererProfile 0).map
      (fun p : DelivererProfile => (p.availability,p.activeJobId)) = some (true,some 0) := by decide +kernel
  obtain ⟨q,at_q,same⟩ := Option.map_eq_some_iff.mp freed
  obtain ⟨a,at_a,rfl⟩ := keeps _ 0 q at_q
  rw [at_a,Option.map_some,Option.some.injEq] at busy
  have free := congrArg Prod.fst same
  have kept : ∀ u, (if a.userId = u then moving.apply a else a).availability = a.availability := by
    intro u
    split <;> rfl
  dsimp only at free
  rw [kept,busy] at free
  cases free

end MesyafMarket
