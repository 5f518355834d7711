import MesyafMarket.Dispatch.Changes
import MesyafMarket.Dispatch.Duties
import MesyafMarket.Stations

namespace MesyafMarket
open Relational Sockets SessionService

def isOnline (v : Database) (userId : Nat) : Bool := (v.rows .user userId).any User.isOnline

-- The socket of a deliverer's handleConnection that has not set client.data yet.
def Handler.pending : Handler → Option Nat
  | delivererConnection s _ | delivererProfile s _ | delivererLastSeen s _ _ => some s
  | delivererEvents s _ _ _ _ | delivererMissed s _ _ _ | delivererOnline s _ _ _ _ => some s
  | _ => none

-- The same of the other two gateways.
def Handler.elsewhere : Handler → Option Nat
  | customerConnection s _ | customerOnline s _ _ => some s
  | vendorConnection s _ | vendorOnline s _ _ | vendorProfile s _ | vendorJoin s _ _ => some s
  | _ => none

-- A connected socket of the user whose markOnline has been committed.
def Station.Marked (st : Station) (userId s : Nat) : Prop :=
  ∃ c, st.hub.clients[s]? = some c ∧ c.space = .deliverer ∧ c.link = .connected ∧
    (c.data.userId = some userId ∨ ∃ h d missed call,
      st.handlers h = some (.delivererOnline s userId d missed call) ∧
        st.market.threads call = some (.returned .done))

def Connected (hub : Clients) (userId : Nat) : Prop :=
  ∃ c ∈ hub.clients, c.space = .deliverer ∧ c.link = .connected ∧ c.data.userId = some userId

instance : Decidable (Connected hub userId) := inferInstanceAs (Decidable (∃ _ ∈ _, _))

-- No handler is in progress, and no disconnect is still to be handled.
def Station.Quiet (st : Station) : Prop :=
  (∀ h < st.started, (st.handlers h).isNone = true) ∧ ∀ c ∈ st.hub.clients, c.link ≠ .closing

instance : Decidable (Station.Quiet st) := inferInstanceAs (Decidable (_ ∧ _))

-- The awaits of the presence handlers succeed, the process does not restart, and
-- the sockets of the user are those of the deliverers' gateway.
def Regular (userId : Nat) (st : Station) : StationMove → Prop
  | .market (.spawn x) => Entry x ∧ x.duty = none
  | .market (.stop _) | .fail _ => False
  | .market (.fail p) => ∀ presence u, st.market.threads p ≠ some (.markPresence presence u)
  | .connect space token => ∀ role, token = .payload userId role → space = .deliverer
  | _ => True

-- A markOffline commits while no socket of the user is connected and marked online,
-- and no disconnect is handled before the handleConnection of its socket has set
-- client.data.
def InOrder (userId : Nat) (st : Station) : StationMove → Prop
  | .market (.step p _) => st.market.threads p = some (.markPresence .markOffline userId) → ∀ s, ¬st.Marked userId s
  | .resume h => ∀ s, st.handlers h = some (.disconnection s) → ∀ q x, st.handlers q = some x → x.pending ≠ some s
  | _ => True

-- Why the user may be online.
inductive Station.Reason (st : Station) (userId : Nat) : Prop where
  | socket {s : Nat} (found : st.hub.clients[s]? = some c) (space : c.space = .deliverer) (own : c.data.userId = some userId)
      (link : c.link ≠ .gone)
  | leaving {s : Nat} (found : st.hub.clients[s]? = some c) (space : c.space = .deliverer) (own : c.data.userId = some userId)
      (handler : st.handlers h = some (.disconnection s))
  | marked (handler : st.handlers h = some (.delivererOnline s userId d missed call))
      (returned : st.market.threads call = some (.returned .done))
  | offline (handler : st.handlers h = some (.offline s call))
      (waiting : st.market.threads call = some (.markPresence .markOffline userId))

-- A token of the user does not go to the customers' or the vendors' gateway.
def Handler.Foreign (userId : Nat) : Handler → Prop
  | customerConnection _ token => token ≠ .payload userId .customer
  | vendorConnection _ token => token ≠ .payload userId .vendor
  | _ => True

structure Present (userId : Nat) (st : Station) : Prop where
  user : ∃ u, st.market.db.rows .user userId = some u
  online : ∀ s, st.Marked userId s → isOnline st.market.db userId = true
  reason : isOnline st.market.db userId = true → st.Reason userId
  calls : ∀ h s d missed call, st.handlers h = some (.delivererOnline s userId d missed call) →
    st.market.threads call = some (.markPresence .markOnline userId) ∨ st.market.threads call = some (.returned .done)
  awaited : ∀ p, st.market.threads p = some (.markPresence .markOnline userId) →
    ∃ h s d missed, st.handlers h = some (.delivererOnline s userId d missed p)
  opening : ∀ h x (s : Nat), st.handlers h = some x → x.pending = some s →
    ∃ c, st.hub.clients[s]? = some c ∧ c.space = .deliverer ∧ c.data.userId = none
  single : ∀ h q x y s, st.handlers h = some x → st.handlers q = some y → x.pending = some s → y.pending = some s → h = q
  others : ∀ h x (s : Nat), st.handlers h = some x → x.elsewhere = some s →
    ∃ c, st.hub.clients[s]? = some c ∧ c.space ≠ .deliverer
  foreign : ∀ h x, st.handlers h = some x → x.Foreign userId
  gone : ∀ h x (s : Nat) c, st.handlers h = some x → x.pending = some s → st.hub.clients[s]? = some c → c.link = .gone →
    ∃ q, st.handlers q = some (.disconnection s)
  below : ∀ p x, st.market.threads p = some x → p < st.market.spawned
  begun : ∀ h x, st.handlers h = some x → h < st.started

variable {userId : Nat}

section Market
variable {env : Env}

-- A call of the session service commits, for there is the user's row.
theorem step_presence (env : Env) {w : Market} (i : Nat → Option Point) (found : w.threads p = some (.markPresence presence u))
    (user : w.db.rows .user u = some row) :
    ∃ db, w.move (market env) (.step p i) = {w.goto p (.returned .done) with db := db} ∧
      db.rows .user u = some (presence.apply w.db.clock row) ∧ ∀ t, t ≠ .user → db.rows t = w.db.rows t := by
  have at_tx : Proc.next env (.markPresence presence u) = .tx (do presenceTx presence u; return .returned .done) := rfl
  have marked : (presenceTx presence u).run w.db =
      .ok ((),w.db.apply (w.db.updates .user (fun i _ => i = u) (presence.apply w.db.clock))) :=
    Tx.run_update user (decide_eq_true rfl)
  have next : (market env).next (.markPresence presence u) = .tx _ := at_tx
  refine ⟨w.db.apply (w.db.updates .user (fun i _ => i = u) (presence.apply w.db.clock)),?_,?_,
    fun t other => w.db.apply_updates_other other⟩
  · simp only [World.move,found,World.instr,next,Tx.run_bind,marked]
    rfl
  · rw [Db.apply_updates]
    simp [user]

theorem online_kept (commit : Committed now x c y c') (other : ∀ presence, x ≠ .markPresence presence userId)
    (found : c.user userId = some u) : ∃ u', c'.user userId = some u' ∧ u'.isOnline = u.isOnline := by
  have updated : ∀ k (old new : User), c.user k = some old → new.isOnline = old.isOnline →
      ∃ u', Function.update c.user k (some new) userId = some u' ∧ u'.isOnline = u.isOnline := by
    intro k old new at_k same
    exact update_kept (P := fun u u' => u'.isOnline = u.isOnline) at_k found new rfl same
  cases commit with
  | @markPresence u presence k at_user =>
    by_cases hit : userId = k
    · subst hit; exact absurd rfl (other presence)
    · exact ⟨_,by dsimp only; rw [Function.update_of_ne hit]; exact found,rfl⟩
  | demote at_user => exact updated _ _ _ at_user rfl
  | promote at_user => exact updated _ _ _ at_user rfl
  | _ => exact ⟨u,found,rfl⟩

theorem online_of (found : v.rows .user userId = some u) : isOnline v userId = u.isOnline := by
  unfold isOnline
  rw [found]
  rfl

-- Any move but a step of the session service leaves the user as it is.
theorem online_moved (env : Env) {w : Market} (m : MarketMove) (user : ∃ u, w.db.rows .user userId = some u)
    (other : ∀ p i presence, m = .step p i → w.threads p ≠ some (.markPresence presence userId)) :
    (∃ u, (w.move (market env) m).db.rows .user userId = some u) ∧
      isOnline (w.move (market env) m).db userId = isOnline w.db userId := by
  obtain ⟨u,found⟩ := user
  have change := moved env w m
  generalize same : dispatch (w.move (market env) m).db = c at change
  have rows : (w.move (market env) m).db.rows .user userId = c.user userId := by rw [← same]; rfl
  cases change with
  | still => exact ⟨⟨u,rows.trans found⟩,by rw [online_of (rows.trans found),online_of found]⟩
  | commit at_p commit =>
    obtain ⟨u',found',kept⟩ := online_kept commit (fun presence same => other _ _ presence rfl (same ▸ at_p)) found
    exact ⟨⟨u',rows.trans found'⟩,by rw [online_of (rows.trans found'),online_of found,kept]⟩

theorem presence_before {w : Market} {m : MarketMove}
    (found : (w.move (market env) m).threads p = some (.markPresence presence u))
    (regular : ∀ x, m = .spawn x → x.duty = none) : w.threads p = some (.markPresence presence u) := by
  rcases thread_parts (market env) w m found with before | ⟨x,_,flows⟩ | ⟨_,_,spawned | ⟨task,_,worker⟩⟩
  · exact before
  · obtain ⟨_,_,same,_⟩ := flows_duty flows rfl
    cases same
  · exact absurd (regular _ spawned) nofun
  · cases task <;> cases worker

-- A process that is marking the user, or has returned, stays so but for its own step.
theorem thread_waits {st : Station} {m : MarketMove} (regular : Regular userId st (.market m))
    (within : p < st.market.spawned) (found : st.market.threads p = some x)
    (waits : (∃ presence, x = .markPresence presence userId) ∨ ∃ reply, x = .returned reply)
    (other : ∀ i presence, m = .step p i → x ≠ .markPresence presence userId) :
    (st.market.move (market env) m).threads p = some x := by
  rcases (thread_moved env st.market m within).2 with same | ⟨i,rfl⟩ | rfl | rfl
  · rw [same]; exact found
  · rcases waits with ⟨presence,same⟩ | ⟨reply,same⟩
    · exact absurd same (other i presence rfl)
    · subst same
      have at_end : Proc.next env (.returned reply) = .done := rfl
      rw [(step_done (i := i) found at_end).1]
      exact found
  · rcases waits with ⟨presence,same⟩ | ⟨reply,same⟩
    · subst same; exact absurd found (regular presence userId)
    · subst same
      simp only [World.move,found,World.goto,Function.update_self]
      rfl
  · exact regular.elim

theorem below_move {w : Market} (below : ∀ p x, w.threads p = some x → p < w.spawned) (m : MarketMove)
    (found : (w.move (market env) m).threads p = some x) : p < (w.move (market env) m).spawned := by
  by_cases within : p < w.spawned
  · exact Nat.lt_of_lt_of_le within (thread_moved env w m within).1
  · rcases thread_parts (market env) w m found with before | ⟨y,at_p,_⟩ | ⟨_,new,_⟩
    · exact absurd (below p x before) within
    · exact absurd (below p y at_p) within
    · exact new

-- A move of the services keeps the handlers and the hub. What it changes for the
-- user is one of three commits, and where the process that made it is then.
theorem present_market {st : Station} {m : MarketMove} (present : Present userId st)
    (regular : Regular userId st (.market m)) (ordered : InOrder userId st (.market m)) :
    Present userId {st with market := st.market.move (market env) m} := by
  obtain ⟨u,at_user⟩ := present.user
  have before : ∀ {p presence k}, (st.market.move (market env) m).threads p = some (.markPresence presence k) →
      st.market.threads p = some (.markPresence presence k) := by
    intro p presence k found
    refine presence_before found ?_
    intro x same
    subst same
    exact regular.2
  have below : ∀ p x, (st.market.move (market env) m).threads p = some x →
      p < (st.market.move (market env) m).spawned := fun p x found => below_move present.below m found
  have stays : ∀ {p x}, st.market.threads p = some x →
      ((∃ presence, x = .markPresence presence userId) ∨ ∃ reply, x = .returned reply) →
      (∀ i presence, m = .step p i → x ≠ .markPresence presence userId) →
      (st.market.move (market env) m).threads p = some x :=
    fun found waits other => thread_waits regular (present.below _ _ found) found waits other
  by_cases steps : ∃ p i presence, m = .step p i ∧ st.market.threads p = some (.markPresence presence userId)
  · obtain ⟨p,i,presence,rfl,at_p⟩ := steps
    obtain ⟨db,moved,after,_⟩ := step_presence env i at_p at_user
    have threads : ∀ q, (st.market.move (market env) (.step p i)).threads q =
        if q = p then some (.returned .done) else st.market.threads q := by
      intro q
      rw [moved]
      exact Function.update_apply ..
    have marked : ∀ s, Station.Marked {st with market := st.market.move (market env) (.step p i)} userId s →
        presence = .markOnline ∨ st.Marked userId s := by
      intro s mark
      obtain ⟨c,found,space,link,own | ⟨h,d,missed,call,handler,returned⟩⟩ := mark
      · exact .inr ⟨c,found,space,link,.inl own⟩
      · by_cases same : call = p
        · subst call
          rcases present.calls h s d missed p handler with waiting | done
          · rw [at_p] at waiting; cases waiting; exact .inl rfl
          · rw [at_p] at done; cases done
        · dsimp only at returned
          rw [threads call,if_neg same] at returned
          exact .inr ⟨c,found,space,link,.inr ⟨h,d,missed,call,handler,returned⟩⟩
    have online : isOnline (st.market.move (market env) (.step p i)).db userId = (presence.apply st.market.db.clock u).isOnline := by
      rw [moved]; exact online_of after
    refine ⟨⟨_,by rw [moved]; exact after⟩,?_,?_,?_,?_,present.opening,present.single,present.others,present.foreign,
      present.gone,below,present.begun⟩
    · intro s mark
      rw [online]
      cases presence with
      | markOnline => rfl
      | markOffline =>
        rcases marked s mark with same | mark
        · cases same
        · exact absurd mark (ordered at_p s)
      | heartbeat =>
        rcases marked s mark with same | mark
        · cases same
        · exact (online_of at_user).symm.trans (present.online s mark)
    · intro now
      rw [online] at now
      cases presence with
      | markOnline =>
        obtain ⟨h,s,d,missed,handler⟩ := present.awaited p at_p
        exact .marked handler (by rw [threads,if_pos rfl])
      | markOffline => cases now
      | heartbeat =>
        cases present.reason (by rw [online_of at_user]; exact now) with
        | socket found space own link => exact .socket found space own link
        | leaving found space own handler => exact .leaving found space own handler
        | @marked h s d missed call handler returned =>
          refine .marked handler ?_
          rw [threads]
          split
          · rfl
          · exact returned
        | @offline h s call handler waiting =>
          refine .offline handler ?_
          rw [threads,if_neg]
          · exact waiting
          · intro same
            subst same
            rw [at_p] at waiting; cases waiting
    · intro h s d missed call handler
      rw [threads]
      split
      · exact .inr rfl
      · exact present.calls h s d missed call handler
    · intro q waiting
      exact present.awaited q (before waiting)
  · have other : ∀ q i presence, m = .step q i → st.market.threads q ≠ some (.markPresence presence userId) :=
      fun q i presence same at_q => steps ⟨q,i,presence,same,at_q⟩
    obtain ⟨user,online⟩ := online_moved env m present.user other
    have waits : ∀ {p presence}, st.market.threads p = some (.markPresence presence userId) →
        (st.market.move (market env) m).threads p = some (.markPresence presence userId) := by
      intro p presence found
      refine stays found (.inl ⟨presence,rfl⟩) ?_
      intro i presence' same _
      exact other p i presence same found
    have done : ∀ {p reply}, st.market.threads p = some (.returned reply) →
        (st.market.move (market env) m).threads p = some (.returned reply) :=
      fun found => stays found (.inr ⟨_,rfl⟩) fun _ _ _ => nofun
    refine ⟨user,?_,?_,?_,?_,present.opening,present.single,present.others,present.foreign,present.gone,below,
      present.begun⟩
    · intro s mark
      rw [online]
      obtain ⟨c,found,space,link,own | ⟨h,d,missed,call,handler,returned⟩⟩ := mark
      · exact present.online s ⟨c,found,space,link,.inl own⟩
      · refine present.online s ⟨c,found,space,link,.inr ⟨h,d,missed,call,handler,?_⟩⟩
        rcases present.calls h s d missed call handler with waiting | returned'
        · have still := waits waiting
          dsimp only at returned
          rw [still] at returned; cases returned
        · exact returned'
    · intro now
      rw [online] at now
      cases present.reason now with
      | socket found space own link => exact .socket found space own link
      | leaving found space own handler => exact .leaving found space own handler
      | marked handler returned => exact .marked handler (done returned)
      | offline handler waiting => exact .offline handler (waits waiting)
    · intro h s d missed call handler
      rcases present.calls h s d missed call handler with waiting | returned
      · exact .inl (waits waiting)
      · exact .inr (done returned)
    · intro q waiting
      exact present.awaited q (before waiting)

end Market

-- A change of the hub that leaves the deliverers' sockets their data, and at most
-- closes some of them or accepts new ones.
structure Client.Settled (c c' : Client Space Room ClientData) : Prop where
  space : c'.space = c.space
  data : c.space = .deliverer → c'.data = c.data
  link : c'.link = c.link ∨ (c.link = .connected ∧ c'.link = .closing)

theorem settled_refl (c : Client Space Room ClientData) : Client.Settled c c := ⟨rfl,fun _ => rfl,.inl rfl⟩

structure Steady (hub hub' : Clients) : Prop where
  forth : ∀ (s : Nat) c, hub.clients[s]? = some c → ∃ c', hub'.clients[s]? = some c' ∧ Client.Settled c c'
  back : ∀ (s : Nat) c', hub'.clients[s]? = some c' → (∃ c, hub.clients[s]? = some c ∧ Client.Settled c c') ∨
    (hub.clients[s]? = none ∧ c'.link = .connected ∧ c'.data.userId = none)

theorem steady_refl (hub : Clients) : Steady hub hub :=
  ⟨fun _ c found => ⟨c,found,settled_refl c⟩,fun _ c found => .inl ⟨c,found,settled_refl c⟩⟩

theorem steady_change {hub : Clients} (settled : ∀ c, hub.clients[s]? = some c → Client.Settled c (f c)) :
    Steady hub (hub.change s f) := by
  have at_client : ∀ i : Nat, (hub.change s f).clients[i]? = (hub.clients[i]?).map fun c => if s = i then f c else c := by
    intro i
    simp only [Hub.change,List.getElem?_modify]
    rfl
  constructor
  · intro i c found
    rw [at_client,found]
    refine ⟨_,rfl,?_⟩
    split
    · rename_i same
      subst same; exact settled c found
    · exact settled_refl c
  · intro i c' found
    rw [at_client] at found
    obtain ⟨c,before,same⟩ := Option.map_eq_some_iff.mp found
    refine .inl ⟨c,before,?_⟩
    subst same
    split
    · rename_i same
      subst same; exact settled c before
    · exact settled_refl c

theorem steady_join (hub : Clients) : Steady hub (hub.join s room) :=
  steady_change fun _ _ => ⟨rfl,fun _ => rfl,.inl rfl⟩

theorem steady_close (hub : Clients) : Steady hub (hub.close s) := by
  refine steady_change fun c _ => ?_
  split
  · rename_i connected
    exact ⟨rfl,fun _ => rfl,.inr ⟨connected,rfl⟩⟩
  · exact settled_refl c

-- A socket of another namespace is told who it is, and joins a room.
theorem steady_identify (hub : Clients) (elsewhere : ∃ c, hub.clients[s]? = some c ∧ c.space ≠ .deliverer) :
    Steady hub ((hub.identify s data).join s room) := by
  obtain ⟨c,found,space⟩ := elsewhere
  have both : (hub.identify s data).join s room =
      hub.change s fun c => {c with data := data,rooms := room::c.rooms} := by
    simp only [Hub.join,Hub.identify,Hub.change,List.modify_modify_eq]
    rfl
  rw [both]
  refine steady_change fun c' found' => ?_
  obtain rfl := Option.some.inj (found.symm.trans found')
  exact ⟨rfl,fun same => absurd same space,.inl rfl⟩

theorem steady_accept (hub : Clients) (space : Space) (data : ClientData) (undefined : data.userId = none) :
    Steady hub (hub.accept space data) := by
  constructor
  · intro s c found
    obtain ⟨within,_⟩ := List.getElem?_eq_some_iff.mp found
    refine ⟨c,?_,settled_refl c⟩
    simp only [Hub.accept]
    rw [List.getElem?_append_left within]
    exact found
  · intro s c' found
    by_cases within : s < hub.clients.length
    · simp only [Hub.accept] at found
      rw [List.getElem?_append_left within] at found
      exact .inl ⟨c',found,settled_refl c'⟩
    · refine .inr ⟨List.getElem?_eq_none (by omega),?_⟩
      simp only [Hub.accept] at found
      rw [List.getElem?_append_right (by omega)] at found
      have last : c' ∈ [(⟨space,.connected,[],data⟩ : Client Space Room ClientData)] := List.mem_of_getElem? found
      rw [List.mem_singleton.mp last]
      exact ⟨rfl,undefined⟩

theorem present_hub {st : Station} (present : Present userId st) (steady : Steady st.hub hub) :
    Present userId {st with hub := hub} := by
  refine ⟨present.user,?_,?_,present.calls,present.awaited,?_,present.single,?_,present.foreign,?_,present.below,
    present.begun⟩
  · intro s mark
    obtain ⟨c',found',space,link,own⟩ := mark
    rcases steady.back s c' found' with ⟨c,found,settled⟩ | ⟨new,_,undefined⟩
    · have at_deliverers : c.space = .deliverer := settled.space.symm.trans space
      have connected : c.link = .connected := by
        rcases settled.link with same | ⟨was,_⟩
        · exact same.symm.trans link
        · exact was
      refine present.online s ⟨c,found,at_deliverers,connected,?_⟩
      rw [settled.data at_deliverers] at own
      exact own
    · rcases own with own | ⟨h,d,missed,call,handler,_⟩
      · rw [undefined] at own; cases own
      · obtain ⟨c,found,_⟩ := present.opening h _ s handler rfl
        rw [new] at found; cases found
  · intro now
    have kept : ∀ (s : Nat) c, st.hub.clients[s]? = some c → c.space = .deliverer → c.data.userId = some userId →
        ∃ c', hub.clients[s]? = some c' ∧ c'.space = .deliverer ∧ c'.data.userId = some userId ∧
          (c.link ≠ .gone → c'.link ≠ .gone) := by
      intro s c found space own
      obtain ⟨c',found',settled⟩ := steady.forth s c found
      refine ⟨c',found',settled.space.trans space,by rw [settled.data space]; exact own,?_⟩
      intro link
      rcases settled.link with same | ⟨_,closing⟩
      · rw [same]; exact link
      · rw [closing]; exact nofun
    cases present.reason now with
    | socket found space own link =>
      obtain ⟨c',found',space',own',still⟩ := kept _ _ found space own
      exact .socket found' space' own' (still link)
    | leaving found space own handler =>
      obtain ⟨c',found',space',own',_⟩ := kept _ _ found space own
      exact .leaving found' space' own' handler
    | marked handler returned => exact .marked handler returned
    | offline handler waiting => exact .offline handler waiting
  · intro h x s handler pending
    obtain ⟨c,found,space,undefined⟩ := present.opening h x s handler pending
    obtain ⟨c',found',settled⟩ := steady.forth s c found
    exact ⟨c',found',settled.space.trans space,by rw [settled.data space]; exact undefined⟩
  · intro h x s handler elsewhere
    obtain ⟨c,found,space⟩ := present.others h x s handler elsewhere
    obtain ⟨c',found',settled⟩ := steady.forth s c found
    exact ⟨c',found',by rw [settled.space]; exact space⟩
  · intro h x s c' handler pending found' gone
    rcases steady.back s c' found' with ⟨c,found,settled⟩ | ⟨_,connected,_⟩
    · refine present.gone h x s c handler pending found ?_
      rcases settled.link with same | ⟨_,closing⟩
      · exact same.symm.trans gone
      · rw [closing] at gone; cases gone
    · rw [connected] at gone; cases gone

-- What a handler may go on to without taking part in the presence of the user.
structure Handler.Succeeds (userId : Nat) (x y : Handler) : Prop where
  pending : y.pending = none ∨ y.pending = x.pending
  elsewhere : y.elsewhere = none ∨ y.elsewhere = x.elsewhere
  foreign : y.Foreign userId
  online : ∀ s d missed call, y ≠ .delivererOnline s userId d missed call

-- A handler that the user's being online does not rest on.
structure Station.Rests (st : Station) (userId : Nat) (x : Handler) : Prop where
  leaving : ∀ s, x ≠ .disconnection s
  offline : ∀ s call, x = .offline s call → st.market.threads call ≠ some (.markPresence .markOffline userId)
  online : ∀ s d missed call, x ≠ .delivererOnline s userId d missed call

def Station.put (st : Station) (h : Nat) (next : Option Handler) : Station :=
  {st with handlers := Function.update st.handlers h next}

theorem put_still {st : Station} (found : st.handlers h = some x) (next : Option Handler) {q : Nat} {y : Handler}
    (at_q : st.handlers q = some y) (other : y ≠ x) : (st.put h next).handlers q = some y := by
  have apart : q ≠ h := by
    intro same
    subst q
    exact other (Option.some.inj (at_q.symm.trans found))
  simp only [Station.put,Function.update_of_ne apart]
  exact at_q

theorem reason_put {st : Station} (found : st.handlers h = some x) (rests : st.Rests userId x) (next : Option Handler)
    (reason : st.Reason userId) : (st.put h next).Reason userId := by
  cases reason with
  | socket at_client space own link => exact .socket at_client space own link
  | leaving at_client space own handler =>
    exact .leaving at_client space own (put_still found next handler fun same => rests.leaving _ same.symm)
  | marked handler returned =>
    exact .marked (put_still found next handler fun same => rests.online _ _ _ _ same.symm) returned
  | offline handler waiting =>
    exact .offline (put_still found next handler fun same => rests.offline _ _ same.symm waiting) waiting

theorem present_put {st : Station} (present : Present userId st) (found : st.handlers h = some x)
    (online : ∀ s d missed call, x ≠ .delivererOnline s userId d missed call)
    (leaves : ∀ s, x = .disconnection s → ∀ q y, st.handlers q = some y → y.pending ≠ some s)
    (next : Option Handler) (goes : ∀ y, next = some y → x.Succeeds userId y)
    (reason : st.Reason userId → (st.put h next).Reason userId) : Present userId (st.put h next) := by
  have now : ∀ {q y}, (st.put h next).handlers q = some y → (q = h ∧ x.Succeeds userId y) ∨ st.handlers q = some y := by
    intro q y at_q
    by_cases same : q = h
    · subst q
      simp only [Station.put,Function.update_self] at at_q
      exact .inl ⟨rfl,goes y at_q⟩
    · simp only [Station.put,Function.update_of_ne same] at at_q
      exact .inr at_q
  have still : ∀ {q y}, st.handlers q = some y → y ≠ x → (st.put h next).handlers q = some y := put_still found next
  refine ⟨present.user,?_,?_,?_,?_,?_,?_,?_,?_,?_,present.below,?_⟩
  · intro s mark
    obtain ⟨c,at_client,space,link,own | ⟨q,d,missed,call,handler,returned⟩⟩ := mark
    · exact present.online s ⟨c,at_client,space,link,.inl own⟩
    · rcases now handler with ⟨_,succeeds⟩ | before
      · exact absurd rfl (succeeds.online s d missed call)
      · exact present.online s ⟨c,at_client,space,link,.inr ⟨q,d,missed,call,before,returned⟩⟩
  · exact fun on => reason (present.reason on)
  · intro q s d missed call handler
    rcases now handler with ⟨_,succeeds⟩ | before
    · exact absurd rfl (succeeds.online s d missed call)
    · exact present.calls q s d missed call before
  · intro p waiting
    obtain ⟨q,s,d,missed,handler⟩ := present.awaited p waiting
    exact ⟨q,s,d,missed,still handler fun same => online _ _ _ _ same.symm⟩
  · intro q y s handler pending
    rcases now handler with ⟨_,succeeds⟩ | before
    · rcases succeeds.pending with none | same
      · rw [none] at pending; cases pending
      · exact present.opening h x s found (same.symm.trans pending)
    · exact present.opening q y s before pending
  · intro q q' y y' s handler handler' pending pending'
    have own : ∀ {i z}, (st.put h next).handlers i = some z → z.pending = some s →
        ∃ z', st.handlers i = some z' ∧ z'.pending = some s := by
      intro i z at_i pending
      rcases now at_i with ⟨same,succeeds⟩ | before
      · rcases succeeds.pending with none | kept
        · rw [none] at pending; cases pending
        · exact ⟨x,by rw [same]; exact found,kept.symm.trans pending⟩
      · exact ⟨z,before,pending⟩
    obtain ⟨z,at_q,pending₁⟩ := own handler pending
    obtain ⟨z',at_q',pending₂⟩ := own handler' pending'
    exact present.single q q' z z' s at_q at_q' pending₁ pending₂
  · intro q y s handler elsewhere
    rcases now handler with ⟨_,succeeds⟩ | before
    · rcases succeeds.elsewhere with none | same
      · rw [none] at elsewhere; cases elsewhere
      · exact present.others h x s found (same.symm.trans elsewhere)
    · exact present.others q y s before elsewhere
  · intro q y handler
    rcases now handler with ⟨_,succeeds⟩ | before
    · exact succeeds.foreign
    · exact present.foreign q y before
  · intro q y s c handler pending at_client gone
    have opens : ∃ j z, st.handlers j = some z ∧ z.pending = some s := by
      rcases now handler with ⟨_,succeeds⟩ | before
      · rcases succeeds.pending with none | same
        · rw [none] at pending; cases pending
        · exact ⟨h,x,found,same.symm.trans pending⟩
      · exact ⟨q,y,before,pending⟩
    obtain ⟨j,z,at_j,opening⟩ := opens
    obtain ⟨i,leaving⟩ := present.gone j z s c at_j opening at_client gone
    exact ⟨i,still leaving fun same => leaves s same.symm j z at_j opening⟩
  · intro q y handler
    rcases now handler with ⟨same,_⟩ | before
    · rw [same]; exact present.begun h x found
    · exact present.begun q y before

theorem present_service {st : Station} (present : Present userId st)
    (duty : service.duty ≠ some (.presence .markOnline userId)) :
    Present userId {st with market := st.market.start service} := by
  have kept : ∀ {p x}, st.market.threads p = some x → (st.market.start service).threads p = some x := by
    intro p x found
    have within := present.below p x found
    simp only [World.start,Function.update_of_ne (Nat.ne_of_lt within)]
    exact found
  refine ⟨present.user,?_,?_,?_,?_,present.opening,present.single,present.others,present.foreign,present.gone,?_,
    present.begun⟩
  · intro s mark
    obtain ⟨c,found,space,link,own | ⟨h,d,missed,call,handler,returned⟩⟩ := mark
    · exact present.online s ⟨c,found,space,link,.inl own⟩
    · refine present.online s ⟨c,found,space,link,.inr ⟨h,d,missed,call,handler,?_⟩⟩
      rcases present.calls h s d missed call handler with waiting | done
      · rw [kept waiting] at returned; cases returned
      · exact done
  · intro on
    cases present.reason on with
    | socket found space own link => exact .socket found space own link
    | leaving found space own handler => exact .leaving found space own handler
    | marked handler returned => exact .marked handler (kept returned)
    | offline handler waiting => exact .offline handler (kept waiting)
  · intro h s d missed call handler
    rcases present.calls h s d missed call handler with waiting | returned
    · exact .inl (kept waiting)
    · exact .inr (kept returned)
  · intro p waiting
    rcases start_parts waiting with ⟨_,same⟩ | before
    · subst same; exact absurd rfl duty
    · exact present.awaited p before
  · intro p x found
    rcases start_parts found with ⟨last,_⟩ | before
    · rw [last]; exact Nat.lt_succ_self _
    · exact Nat.lt_succ_of_lt (present.below p x before)

theorem present_go {st : Station} {segment : Segment} (present : Present userId st) (found : st.handlers h = some x)
    (rests : st.Rests userId x) (steady : Steady st.hub segment.hub) (goes : segment.next.Goes (x.Succeeds userId))
    (duty : ∀ service y, segment.next = .call service y → service.duty ≠ some (.presence .markOnline userId)) :
    Present userId (st.go h segment) := by
  obtain ⟨hub,emitted,next⟩ := segment
  have kept := present_hub present steady
  have rests' : Station.Rests {st with hub := hub} userId x := ⟨rests.leaving,rests.offline,rests.online⟩
  have put : ∀ next : Option Handler, (∀ y, next = some y → x.Succeeds userId y) →
      Present userId (Station.put {st with hub := hub} h next) :=
    fun next goes => present_put kept found rests.online (fun s same => absurd same (rests.leaving s)) next goes
      (reason_put (by exact found) rests' next)
  cases next with
  | finished => exact put none fun _ => nofun
  | await y =>
    refine put (some y) ?_
    intro z same
    cases same
    exact goes
  | call service y =>
    refine present_service (put (some (y st.market.spawned)) ?_) (duty service y rfl)
    intro z same
    cases same
    exact goes _

theorem present_begin {st : Station} (present : Present userId st) (y : Handler)
    (opens : ∀ s, y.pending = some s →
      (∃ c, st.hub.clients[s]? = some c ∧ c.space = .deliverer ∧ c.data.userId = none ∧ c.link ≠ .gone) ∧
        ∀ q z, st.handlers q = some z → z.pending ≠ some s)
    (elsewhere : ∀ s, y.elsewhere = some s → ∃ c, st.hub.clients[s]? = some c ∧ c.space ≠ .deliverer)
    (foreign : y.Foreign userId) (online : ∀ s d missed call, y ≠ .delivererOnline s userId d missed call) :
    Present userId (st.start y) := by
  have now : ∀ {q z}, (st.start y).handlers q = some z → (q = st.started ∧ z = y) ∨ st.handlers q = some z := by
    intro q z at_q
    rcases update_some at_q with ⟨last,same⟩ | ⟨_,before⟩
    · exact .inl ⟨last,same⟩
    · exact .inr before
  have still : ∀ {q z}, st.handlers q = some z → (st.start y).handlers q = some z := by
    intro q z at_q
    have within := present.begun q z at_q
    simp only [Station.start,Function.update_of_ne (Nat.ne_of_lt within)]
    exact at_q
  have waits : ∀ {q s d missed call}, (st.start y).handlers q = some (.delivererOnline s userId d missed call) →
      st.handlers q = some (.delivererOnline s userId d missed call) := by
    intro q s d missed call at_q
    rcases now at_q with ⟨_,same⟩ | before
    · exact absurd same.symm (online s d missed call)
    · exact before
  refine ⟨present.user,?_,?_,?_,?_,?_,?_,?_,?_,?_,present.below,?_⟩
  · intro s mark
    obtain ⟨c,found,space,link,own | ⟨q,d,missed,call,handler,returned⟩⟩ := mark
    · exact present.online s ⟨c,found,space,link,.inl own⟩
    · exact present.online s ⟨c,found,space,link,.inr ⟨q,d,missed,call,waits handler,returned⟩⟩
  · intro on
    cases present.reason on with
    | socket found space own link => exact .socket found space own link
    | leaving found space own handler => exact .leaving found space own (still handler)
    | marked handler returned => exact .marked (still handler) returned
    | offline handler waiting => exact .offline (still handler) waiting
  · intro q s d missed call handler
    exact present.calls q s d missed call (waits handler)
  · intro p waiting
    obtain ⟨q,s,d,missed,handler⟩ := present.awaited p waiting
    exact ⟨q,s,d,missed,still handler⟩
  · intro q z s handler opening
    rcases now handler with ⟨_,same⟩ | before
    · subst same
      obtain ⟨⟨c,found,space,undefined,_⟩,_⟩ := opens s opening
      exact ⟨c,found,space,undefined⟩
    · exact present.opening q z s before opening
  · intro q q' z z' s handler handler' opening opening'
    rcases now handler with ⟨last,same⟩ | before <;> rcases now handler' with ⟨last',same'⟩ | before'
    · rw [last,last']
    · subst same; exact absurd opening' ((opens s opening).2 q' z' before')
    · subst same'; exact absurd opening ((opens s opening').2 q z before)
    · exact present.single q q' z z' s before before' opening opening'
  · intro q z s handler away
    rcases now handler with ⟨_,same⟩ | before
    · rw [same] at away; exact elsewhere s away
    · exact present.others q z s before away
  · intro q z handler
    rcases now handler with ⟨_,same⟩ | before
    · rw [same]; exact foreign
    · exact present.foreign q z before
  · intro q z s c handler opening found gone
    rcases now handler with ⟨_,same⟩ | before
    · subst same
      obtain ⟨⟨c',found',_,_,link⟩,_⟩ := opens s opening
      obtain rfl := Option.some.inj (found'.symm.trans found)
      exact absurd gone link
    · obtain ⟨i,leaving⟩ := present.gone q z s c before opening found gone
      exact ⟨i,still leaving⟩
  · intro q z handler
    rcases update_some handler with ⟨last,_⟩ | ⟨_,before⟩
    · rw [last]; exact Nat.lt_succ_self _
    · exact Nat.lt_succ_of_lt (present.begun q z before)

theorem notice_client {hub : Clients} {i : Nat} : (hub.notice s).clients[i]? =
    (hub.clients[i]?).map fun c => if s = i ∧ c.link = .closing then {c with link := .gone} else c := by
  simp only [Hub.notice,Hub.change,List.getElem?_modify]
  cases hub.clients[i]? with
  | none => rfl
  | some c =>
    simp only [Option.map_eq_map,Option.map_some]
    by_cases same : s = i
    · simp [same]
    · simp [same]

-- A socket that is gone may still be why the user is online: its handleDisconnect is
-- there to mark the user offline.
theorem present_notice {st : Station} (present : Present userId st)
    (leaves : st.handlers h = some (.disconnection s)) : Present userId {st with hub := st.hub.notice s} := by
  have forth : ∀ {i : Nat} {c}, st.hub.clients[i]? = some c → ∃ c', (st.hub.notice s).clients[i]? = some c' ∧
      c'.space = c.space ∧ c'.data = c.data ∧ (i ≠ s → c'.link = c.link) := by
    intro i c found
    rw [notice_client,found]
    refine ⟨_,rfl,?_⟩
    dsimp only
    split
    · rename_i noticed
      exact ⟨rfl,rfl,fun other => absurd noticed.1.symm other⟩
    · exact ⟨rfl,rfl,fun _ => rfl⟩
  have back : ∀ {i : Nat} {c'}, (st.hub.notice s).clients[i]? = some c' → ∃ c, st.hub.clients[i]? = some c ∧
      c'.space = c.space ∧ c'.data = c.data ∧ (c'.link = c.link ∨ (i = s ∧ c'.link = .gone)) := by
    intro i c' found
    rw [notice_client] at found
    obtain ⟨c,before,same⟩ := Option.map_eq_some_iff.mp found
    subst same
    refine ⟨c,before,?_⟩
    split
    · rename_i noticed
      exact ⟨rfl,rfl,.inr ⟨noticed.1.symm,rfl⟩⟩
    · exact ⟨rfl,rfl,.inl rfl⟩
  refine ⟨present.user,?_,?_,present.calls,present.awaited,?_,present.single,?_,present.foreign,?_,present.below,
    present.begun⟩
  · intro i mark
    obtain ⟨c',found',space,link,own⟩ := mark
    obtain ⟨c,found,same,data,links⟩ := back found'
    have connected : c.link = .connected := by
      rcases links with kept | ⟨_,gone⟩
      · exact kept.symm.trans link
      · rw [gone] at link; cases link
    rw [data] at own
    exact present.online i ⟨c,found,same.symm.trans space,connected,own⟩
  · intro on
    cases present.reason on with
    | @socket c i found space own link =>
      obtain ⟨c',found',space',data,links⟩ := forth found
      by_cases same : i = s
      · subst i
        exact .leaving found' (space'.trans space) (by rw [data]; exact own) leaves
      · exact .socket found' (space'.trans space) (by rw [data]; exact own) (by rw [links same]; exact link)
    | leaving found space own handler =>
      obtain ⟨c',found',space',data,_⟩ := forth found
      exact .leaving found' (space'.trans space) (by rw [data]; exact own) handler
    | marked handler returned => exact .marked handler returned
    | offline handler waiting => exact .offline handler waiting
  · intro q z i handler opening
    obtain ⟨c,found,space,undefined⟩ := present.opening q z i handler opening
    obtain ⟨c',found',space',data,_⟩ := forth found
    exact ⟨c',found',space'.trans space,by rw [data]; exact undefined⟩
  · intro q z i handler away
    obtain ⟨c,found,space⟩ := present.others q z i handler away
    obtain ⟨c',found',space',_⟩ := forth found
    exact ⟨c',found',by rw [space']; exact space⟩
  · intro q z i c' handler opening found' gone
    obtain ⟨c,found,_,_,links⟩ := back found'
    rcases links with kept | ⟨same,_⟩
    · exact present.gone q z i c handler opening found (kept.symm.trans gone)
    · rw [same]; exact ⟨h,leaves⟩

theorem present_disconnect {st : Station} (present : Present userId st) (s : Nat) :
    Present userId ({st with hub := st.hub.notice s}.start (.disconnection s)) := by
  have begun : Present userId (st.start (.disconnection s)) :=
    present_begin present _ (fun _ => nofun) (fun _ => nofun) trivial fun _ _ _ _ => nofun
  exact present_notice begun (Function.update_self ..)

theorem present_connect {st : Station} (present : Present userId st) (token : Token)
    (named : ∀ role, token = .payload userId role → space = .deliverer) (env : Env) :
    Present userId (st.move env (.connect space token)).1 := by
  have accepted := present_hub present (steady_accept st.hub space ⟨none,none,none,none⟩ rfl)
  have new : (st.hub.accept space (⟨none,none,none,none⟩ : ClientData)).clients[st.hub.clients.length]? = _ :=
    Hub.accept_new st.hub
  refine present_begin accepted _ ?_ ?_ ?_ ?_
  · intro s opening
    cases space with
    | deliverer =>
      cases opening
      refine ⟨⟨_,new,rfl,rfl,nofun⟩,?_⟩
      intro q z handler other
      obtain ⟨c,found,_⟩ := present.opening q z _ handler other
      rw [List.getElem?_eq_none (Nat.le_refl _)] at found
      cases found
    | customer | vendor => cases opening
  · intro s away
    cases space with
    | deliverer => cases away
    | customer | vendor => cases away; exact ⟨_,new,nofun⟩
  · cases space with
    | deliverer => trivial
    | customer => exact fun same => nomatch named _ same
    | vendor => exact fun same => nomatch named _ same
  · cases space <;> exact fun _ _ _ _ => nofun

-- handleConnection calls markOnline and waits for it.
theorem present_marking {st : Station} (present : Present userId st)
    (found : st.handlers h = some (.delivererMissed s userId d missed)) :
    Present userId {st with
      market := st.market.start (.markPresence .markOnline userId)
      handlers := Function.update st.handlers h (some (.delivererOnline s userId d missed st.market.spawned))} := by
  have kept : ∀ {p x}, st.market.threads p = some x →
      (st.market.start (.markPresence .markOnline userId)).threads p = some x := by
    intro p x at_p
    have within := present.below p x at_p
    simp only [World.start,Function.update_of_ne (Nat.ne_of_lt within)]
    exact at_p
  have before : ∀ {p x}, (st.market.start (.markPresence .markOnline userId)).threads p = some x →
      (p = st.market.spawned ∧ x = .markPresence .markOnline userId) ∨ st.market.threads p = some x := by
    intro p x at_p
    rcases start_parts at_p with ⟨last,same⟩ | before
    · exact .inl ⟨last,same.symm⟩
    · exact .inr before
  have now : ∀ {q y}, Function.update st.handlers h (some (.delivererOnline s userId d missed st.market.spawned)) q = some y →
      (q = h ∧ y = .delivererOnline s userId d missed st.market.spawned) ∨ (q ≠ h ∧ st.handlers q = some y) := by
    intro q y at_q
    by_cases same : q = h
    · subst q; rw [Function.update_self] at at_q; cases at_q; exact .inl ⟨rfl,rfl⟩
    · rw [Function.update_of_ne same] at at_q; exact .inr ⟨same,at_q⟩
  have still : ∀ {q y}, st.handlers q = some y → y ≠ .delivererMissed s userId d missed →
      Function.update st.handlers h (some (.delivererOnline s userId d missed st.market.spawned)) q = some y := by
    intro q y at_q other
    have apart : q ≠ h := by
      intro same
      subst q
      exact other (Option.some.inj (at_q.symm.trans found))
    rw [Function.update_of_ne apart]
    exact at_q
  have opens : ∀ {q y i}, Function.update st.handlers h (some (.delivererOnline s userId d missed st.market.spawned)) q = some y →
      y.pending = some i → ∃ y', st.handlers q = some y' ∧ y'.pending = some i := by
    intro q y i at_q opening
    rcases now at_q with ⟨same,own⟩ | ⟨_,at_q'⟩
    · subst same own; exact ⟨_,found,opening⟩
    · exact ⟨y,at_q',opening⟩
  refine ⟨present.user,?_,?_,?_,?_,?_,?_,?_,?_,?_,?_,?_⟩
  · intro i mark
    obtain ⟨c,at_client,space,link,own | ⟨q,d',missed',call,handler,returned⟩⟩ := mark
    · exact present.online i ⟨c,at_client,space,link,.inl own⟩
    · rcases before returned with ⟨_,same⟩ | done
      · cases same
      · rcases now handler with ⟨_,same⟩ | ⟨_,at_q⟩
        · cases same
          exact absurd (present.below _ _ done) (Nat.lt_irrefl _)
        · exact present.online i ⟨c,at_client,space,link,.inr ⟨q,d',missed',call,at_q,done⟩⟩
  · intro on
    cases present.reason on with
    | socket at_client space own link => exact .socket at_client space own link
    | leaving at_client space own handler => exact .leaving at_client space own (still handler (fun no => by cases no))
    | marked handler returned => exact .marked (still handler (fun no => by cases no)) (kept returned)
    | offline handler waiting => exact .offline (still handler (fun no => by cases no)) (kept waiting)
  · intro q i d' missed' call handler
    rcases now handler with ⟨_,same⟩ | ⟨_,at_q⟩
    · cases same
      exact .inl (Function.update_self ..)
    · rcases present.calls q i d' missed' call at_q with waiting | returned
      · exact .inl (kept waiting)
      · exact .inr (kept returned)
  · intro p waiting
    rcases before waiting with ⟨last,_⟩ | earlier
    · rw [last]; exact ⟨h,s,d,missed,Function.update_self ..⟩
    · obtain ⟨q,i,d',missed',handler⟩ := present.awaited p earlier
      exact ⟨q,i,d',missed',still handler (fun no => by cases no)⟩
  · intro q y i handler opening
    obtain ⟨y',at_q,opening'⟩ := opens handler opening
    exact present.opening q y' i at_q opening'
  · intro q q' y y' i handler handler' opening opening'
    obtain ⟨z,at_q,opening₁⟩ := opens handler opening
    obtain ⟨z',at_q',opening₂⟩ := opens handler' opening'
    exact present.single q q' z z' i at_q at_q' opening₁ opening₂
  · intro q y i handler away
    rcases now handler with ⟨_,same⟩ | ⟨_,at_q⟩
    · subst same; cases away
    · exact present.others q y i at_q away
  · intro q y handler
    rcases now handler with ⟨_,same⟩ | ⟨_,at_q⟩
    · subst same; trivial
    · exact present.foreign q y at_q
  · intro q y i c handler opening at_client gone
    obtain ⟨y',at_q,opening'⟩ := opens handler opening
    obtain ⟨j,leaving⟩ := present.gone q y' i c at_q opening' at_client gone
    exact ⟨j,still leaving (fun no => by cases no)⟩
  · intro p x at_p
    rcases before at_p with ⟨last,_⟩ | earlier
    · rw [last]; exact Nat.lt_succ_self _
    · exact Nat.lt_succ_of_lt (present.below p x earlier)
  · intro q y handler
    rcases now handler with ⟨same,_⟩ | ⟨_,at_q⟩
    · rw [same]; exact present.begun h _ found
    · exact present.begun q y at_q

theorem identified_client {hub : Clients} {i : Nat} : ((hub.identify s data).join s room).clients[i]? =
    (hub.clients[i]?).map fun c => if s = i then {c with data := data,rooms := room::c.rooms} else c := by
  simp only [Hub.join,Hub.identify,Hub.change,List.getElem?_modify]
  cases hub.clients[i]? with
  | none => rfl
  | some c => by_cases same : s = i <;> simp [same]

-- markOnline has returned: client.data names the user, and the socket joins its room.
theorem present_identified {st : Station} (present : Present userId st)
    (found : st.handlers h = some (.delivererOnline s u d missed call))
    (returned : u = userId → st.market.threads call = some (.returned .done)) :
    Present userId {st with
      hub := (st.hub.identify s ⟨some u,none,none,some d⟩).join s (.deliverer d)
      handlers := Function.update st.handlers h (some (.delivererContext s d missed))} := by
  obtain ⟨c₀,at_s,space₀,undefined₀⟩ := present.opening h _ s found rfl
  have now : ∀ {q y}, Function.update st.handlers h (some (.delivererContext s d missed)) q = some y →
      (q = h ∧ y = .delivererContext s d missed) ∨ (q ≠ h ∧ st.handlers q = some y) := by
    intro q y at_q
    by_cases same : q = h
    · subst q; rw [Function.update_self] at at_q; cases at_q; exact .inl ⟨rfl,rfl⟩
    · rw [Function.update_of_ne same] at at_q; exact .inr ⟨same,at_q⟩
  have still : ∀ {q y}, st.handlers q = some y → y ≠ .delivererOnline s u d missed call →
      Function.update st.handlers h (some (.delivererContext s d missed)) q = some y := by
    intro q y at_q other
    have apart : q ≠ h := by
      intro same
      subst q
      exact other (Option.some.inj (at_q.symm.trans found))
    rw [Function.update_of_ne apart]
    exact at_q
  -- Every other handler that is still to set client.data works for another socket.
  have opens : ∀ {q y i}, Function.update st.handlers h (some (.delivererContext s d missed)) q = some y →
      y.pending = some i → st.handlers q = some y ∧ i ≠ s := by
    intro q y i at_q opening
    rcases now at_q with ⟨_,same⟩ | ⟨apart,at_q'⟩
    · subst same; cases opening
    · refine ⟨at_q',?_⟩
      intro same
      subst same
      exact apart (present.single q h y _ i at_q' found opening rfl)
  have other : ∀ {i : Nat}, i ≠ s →
      ((st.hub.identify s ⟨some u,none,none,some d⟩).join s (.deliverer d)).clients[i]? = st.hub.clients[i]? := by
    intro i apart
    rw [identified_client]
    cases st.hub.clients[i]? with
    | none => rfl
    | some c => simp [Ne.symm apart]
  have own : ((st.hub.identify s ⟨some u,none,none,some d⟩).join s (.deliverer d)).clients[s]? =
      some {c₀ with data := ⟨some u,none,none,some d⟩,rooms := .deliverer d::c₀.rooms} := by
    rw [identified_client,at_s]
    simp
  refine ⟨present.user,?_,?_,?_,?_,?_,?_,?_,?_,?_,present.below,?_⟩
  · intro i mark
    obtain ⟨c,at_client,space,link,named⟩ := mark
    by_cases same : i = s
    · subst i
      rw [own] at at_client
      cases at_client
      rcases named with named | ⟨q,d',missed',call',handler,_⟩
      · cases named
        exact present.online s ⟨c₀,at_s,space₀,link,.inr ⟨h,d,missed,call,found,returned rfl⟩⟩
      · exact absurd rfl (opens handler rfl).2
    · rw [other same] at at_client
      refine present.online i ⟨c,at_client,space,link,?_⟩
      rcases named with named | ⟨q,d',missed',call',handler,done⟩
      · exact .inl named
      · exact .inr ⟨q,d',missed',call',(opens handler rfl).1,done⟩
  · intro on
    have apart : ∀ {i : Nat} {c : Client Space Room ClientData}, st.hub.clients[i]? = some c →
        c.data.userId = some userId → i ≠ s := by
      intro i c at_client named same
      subst i
      obtain rfl := Option.some.inj (at_s.symm.trans at_client)
      rw [undefined₀] at named; cases named
    cases present.reason on with
    | socket at_client space named link =>
      exact .socket (by rw [other (apart at_client named)]; exact at_client) space named link
    | leaving at_client space named handler =>
      exact .leaving (by rw [other (apart at_client named)]; exact at_client) space named (still handler nofun)
    | @marked q i d' missed' call' handler done =>
      by_cases same : q = h
      · subst q
        cases found.symm.trans handler
        by_cases gone : c₀.link = .gone
        · obtain ⟨j,leaving⟩ := present.gone h _ s c₀ found rfl at_s gone
          exact .leaving own space₀ rfl (still leaving nofun)
        · exact .socket own space₀ rfl gone
      · have at_q : Function.update st.handlers h (some (.delivererContext s d missed)) q =
            some (.delivererOnline i userId d' missed' call') := by
          rw [Function.update_of_ne same]; exact handler
        exact .marked at_q done
    | offline handler waiting => exact .offline (still handler nofun) waiting
  · intro q i d' missed' call' handler
    exact present.calls q i d' missed' call' (opens handler rfl).1
  · intro p waiting
    obtain ⟨q,i,d',missed',handler⟩ := present.awaited p waiting
    refine ⟨q,i,d',missed',still handler ?_⟩
    intro same
    cases same
    rw [returned rfl] at waiting; cases waiting
  · intro q y i handler opening
    obtain ⟨at_q,apart⟩ := opens handler opening
    rw [other apart]
    exact present.opening q y i at_q opening
  · intro q q' y y' i handler handler' opening opening'
    exact present.single q q' y y' i (opens handler opening).1 (opens handler' opening').1 opening opening'
  · intro q y i handler away
    rcases now handler with ⟨_,same⟩ | ⟨_,at_q⟩
    · subst same; cases away
    · obtain ⟨c,at_client,space⟩ := present.others q y i at_q away
      have apart : i ≠ s := by
        intro same
        subst i
        obtain rfl := Option.some.inj (at_s.symm.trans at_client)
        exact space space₀
      exact ⟨c,by rw [other apart]; exact at_client,space⟩
  · intro q y handler
    rcases now handler with ⟨_,same⟩ | ⟨_,at_q⟩
    · subst same; trivial
    · exact present.foreign q y at_q
  · intro q y i c handler opening at_client gone
    obtain ⟨at_q,apart⟩ := opens handler opening
    rw [other apart] at at_client
    obtain ⟨j,leaving⟩ := present.gone q y i c at_q opening at_client gone
    exact ⟨j,still leaving nofun⟩
  · intro q y handler
    rcases now handler with ⟨same,_⟩ | ⟨_,at_q⟩
    · rw [same]; exact present.begun h _ found
    · exact present.begun q y at_q

-- handleDisconnect reads client.data, and calls markOffline if there is a user.
theorem present_leaving {env : Env} {st : Station} (present : Present userId st)
    (found : st.handlers h = some (.disconnection s)) (ordered : ∀ q x, st.handlers q = some x → x.pending ≠ some s) :
    Present userId (st.go h ((Handler.disconnection s).resume env st.market.db st.hub)) := by
  have leaves : ∀ i, Handler.disconnection s = .disconnection i →
      ∀ q y, st.handlers q = some y → y.pending ≠ some i := by
    intro i same
    cases same
    exact ordered
  -- The reason is another one, or the call that is made.
  have reasons : ∀ {st' : Station} {next : Option Handler}, st'.handlers = st.handlers → st'.hub = st.hub → st'.Reason userId →
      (∀ c, st.hub.clients[s]? = some c → c.space = .deliverer → c.data.userId = some userId →
        (st'.put h next).Reason userId) → (st'.put h next).Reason userId := by
    intro st' next same hub reason own
    have found' : st'.handlers h = some (.disconnection s) := by rw [same]; exact found
    cases reason with
    | socket at_client space named link => exact .socket at_client space named link
    | @leaving c q i at_client space named handler =>
      by_cases hit : i = s
      · subst i; exact own c (by rw [← hub]; exact at_client) space named
      · exact .leaving at_client space named (put_still found' next handler fun same => hit (by cases same; rfl))
    | marked handler returned => exact .marked (put_still found' next handler (fun no => by cases no)) returned
    | offline handler waiting => exact .offline (put_still found' next handler (fun no => by cases no)) waiting
  simp only [Handler.resume]
  split
  · rename_i c at_client
    split
    · rename_i u named
      have called : Present userId {st with market := st.market.start (.markPresence .markOffline u)} :=
        present_service present (by simp [Proc.duty])
      refine present_put called found (by simp) leaves (some (.offline s st.market.spawned)) ?_ ?_
      · intro y same
        cases same
        exact ⟨.inl rfl,.inl rfl,trivial,by simp⟩
      · intro reason
        refine reasons rfl rfl reason ?_
        intro c' at_client' space own
        obtain rfl := Option.some.inj (at_client.symm.trans at_client')
        rw [if_neg (by rw [space]; decide),own] at named
        cases named
        exact .offline (Function.update_self ..) (Function.update_self ..)
    · rename_i unnamed
      refine present_put present found (by simp) leaves none (by simp) ?_
      intro reason
      refine reasons rfl rfl reason ?_
      intro c' at_client' space own
      obtain rfl := Option.some.inj (at_client.symm.trans at_client')
      rw [if_neg (by rw [space]; decide),own] at unnamed
      cases unnamed
  · rename_i absent
    refine present_put present found (by simp) leaves none (by simp) ?_
    intro reason
    refine reasons rfl rfl reason ?_
    intro c' at_client'
    rw [absent] at at_client'
    cases at_client'

-- The other points go on without the user's presence resting on them.
theorem resume_succeeds {env : Env} {x : Handler} (foreign : x.Foreign userId)
    (marking : ∀ s d missed, x ≠ .delivererMissed s userId d missed) :
    (x.resume env v hub).next.Goes (x.Succeeds userId) := by
  have ended : ∀ {y : Handler}, y.pending = none → y.elsewhere = none → y.Foreign userId →
      (∀ s d missed call, y ≠ .delivererOnline s userId d missed call) → x.Succeeds userId y :=
    fun pending elsewhere foreign online => ⟨.inl pending,.inl elsewhere,foreign,online⟩
  cases x <;> simp only [Handler.resume]
  case delivererMissed s u d missed =>
    intro p
    refine ⟨.inr rfl,.inl rfl,trivial,?_⟩
    intro i d' missed' call same
    cases same
    exact marking _ _ _ rfl
  case dropoffComplete =>
    split
    · exact fun _ => ended rfl rfl trivial (by simp)
    · rw [caught_finished]; trivial
  case disconnection =>
    split
    · split
      · exact fun _ => ended rfl rfl trivial (by simp)
      · trivial
    · trivial
  all_goals (try split) <;> first
    | trivial
    | exact ⟨.inl rfl,.inl rfl,trivial,by simp⟩
    | exact ⟨.inl rfl,.inr rfl,trivial,by simp⟩
    | exact ⟨.inr rfl,.inl rfl,trivial,by simp⟩
    | exact fun _ => ⟨.inl rfl,.inr rfl,trivial,by simp⟩

theorem resume_steady {env : Env} {x : Handler}
    (elsewhere : ∀ s, x.elsewhere = some s → ∃ c, hub.clients[s]? = some c ∧ c.space ≠ .deliverer) :
    Steady hub (x.resume env v hub).hub := by
  cases x <;> simp only [Handler.resume]
  case vendorJoin s u d => exact steady_identify hub (elsewhere s rfl)
  case dropoffComplete =>
    split
    · exact steady_refl hub
    · exact steady_refl hub
  case disconnection =>
    split
    · split <;> exact steady_refl hub
    · exact steady_refl hub
  all_goals (try split) <;> first | exact steady_refl hub | exact steady_close hub | exact steady_join hub

theorem resume_duty {env : Env} {x : Handler} (foreign : x.Foreign userId)
    (marking : ∀ s d missed, x ≠ .delivererMissed s userId d missed) (calls : (x.resume env v hub).next = .call service y) :
    service.duty ≠ some (.presence .markOnline userId) := by
  cases x <;> simp only [Handler.resume] at calls
  case delivererMissed s u d missed =>
    cases calls
    intro same
    cases same
    exact marking _ _ _ rfl
  case customerConnection | vendorConnection =>
    split at calls <;> cases calls
    intro same
    cases same
    exact foreign rfl
  case dropoffComplete =>
    split at calls
    · cases calls; simp [Proc.duty]
    · rw [caught_finished] at calls; cases calls
  case disconnection =>
    split at calls
    · split at calls
      · cases calls; simp [Proc.duty]
      · cases calls
    · cases calls
  all_goals (try split at calls) <;> cases calls <;> simp [Proc.duty]

theorem caught_steady {x : Handler} : Steady hub (x.caught hub e).hub := by
  cases x <;> simp only [Handler.caught]
  case eventsSince | replay =>
    split
    · exact steady_refl hub
    · exact steady_close hub
  all_goals first | exact steady_close hub | exact steady_refl hub

theorem answer_succeeds {x : Handler} : (x.answer hub reply).next.Goes (x.Succeeds userId) := by
  unfold Handler.answer
  split
  · rw [caught_finished]; trivial
  · exact ⟨.inl rfl,.inl rfl,trivial,nofun⟩
  · exact ⟨.inl rfl,.inr rfl,trivial,nofun⟩
  · exact ⟨.inl rfl,.inl rfl,trivial,nofun⟩
  · split
    · exact fun _ => ⟨.inl rfl,.inl rfl,trivial,nofun⟩
    · trivial
  all_goals trivial

theorem answer_steady {x : Handler} (online : ∀ s u d missed call, x ≠ .delivererOnline s u d missed call)
    (elsewhere : ∀ s, x.elsewhere = some s → ∃ c, hub.clients[s]? = some c ∧ c.space ≠ .deliverer) :
    Steady hub (x.answer hub reply).hub := by
  unfold Handler.answer
  split
  · exact caught_steady
  · exact steady_identify hub (elsewhere _ rfl)
  · exact steady_refl hub
  · exact absurd rfl (online _ _ _ _ _)
  · split <;> exact steady_refl hub
  all_goals exact steady_refl hub

theorem answer_duty {x : Handler} (calls : (x.answer hub reply).next = .call service y) :
    service.duty ≠ some (.presence .markOnline userId) := by
  unfold Handler.answer at calls
  split at calls
  · rw [caught_finished] at calls; cases calls
  · cases calls
  · cases calls
  · cases calls
  · split at calls <;> cases calls
    exact nofun
  all_goals cases calls

-- A handler that waits for a service goes on with its reply.
theorem present_answered {st : Station} (present : Present userId st) (found : st.handlers h = some x)
    (awaits : x.call = some call) (returned : st.market.threads call = some (.returned reply)) :
    Present userId (st.go h (x.answer st.hub reply)) := by
  have rests : (∀ s d missed call, x ≠ .delivererOnline s userId d missed call) → st.Rests userId x := by
    intro online
    refine ⟨?_,?_,online⟩
    · intro s same
      subst same; cases awaits
    · intro s call' same
      subst same
      cases awaits
      rw [returned]
      exact nofun
  by_cases marking : ∃ s u d missed call, x = .delivererOnline s u d missed call
  · obtain ⟨s,u,d,missed,call',same⟩ := marking
    subst same
    cases awaits
    have done : u = userId → st.market.threads call = some (.returned .done) := by
      intro same
      subst same
      rcases present.calls h s d missed call found with waiting | done
      · rw [waiting] at returned; cases returned
      · exact done
    cases reply with
    | thrown e =>
      have other : u ≠ userId := by
        intro same
        rw [done same] at returned; cases returned
      refine present_go present found (rests ?_) caught_steady answer_succeeds fun _ _ => answer_duty
      intro i d' missed' call' same
      cases same
      exact other rfl
    | done | order | jobCompleted => exact present_identified present found done
  · have online : ∀ s u d missed call, x ≠ .delivererOnline s u d missed call :=
      fun s u d missed call same => marking ⟨s,u,d,missed,call,same⟩
    exact present_go present found (rests fun s d missed call => online s userId d missed call)
      (answer_steady online fun s away => present.others h x s found away) answer_succeeds fun _ _ => answer_duty

theorem present_resume {env : Env} {st : Station} (present : Present userId st) (found : st.handlers h = some x)
    (awaits : x.call = none) (ordered : ∀ s, x = .disconnection s → ∀ q y, st.handlers q = some y → y.pending ≠ some s) :
    Present userId (st.go h (x.resume env st.market.db st.hub)) := by
  by_cases leaves : ∃ s, x = .disconnection s
  · obtain ⟨s,same⟩ := leaves
    subst same
    exact present_leaving present found (ordered s rfl)
  by_cases marks : ∃ s d missed, x = .delivererMissed s userId d missed
  · obtain ⟨s,d,missed,same⟩ := marks
    subst same
    exact present_marking present found
  · have marking : ∀ s d missed, x ≠ .delivererMissed s userId d missed :=
      fun s d missed same => marks ⟨s,d,missed,same⟩
    have rests : st.Rests userId x := by
      refine ⟨fun s same => leaves ⟨s,same⟩,?_,?_⟩
      · intro s call same
        subst same; cases awaits
      · intro s d missed call same
        subst same; cases awaits
    exact present_go present found rests (resume_steady fun s away => present.others h x s found away)
      (resume_succeeds (present.foreign h x found) marking) fun _ _ => resume_duty (present.foreign h x found) marking

theorem startJobOfAnyoneTx_user {db db' : Database} (ran : (DelivererJobService.startJobOfAnyoneTx j).run db = .ok (a,db')) :
    db'.rows .user = db.rows .user := by
  unfold DelivererJobService.startJobOfAnyoneTx at ran
  obtain ⟨started,first,updated,ran⟩ := Tx.run_bind_ok.mp ran
  rw [Tx.run_updateMany] at updated
  cases updated
  split at ran
  · obtain ⟨found,_,read,ran⟩ := Tx.run_bind_ok.mp ran
    rw [Tx.run_findUnique] at read
    cases read
    split at ran <;> cases ran
  · obtain ⟨_,second,moved,ran⟩ := Tx.run_bind_ok.mp ran
    rw [Tx.run_updateMany] at moved
    cases moved
    have same := congrArg Dispatch.user (recordEvent_parts ran)
    rw [dispatch_updates_order,dispatch_updates_job] at same
    exact same

theorem present_rows {st : Station} (present : Present userId st) (same : db.rows .user = st.market.db.rows .user) :
    Present userId {st with market := {st.market with db := db}} := by
  have online : isOnline db userId = isOnline st.market.db userId := by unfold isOnline; rw [same]
  obtain ⟨u,found⟩ := present.user
  refine ⟨⟨u,by rw [same]; exact found⟩,?_,?_,present.calls,present.awaited,present.opening,present.single,
    present.others,present.foreign,present.gone,present.below,present.begun⟩
  · intro s mark
    rw [online]
    exact present.online s mark
  · intro on
    rw [online] at on
    cases present.reason on with
    | socket found space own link => exact .socket found space own link
    | leaving found space own handler => exact .leaving found space own handler
    | marked handler returned => exact .marked handler returned
    | offline handler waiting => exact .offline handler waiting

theorem present_move {env : Env} {st : Station} {m : StationMove} (present : Present userId st)
    (regular : Regular userId st m) (ordered : InOrder userId st m) : Present userId (st.move env m).1 := by
  cases m with
  | market m => exact present_market present regular ordered
  | connect space token => exact present_connect present token regular env
  | leave client => exact present_hub present (steady_close st.hub)
  | disconnect client =>
    simp only [Station.move]
    split
    · exact present_disconnect present client
    · exact present
  | message client m =>
    simp only [Station.move]
    split
    · split
      · rename_i c _ _ x handles
        split at handles
        · have begins : x.pending = none ∧ x.elsewhere = none ∧ x.Foreign userId ∧
              ∀ s d missed call, x ≠ .delivererOnline s userId d missed call := by
            cases m <;> cases space : c.space <;> rw [space] at handles <;> cases handles <;>
              exact ⟨rfl,rfl,trivial,by simp⟩
          obtain ⟨pending,elsewhere,foreign,online⟩ := begins
          refine present_begin present x ?_ ?_ foreign online
          · intro s opens
            rw [pending] at opens; cases opens
          · intro s away
            rw [elsewhere] at away; cases away
        · cases handles
      · exact present
    · exact present
  | fail h => exact regular.elim
  | resume h =>
    simp only [Station.move]
    split
    · rename_i x found
      have leaves : ∀ s, x = .disconnection s → ∀ q y, st.handlers q = some y → y.pending ≠ some s :=
        fun s same => ordered s (same ▸ found)
      unfold Station.resumed
      split
      · rename_i call awaits
        split
        · rename_i reply returned
          exact present_answered present found awaits returned
        · exact present
      · rename_i awaits
        split
        · rename_i client jobId
          split
          · rename_i db ran
            dsimp only
            refine present_go (present_rows present (startJobOfAnyoneTx_user ran)) found ?_ ?_ ?_ ?_
            · exact ⟨by simp,by simp,by simp⟩
            · exact steady_refl st.hub
            · trivial
            · intro _ _ calls; cases calls
          · dsimp only
            refine present_go present found ⟨by simp,by simp,by simp⟩ caught_steady ?_ ?_
            · rw [caught_finished]; trivial
            · intro service y calls
              rw [caught_finished] at calls; cases calls
        · exact present_resume present found awaits leaves
    · exact present

theorem present_opening {st : Station} (opening : st.Opening)
    (user : ∃ u, st.market.db.rows .user userId = some u ∧ u.isOnline = false) : Present userId st := by
  obtain ⟨u,found,offline⟩ := user
  have idle : ∀ {h x}, st.handlers h ≠ some x := by
    intro h x handler
    rw [opening.handlers h] at handler; cases handler
  have still : ∀ {p x}, st.market.threads p ≠ some x := by
    intro p x thread
    rw [opening.threads p] at thread; cases thread
  have empty : ∀ {s : Nat} {c}, st.hub.clients[s]? ≠ some c := by
    intro s c client
    rw [opening.clients] at client; cases client
  refine ⟨⟨u,found⟩,?_,?_,?_,?_,?_,?_,?_,?_,?_,?_,?_⟩
  · intro s mark
    obtain ⟨c,client,_⟩ := mark
    exact absurd client empty
  · intro on
    rw [online_of found,offline] at on; cases on
  · exact fun _ _ _ _ _ handler => absurd handler idle
  · exact fun _ thread => absurd thread still
  · exact fun _ _ _ handler => absurd handler idle
  · exact fun _ _ _ _ _ handler => absurd handler idle
  · exact fun _ _ _ handler => absurd handler idle
  · exact fun _ _ handler => absurd handler idle
  · exact fun _ _ _ _ handler => absurd handler idle
  · exact fun _ _ thread => absurd thread still
  · exact fun _ _ handler => absurd handler idle

theorem present_reached {env : Env} {start st : Station} (present : Present userId start)
    (path : Station.ReachedBy env (fun st m => Regular userId st m ∧ InOrder userId st m) start st) :
    Present userId st := by
  induction path with
  | refl => exact present
  | step _ allowed ih => exact present_move ih allowed.1 allowed.2

theorem quiet_connected {st : Station} (present : Present userId st) (quiet : st.Quiet) (reason : st.Reason userId) :
    Connected st.hub userId := by
  have idle : ∀ {h x}, st.handlers h ≠ some x := by
    intro h x handler
    have none := quiet.1 h (present.begun h x handler)
    rw [handler] at none; cases none
  cases reason with
  | @socket c s found space own link =>
    have member := List.mem_of_getElem? found
    refine ⟨c,member,space,?_,own⟩
    cases here : c.link with
    | connected => rfl
    | closing => exact absurd here (quiet.2 c member)
    | gone => exact absurd here link
  | leaving _ _ _ handler => exact absurd handler idle
  | marked handler _ => exact absurd handler idle
  | offline handler _ => exact absurd handler idle

-- In every run whose steps are in order: a connected socket that has been marked
-- online is never taken for offline, and when nothing is in progress the user is
-- online if and only if one of its sockets is connected.
theorem presence_equals_connection {env : Env} {start st : Station} (userId : Nat) (opening : start.Opening)
    (user : ∃ u, start.market.db.rows .user userId = some u ∧ u.isOnline = false)
    (path : Station.ReachedBy env (fun st m => Regular userId st m ∧ InOrder userId st m) start st) :
    (∀ s, st.Marked userId s → isOnline st.market.db userId = true) ∧
      (st.Quiet → (isOnline st.market.db userId = true ↔ Connected st.hub userId)) := by
  have present := present_reached (present_opening opening user) path
  refine ⟨present.online,?_⟩
  intro quiet
  constructor
  · intro on
    exact quiet_connected present quiet (present.reason on)
  · intro connected
    obtain ⟨c,member,space,link,own⟩ := connected
    obtain ⟨s,found⟩ := List.getElem?_of_mem member
    exact present.online s ⟨c,found,space,link,.inl own⟩

-- Before the deliverer comes to work.
def nightRows : (t : Tab) → List (Row t)
  | .user => [⟨.customer,none,false⟩,⟨.vendor,none,false⟩,⟨.deliverer,none,false⟩]
  | .vendorProfile => [⟨1,some 0,some 0,true,true⟩]
  | .delivererProfile => [⟨2,some 0,some 0,true,none⟩]
  | _ => []

def atNight : Station := ⟨premises nightRows,⟨[]⟩,fun _ => none,0⟩

theorem opening_atNight : atNight.Opening := ⟨fun _ => rfl,rfl,fun _ => rfl⟩

-- The deliverer connects, and handler `h` waits for process `p` to mark it online.
def coming (h p : Nat) : List StationMove :=
  .connect .deliverer (.payload 2 .deliverer)::List.replicate 4 (.resume h) ++ [.market (.step p fun _ => none)] ++
    List.replicate 3 (.resume h)

def ordinary : StationMove → Bool
  | .market (.step _ _) | .leave _ | .disconnect _ | .message _ _ | .resume _ => true
  | .connect space _ => space = .deliverer
  | _ => false

theorem ordinary_regular {st : Station} (plain : ordinary m = true) : Regular userId st m := by
  cases m with
  | market m => cases m <;> trivial
  | connect space token => exact fun _ _ => of_decide_eq_true plain
  | leave | disconnect | message | resume => trivial
  | fail => cases plain

def orderly (userId : Nat) (st : Station) : StationMove → Bool
  | .market (.step p _) => (st.market.threads p).bind Proc.duty ≠ some (.presence .markOffline userId) ||
      st.hub.clients.all fun c => c.link ≠ .connected
  | .resume h => match st.handlers h with
    | some (.disconnection s) => (List.range st.started).all fun q => (st.handlers q).all fun x => x.pending ≠ some s
    | _ => true
  | _ => true

theorem orderly_inOrder {st : Station} (present : Present userId st) (checked : orderly userId st m = true) :
    InOrder userId st m := by
  cases m with
  | market m =>
    cases m with
    | step p i =>
      intro found s marked
      obtain ⟨c,at_s,_,connected,_⟩ := marked
      simp only [orderly,found,Bool.or_eq_true] at checked
      rcases checked with other | none
      · exact absurd rfl (of_decide_eq_true other)
      · exact of_decide_eq_true (List.all_eq_true.mp none c (List.mem_of_getElem? at_s)) connected
    | _ => trivial
  | resume h =>
    intro s found q x at_q
    simp only [orderly,found] at checked
    have begun := List.all_eq_true.mp checked q (List.mem_range.mpr (present.begun q x at_q))
    rw [at_q] at begun
    exact of_decide_eq_true begun
  | _ => trivial

theorem orderly_reached {env : Env} {start st : Station} (present : Present userId start)
    (path : Station.ReachedBy env (fun st m => Regular userId st m ∧ InOrder userId st m) start st) (moves : List StationMove)
    (checked : (st.trace env moves).all (fun made => ordinary made.2 && orderly userId made.1 made.2) = true) :
    Station.ReachedBy env (fun st m => Regular userId st m ∧ InOrder userId st m) start (st.run env moves).1 := by
  induction moves generalizing st with
  | nil => exact path
  | cons m rest ih =>
    obtain ⟨first,later⟩ := Bool.and_eq_true_iff.mp checked
    obtain ⟨plain,inOrder⟩ := Bool.and_eq_true_iff.mp first
    exact ih (.step path ⟨ordinary_regular plain,orderly_inOrder (present_reached present path) inOrder⟩) later

theorem orderly_atNight (moves : List StationMove)
    (checked : (atNight.trace village moves).all (fun made => ordinary made.2 && orderly 2 made.1 made.2) = true) :
    Station.ReachedBy village (fun st m => Regular 2 st m ∧ InOrder 2 st m) atNight (atNight.run village moves).1 :=
  orderly_reached (present_opening opening_atNight ⟨_,rfl,rfl⟩) .refl moves checked

-- The only socket closes, and handler 1 waits for the flush of the location and for
-- the deliverer to be marked offline.
def goingOff : List StationMove :=
  [.leave 0,.disconnect 0,.resume 1,.market (.step 1 fun _ => none),.resume 1,.market (.step 2 fun _ => none),.resume 1]

theorem presence_equals_connection_going :
    isOnline (atNight.run village (coming 0 0)).1.market.db 2 = true ∧
      Connected (atNight.run village (coming 0 0)).1.hub 2 ∧
      isOnline (atNight.run village (coming 0 0 ++ goingOff)).1.market.db 2 = false ∧
      ¬Connected (atNight.run village (coming 0 0 ++ goingOff)).1.hub 2 := by
  have connected : Connected (atNight.run village (coming 0 0)).1.hub 2 := by decide +kernel
  have alone : ¬Connected (atNight.run village (coming 0 0 ++ goingOff)).1.hub 2 := by decide +kernel
  have came := orderly_atNight (coming 0 0) (by decide +kernel)
  have left := orderly_atNight (coming 0 0 ++ goingOff) (by decide +kernel)
  refine ⟨?_,connected,?_,alone⟩
  · exact ((presence_equals_connection 2 opening_atNight ⟨_,rfl,rfl⟩ came).2 (by decide +kernel)).mpr connected
  · have same := (presence_equals_connection 2 opening_atNight ⟨_,rfl,rfl⟩ left).2 (by decide +kernel)
    exact Bool.eq_false_iff.mpr fun online => alone (same.mp online)

-- The deliverer reconnects before the disconnect of the old socket is handled, and
-- sends heartbeats from then on.
def reconnecting : List StationMove :=
  coming 0 0 ++ coming 1 1 ++ [.leave 0,.disconnect 0,.resume 2,.market (.step 2 fun _ => none),.resume 2,
    .market (.step 3 fun _ => none),.resume 2,.message 1 .heartbeat,.resume 3,.market (.step 4 fun _ => none),.resume 3]

theorem reconnected_offline :
    ∃ st, Station.ReachedBy village (Regular 2) atNight st ∧ st.Quiet ∧ Connected st.hub 2 ∧
      isOnline st.market.db 2 = false ∧ DelivererAssignmentService.availableDeliverers village st.market.db = [] := by
  refine ⟨(atNight.run village reconnecting).1,reachedBy_run .refl _ ?_,by decide +kernel,by decide +kernel,
    by decide +kernel,List.isEmpty_iff.mp (by decide +kernel)⟩
  have steps : (atNight.trace village reconnecting).all (fun made => ordinary made.2) = true := by decide +kernel
  exact fun made member => ordinary_regular (List.all_eq_true.mp steps made member)

end MesyafMarket
