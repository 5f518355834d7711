import MesyafMarket.Assignability
import MesyafMarket.Presence
import MesyafMarket.Tracking

namespace MesyafMarket
open Relational Sockets ReconnectService

-- The orders that getCustomerContext looks for.
def Order.underDelivery (o : Order) : Bool :=
  o.status ∈ [.vendorAccepted,.readyForDelivery,.waitingForDeliverer,.inProgress]

def ActiveOrder (v : Database) (customerId i : Nat) (o : Order) : Prop :=
  v.rows .order i = some o ∧ o.customerId = customerId ∧ o.underDelivery = true

-- handleConnection of a customer with nothing in between, the replay included.
def connects (st : Station) (customerId : Nat) : List StationMove :=
  [.connect .customer (.payload customerId .customer),.resume st.started,.market (.step st.market.spawned fun _ => none)] ++
    List.replicate 7 (.resume st.started)

def Received (log : List (Emission × List Nat)) (client : Nat) (message : Message) : Prop :=
  ∃ entry ∈ log, entry.1.message = message ∧ client ∈ entry.2

-- The socket is in the room of every job that delivers one of the orders, and its
-- session.context mentions each of them.
structure Restored (v : Database) (customerId client : Nat) (hub : Clients) (log : List (Emission × List Nat)) : Prop where
  rooms : ∀ i o j, ActiveOrder v customerId i o → o.deliveryJobId = some j → Tracks hub client j
  mentioned : ∀ i o, ActiveOrder v customerId i o →
    ∃ context, Received log client (.customerContext customerId (some context)) ∧ context.orderId = i

-- The same of a vendor's snapshot.
def VendorMentions (v : Database) (vendorId : Nat) : Prop :=
  ∀ i (o : Order), v.rows .order i = some o → o.vendorId = vendorId →
    o.status ∈ [.pendingVendorConfirmation,.vendorAccepted,.readyForDelivery] →
      ∃ entry ∈ getVendorContext v vendorId, entry.orderId = i

theorem vendor_mentions (v : Database) (vendorId : Nat) : VendorMentions v vendorId := by
  intro i o found own opened
  refine ⟨_,List.mem_map.mpr ⟨(i,o),?_,rfl⟩,rfl⟩
  rw [List.mem_insertionSort]
  exact v.mem_matching.mpr ⟨found,decide_eq_true ⟨own,opened⟩⟩

-- Whichever row comes first, it is an active order of the customer.
theorem context_some (env : Env) {v : Database} (active : ActiveOrder v customerId i o) :
    ∃ k r, ActiveOrder v customerId k r ∧
      getCustomerContext env v customerId = some ⟨k,r.status,r.deliveryJobId⟩ := by
  obtain ⟨found,own,status⟩ := active
  have listed : (i,o) ∈ env.scan v (v.matching .order fun _ (o : Order) => o.customerId = customerId ∧
      o.status ∈ [.vendorAccepted,.readyForDelivery,.waitingForDeliverer,.inProgress]) :=
    (env.scan_perm v _).mem_iff.mpr (v.mem_matching.mpr ⟨found,decide_eq_true ⟨own,of_decide_eq_true status⟩⟩)
  unfold getCustomerContext
  cases first : (env.scan v (v.matching .order fun _ (o : Order) => o.customerId = customerId ∧
      o.status ∈ [.vendorAccepted,.readyForDelivery,.waitingForDeliverer,.inProgress])).head? with
  | none => rw [List.head?_eq_none_iff.mp first] at listed; cases listed
  | some row =>
    obtain ⟨found',own'⟩ := v.mem_matching.mp ((env.scan_perm v _).mem_iff.mp (List.mem_of_head? first))
    obtain ⟨own',status'⟩ := of_decide_eq_true own'
    exact ⟨row.1,row.2,⟨found',own',decide_eq_true status'⟩,rfl⟩

-- What follows the snapshot joins no room and sends no other context.
def Handler.Replaying : Handler → Prop
  | customerLastSeen .. | customerOrders .. | eventsSince .. | replay .. => True
  | _ => False

theorem replaying_resume (env : Env) (v : Database) (hub : Clients) {x : Handler} (replaying : x.Replaying) :
    (x.resume env v hub).hub = hub ∧ (∀ e ∈ (x.resume env v hub).emitted, ∃ missed, e.message = .eventsReplay missed) ∧
      (x.resume env v hub).next.Goes Handler.Replaying := by
  cases x <;> simp only [Handler.Replaying] at replaying
  case customerLastSeen | customerOrders =>
    unfold Handler.resume
    dsimp only
    split <;> exact ⟨rfl,nofun,trivial⟩
  case eventsSince => exact ⟨rfl,nofun,trivial⟩
  case replay =>
    unfold Handler.resume
    dsimp only
    split
    · exact ⟨rfl,nofun,trivial⟩
    · refine ⟨rfl,?_,trivial⟩
      intro e member
      obtain rfl := List.mem_singleton.mp member
      exact ⟨_,rfl⟩

theorem replaying_run (env : Env) {st : Station} (replaying : ∀ x, st.handlers h = some x → x.Replaying) (n : Nat) :
    (st.run env (List.replicate n (.resume h))).1.hub = st.hub ∧
      ∀ entry ∈ (st.run env (List.replicate n (.resume h))).2, ∃ missed, entry.1.message = .eventsReplay missed := by
  induction n generalizing st with
  | zero => exact ⟨rfl,nofun⟩
  | succ n ih =>
    rw [List.replicate_succ]
    simp only [Station.run]
    cases found : st.handlers h with
    | none =>
      have still : st.move env (.resume h) = (st,[]) := by simp only [Station.move,found]
      obtain ⟨hub,log⟩ := ih replaying
      rw [still]
      exact ⟨hub,fun entry member => log entry member⟩
    | some x =>
      have tail := replaying x found
      have calls : x.call = none := by cases x <;> simp only [Handler.Replaying] at tail <;> rfl
      have filtered : ∀ client jobId, x ≠ .startingUnfiltered client jobId := by
        rintro client jobId rfl
        exact tail
      obtain ⟨same,sent,goes⟩ := replaying_resume env st.market.db st.hub tail
      rw [resume_move env found calls filtered]
      have onward : ∀ y, (st.go h (x.resume env st.market.db st.hub)).handlers h = some y → y.Replaying := by
        intro y at_h
        rw [go_handler] at at_h
        exact goes_handler goes at_h
      obtain ⟨hub,log⟩ := ih onward
      refine ⟨hub.trans (go_hub.trans same),?_⟩
      intro entry member
      rcases List.mem_append.mp member with now | later
      · obtain ⟨e,first,rfl⟩ := List.mem_map.mp now
        exact sent e first
      · exact log entry later

theorem run_silent {env : Env} {st st' : Station} (moved : st.move env m = (st',[])) :
    st.run env (m::rest) = st'.run env rest := by
  simp only [Station.run,moved,List.map_nil,List.nil_append]

-- The socket once its snapshot has been read, before it is sent.
structure SnapshotRead (env : Env) (st : Station) (customerId : Nat) (v : Database) (st' : Station) : Prop where
  rows : v.rows .order = st.market.db.rows .order
  client : st'.hub.clients[st.hub.clients.length]? =
    some ⟨.customer,.connected,[.customer customerId],⟨some customerId,some customerId,none,none⟩⟩
  handler : st'.handlers st.started =
    some (.customerSnapshot st.hub.clients.length customerId (getCustomerContext env v customerId))

theorem snapshot_read (env : Env) {st : Station} {u : User} (user : st.market.db.rows .user customerId = some u)
    (rest : List StationMove) :
    ∃ v st', SnapshotRead env st customerId v st' ∧
      st.run env ([.connect .customer (.payload customerId .customer),.resume st.started,
        .market (.step st.market.spawned fun _ => none),.resume st.started,.resume st.started] ++ rest) = st'.run env rest := by
  let s := st.hub.clients.length
  let st₁ : Station := {st with hub := st.hub.accept .customer ⟨none,none,none,none⟩}.start (.customerConnection s (.payload customerId .customer))
  have at_connection : st₁.handlers st.started = some (.customerConnection s (.payload customerId .customer)) :=
    Function.update_self ..
  let st₂ := st₁.go st.started (Handler.resume env st₁.market.db st₁.hub (.customerConnection s (.payload customerId .customer)))
  have called : st₁.move env (.resume st.started) = (st₂,[]) := resume_move env at_connection rfl (fun _ _ no => by cases no)
  have marking : st₂.market.threads st.market.spawned = some (.markPresence .markOnline customerId) := start_threads st.market
  obtain ⟨db,marked,_,same⟩ := step_presence env (fun _ => none) marking user
  let st₃ : Station := {st₂ with market := {st₂.market.goto st.market.spawned (.returned .done) with db := db}}
  have online : st₂.move env (.market (.step st.market.spawned fun _ => none)) = (st₃,[]) := by
    have quiet : st₂.notices env (.step st.market.spawned fun _ => none) = [] := by
      simp only [Station.notices,marking]
      rfl
    simp only [Station.move,marked,quiet]
    rfl
  have at_online : st₃.handlers st.started = some (.customerOnline s customerId st.market.spawned) := Function.update_self ..
  have returned : st₃.market.threads st.market.spawned = some (.returned .done) := Function.update_self ..
  let st₄ := st₃.go st.started (Handler.answer st₃.hub (.customerOnline s customerId st.market.spawned) .done)
  have answered : st₃.move env (.resume st.started) = (st₄,[]) := by
    have calls : (Handler.customerOnline s customerId st.market.spawned).call = some st.market.spawned := rfl
    simp only [Station.move,at_online,Station.resumed,calls,returned]
    rfl
  have at_context : st₄.handlers st.started = some (.customerContext s customerId) := go_handler
  let st₅ := st₄.go st.started (Handler.resume env st₄.market.db st₄.hub (.customerContext s customerId))
  have read : st₄.move env (.resume st.started) = (st₅,[]) := resume_move env at_context rfl (fun _ _ no => by cases no)
  refine ⟨db,st₅,⟨same .order (by decide),?_,go_handler⟩,?_⟩
  · have hub : st₅.hub = ((st.hub.accept .customer ⟨none,none,none,none⟩).identify s
        ⟨some customerId,some customerId,none,none⟩).join s (.customer customerId) := rfl
    rw [hub]
    simp only [Hub.join,Hub.identify,Hub.change,List.getElem?_modify,if_true,Hub.accept_new,Option.map_eq_map,
      Option.map_some,s]
  · rw [List.cons_append,run_silent (show st.move env _ = (st₁,[]) from rfl),List.cons_append,run_silent called,
      List.cons_append,run_silent online,List.cons_append,run_silent answered,List.cons_append,run_silent read,
      List.nil_append]

-- The whole of it: what the socket has joined, and the one context among its messages.
theorem connects_run (env : Env) {st : Station} {u : User} (user : st.market.db.rows .user customerId = some u) :
    ∃ v c, v.rows .order = st.market.db.rows .order ∧
      (st.run env (connects st customerId)).1.hub.clients[st.hub.clients.length]? = some c ∧
      c.space = .customer ∧ c.link = .connected ∧
      (∀ j, Room.job j ∈ c.rooms ↔ (getCustomerContext env v customerId).bind CustomerContext.jobId = some j) ∧
      ∀ context, Received (st.run env (connects st customerId)).2 st.hub.clients.length (.customerContext customerId context) ↔
        context = getCustomerContext env v customerId := by
  obtain ⟨v,st₅,reading,early⟩ := snapshot_read env user (List.replicate 5 (.resume st.started))
  let sent := Handler.resume env st₅.market.db st₅.hub
    (.customerSnapshot st.hub.clients.length customerId (getCustomerContext env v customerId))
  have snapshot : st₅.move env (.resume st.started) = (st₅.go st.started sent,sent.emitted) :=
    resume_move env reading.handler rfl (fun _ _ no => by cases no)
  have emitted : sent.emitted =
      [⟨.client st.hub.clients.length,.customerContext customerId (getCustomerContext env v customerId)⟩] := rfl
  have onward : ∀ x, (st₅.go st.started sent).handlers st.started = some x → x.Replaying := by
    intro x at_h
    rw [go_handler] at at_h
    cases at_h
    trivial
  obtain ⟨hub,replays⟩ := replaying_run env onward 4
  have joined : ∃ c, sent.hub.clients[st.hub.clients.length]? = some c ∧ c.space = .customer ∧ c.link = .connected ∧
      ∀ j, Room.job j ∈ c.rooms ↔ (getCustomerContext env v customerId).bind CustomerContext.jobId = some j := by
    dsimp only [sent,Handler.resume]
    cases (getCustomerContext env v customerId).bind CustomerContext.jobId with
    | none => exact ⟨_,reading.client,rfl,rfl,by simp⟩
    | some jobId =>
      refine ⟨⟨.customer,.connected,[.job jobId,.customer customerId],⟨some customerId,some customerId,none,none⟩⟩,?_,rfl,rfl,?_⟩
      · simp [Hub.join,Hub.change,reading.client]
      · intro j
        simp [eq_comm]
  obtain ⟨c,at_client,space,link,rooms⟩ := joined
  have whole : st.run env (connects st customerId) =
      (((st₅.go st.started sent).run env (List.replicate 4 (.resume st.started))).1,
        (sent.emitted.map fun e => (e,e.recipients (st₅.go st.started sent).hub)) ++
          ((st₅.go st.started sent).run env (List.replicate 4 (.resume st.started))).2) := by
    have parts : connects st customerId = [.connect .customer (.payload customerId .customer),.resume st.started,
        .market (.step st.market.spawned fun _ => none),.resume st.started,.resume st.started] ++
          List.replicate 5 (.resume st.started) := rfl
    rw [parts,early,List.replicate_succ]
    simp only [Station.run,snapshot]
  rw [whole]
  refine ⟨v,c,reading.rows,?_,space,link,rooms,?_⟩
  · rw [hub,go_hub]
    exact at_client
  · have heard : Emission.recipients ⟨.client st.hub.clients.length,
        .customerContext customerId (getCustomerContext env v customerId)⟩ (st₅.go st.started sent).hub =
          [st.hub.clients.length] := by
      rw [go_hub]
      simp [Emission.recipients,Hub.isOpen,at_client,link]
    intro context
    rw [emitted,List.map_singleton,heard]
    constructor
    · rintro ⟨entry,member,message,_⟩
      rcases List.mem_cons.mp member with rfl | later
      · cases message
        rfl
      · obtain ⟨missed,replayed⟩ := replays entry later
        rw [replayed] at message
        cases message
    · rintro rfl
      exact ⟨_,List.mem_cons_self,rfl,List.mem_singleton.mpr rfl⟩

def SingleOrder (v : Database) (customerId : Nat) : Prop :=
  ∀ i k o r, ActiveOrder v customerId i o → ActiveOrder v customerId k r → i = k

section Reconnects
variable {env : Env} {st : Station} {u : User}

-- One context mentions one order.
theorem restored_single (user : st.market.db.rows .user customerId = some u)
    (restored : Restored st.market.db customerId st.hub.clients.length (st.run env (connects st customerId)).1.hub
      (st.run env (connects st customerId)).2) : SingleOrder st.market.db customerId := by
  obtain ⟨v,c,rows,_,_,_,_,received⟩ := connects_run env user
  intro i k o r first second
  obtain ⟨one,heard,same⟩ := restored.mentioned i o first
  obtain ⟨two,heard',same'⟩ := restored.mentioned k r second
  have equal := ((received _).mp heard).trans ((received _).mp heard').symm
  rw [← same,← same',Option.some.inj equal]

theorem single_restored (user : st.market.db.rows .user customerId = some u) (single : SingleOrder st.market.db customerId) :
    Restored st.market.db customerId st.hub.clients.length (st.run env (connects st customerId)).1.hub
      (st.run env (connects st customerId)).2 := by
  obtain ⟨v,c,rows,at_client,space,link,rooms,received⟩ := connects_run env user
  have found : ∀ i o, ActiveOrder st.market.db customerId i o →
      getCustomerContext env v customerId = some ⟨i,o.status,o.deliveryJobId⟩ := by
    rintro i o ⟨at_i,own,status⟩
    have active : ActiveOrder v customerId i o := ⟨by rw [rows]; exact at_i,own,status⟩
    obtain ⟨k,r,⟨at_k,own',status'⟩,context⟩ := context_some env active
    rw [rows] at at_k
    have same := single i k o r ⟨at_i,own,status⟩ ⟨at_k,own',status'⟩
    subst same
    cases at_i.symm.trans at_k
    exact context
  refine ⟨?_,?_⟩
  · intro i o j active delivers
    refine Hub.mem_audience.mpr ⟨c,at_client,space,link,(rooms j).mpr ?_⟩
    rw [found i o active,← delivers]
    rfl
  · intro i o active
    exact ⟨_,(received _).mpr (found i o active).symm,rfl⟩

-- A customer's reconnection restores what is under way if and only if that is one
-- order at most. The vendor's snapshot mentions every open order.
theorem reconnection_restores (user : st.market.db.rows .user customerId = some u) :
    (Restored st.market.db customerId st.hub.clients.length (st.run env (connects st customerId)).1.hub
        (st.run env (connects st customerId)).2 ∧ ∀ vendorId, VendorMentions st.market.db vendorId) ↔
      SingleOrder st.market.db customerId :=
  ⟨fun both => restored_single user both.1,fun single => ⟨single_restored user single,vendor_mentions _⟩⟩

end Reconnects

-- Where the shop has marked orders of the customer ready.
def ordersReady (n : Nat) : Station :=
  let placed := fun i => ask (.createOrder ⟨[],none,some 0,some 0,none,none⟩ 0 0) (2*i) 3 ++ ask (.vendorMarkReady i 1) (2*i+1) 5
  {atMorning with market := morning.run (market village) ((List.range n).flatMap placed)}

theorem reconnection_restores_one :
    (∃ o, ActiveOrder (ordersReady 1).market.db 0 0 o) ∧
      Restored (ordersReady 1).market.db 0 (ordersReady 1).hub.clients.length ((ordersReady 1).run village (connects (ordersReady 1) 0)).1.hub
        ((ordersReady 1).run village (connects (ordersReady 1) 0)).2 := by
  have user : (ordersReady 1).market.db.rows .user 0 = some ⟨.customer,none,false⟩ := by decide +kernel
  have order : ∃ o, (ordersReady 1).market.db.rows .order 0 = some o ∧ o.customerId = 0 ∧ o.underDelivery = true := by
    have found : ((ordersReady 1).market.db.rows .order 0).any (fun o => o.customerId = 0 ∧ o.underDelivery = true) = true := by
      decide +kernel
    obtain ⟨o,at_o,hit⟩ := (Option.any_eq_true _ _).mp found
    exact ⟨o,at_o,of_decide_eq_true hit⟩
  have last : (ordersReady 1).market.db.seq .order = 1 := by decide +kernel
  refine ⟨order,((reconnection_restores user).mpr ?_).1⟩
  intro i k o r first second
  have before := (ordersReady 1).market.db.below first.1
  have before' := (ordersReady 1).market.db.below second.1
  omega

-- Two orders are ready, and the customer hears of one.
theorem reconnection_forgets : ¬∀ (env : Env) (st : Station) (customerId : Nat) (u : User),
    st.market.db.rows .user customerId = some u →
      Restored st.market.db customerId st.hub.clients.length (st.run env (connects st customerId)).1.hub
        (st.run env (connects st customerId)).2 := by
  intro claim
  have user : (ordersReady 2).market.db.rows .user 0 = some ⟨.customer,none,false⟩ := by decide +kernel
  have orders : ∀ i < 2, ((ordersReady 2).market.db.rows .order i).any (fun o => o.customerId = 0 ∧ o.underDelivery = true) = true := by
    decide +kernel
  obtain ⟨o,at_o,hit⟩ := (Option.any_eq_true _ _).mp (orders 0 (by omega))
  obtain ⟨r,at_r,hit'⟩ := (Option.any_eq_true _ _).mp (orders 1 (by omega))
  have single := restored_single user (claim village (ordersReady 2) 0 _ user)
  have same := single 0 1 o r ⟨at_o,of_decide_eq_true hit⟩ ⟨at_r,of_decide_eq_true hit'⟩
  omega

end MesyafMarket
