import Mathlib.Data.List.Induction
import MesyafMarket.AssignmentNotice
import MesyafMarket.Dispatch.Notices

namespace MesyafMarket
open Relational Sockets ReconnectService ReplayService DelivererAssignmentService DelivererService EventLogService
open DeliveryJobSubscriptionService VendorService

-- What is known of a run from outside: the token that each connection presented,
-- and the rows that there have been.
structure Chronicle where
  handshake : Nat → Option (Space × Token)
  past : Database → Prop

namespace Chronicle
variable (H : Chronicle)

-- The deliverer had the job at some point of the run.
def Given (d j : Nat) : Prop :=
  ∃ v, H.past v ∧ (RiddenBy v d j ∨ ∃ p, v.rows .delivererProfile d = some p ∧ p.activeJobId = some j)

-- The customer had an order in the job at some point of the run.
def Awaits (customerId j : Nat) : Prop :=
  ∃ v, H.past v ∧ ∃ i o, v.rows .order i = some o ∧ o.customerId = customerId ∧ o.deliveryJobId = some j

-- An order of the customer was in the batch at some point of the run.
def Batched (customerId batchId : Nat) : Prop := ∃ v, H.past v ∧ OrderedIn v customerId batchId

def memory : Memory := ⟨H.Given,H.Batched,fun jobId batchId => ∃ v, H.past v ∧ FromBatch v jobId batchId⟩

def Customer (s customerId : Nat) : Prop := H.handshake s = some (.customer,.payload customerId .customer)

def Vendor (v : Database) (s vendorId : Nat) : Prop :=
  ∃ userId, H.handshake s = some (.vendor,.payload userId .vendor) ∧ ShopOf v userId vendorId

def Deliverer (v : Database) (s delivererId : Nat) : Prop :=
  ∃ userId, H.handshake s = some (.deliverer,.payload userId .deliverer) ∧ RiderOf v userId delivererId

-- An order of the user who holds the connection's token, or of that user's shop.
def Owns (v : Database) (s orderId : Nat) : Prop :=
  (∃ customerId, H.Customer s customerId ∧ PlacedBy v customerId orderId) ∨
    ∃ vendorId, H.Vendor v s vendorId ∧ SoldBy v vendorId orderId

-- Whom a room is for.
def Entitled (v : Database) (s : Nat) : Room → Prop
  | .customer customerId => H.Customer s customerId
  | .vendor vendorId => H.Vendor v s vendorId
  | .deliverer delivererId => H.Deliverer v s delivererId
  | .job jobId => (∃ customerId, H.Customer s customerId ∧ H.Awaits customerId jobId) ∨
      ∃ delivererId, H.Deliverer v s delivererId ∧ H.Given delivererId jobId

def News (v : Database) (s : Nat) (event : EventLog) : Prop :=
  (event.entityType = .order ∧ H.Owns v s event.entityId) ∨
    (event.entityType = .job ∧ ∃ delivererId, H.Deliverer v s delivererId ∧ H.Given delivererId event.entityId)

-- What a connection may be told. What answers its own message is not restricted.
def May (v : Database) (s : Nat) (e : Emission) : Prop :=
  match e.message with
  | .customerContext customerId data => H.Customer s customerId ∧ ∀ context ∈ data,
      PlacedBy v customerId context.orderId ∧ ∀ jobId, context.jobId = some jobId → H.Awaits customerId jobId
  | .vendorContext vendorId data => H.Vendor v s vendorId ∧ ∀ order ∈ data, SoldBy v vendorId order.orderId
  | .delivererContext delivererId data => H.Deliverer v s delivererId ∧
      ∀ context ∈ data, H.Given delivererId context.jobId
  | .eventsReplay missed => ∀ event ∈ missed, H.News v s event.2
  | .jobSubscribed jobId => ∃ customerId, H.Customer s customerId ∧ H.Awaits customerId jobId
  | .deliveryStarted jobId | .deliveryCompleted jobId =>
    ∃ delivererId, H.Deliverer v s delivererId ∧ H.Given delivererId jobId
  | .locationUpdate _ _ _ => ∃ jobId delivererId, e.target = .room .deliverer (.job jobId) ∧
      H.Deliverer v s delivererId ∧ H.Given delivererId jobId
  | .notice (.newOrder vendorId orderId) => H.Vendor v s vendorId ∧ SoldBy v vendorId orderId
  | .notice (.orderReady customerId orderId) | .notice (.orderDecided customerId orderId _) =>
    H.Customer s customerId ∧ PlacedBy v customerId orderId
  | .notice (.deliveryIssue customerId _ orderId) => H.Customer s customerId ∧ PlacedBy v customerId orderId
  | .notice (.jobAssigned delivererId jobId _ _) => H.Deliverer v s delivererId ∧ H.Given delivererId jobId
  | .notice (.delivererAssigned customerId jobId delivererId) => H.Customer s customerId ∧
      H.memory.Shares customerId jobId ∧ H.Given delivererId jobId
  | .jobStarted _ | .jobError _ | .dropoffCompleted _ | .dropoffError _ => True

-- What holds at each point of a handler.
def Knows (v : Database) : Handler → Prop
  | .customerConnection s token => H.handshake s = some (.customer,token)
  | .customerOnline s customerId _ | .customerContext s customerId => H.Customer s customerId
  | .customerLastSeen s customerId | .customerOrders s customerId _ => H.Customer s customerId
  | .customerSnapshot s customerId data => H.Customer s customerId ∧ ∀ context ∈ data,
      PlacedBy v customerId context.orderId ∧ ∀ jobId, context.jobId = some jobId → H.Awaits customerId jobId
  | .vendorConnection s token => H.handshake s = some (.vendor,token)
  | .vendorOnline s userId _ | .vendorProfile s userId => H.handshake s = some (.vendor,.payload userId .vendor)
  | .vendorJoin s userId vendorId =>
    H.handshake s = some (.vendor,.payload userId .vendor) ∧ ShopOf v userId vendorId
  | .vendorContext s vendorId | .vendorLastSeen s vendorId | .vendorOrders s vendorId _ => H.Vendor v s vendorId
  | .vendorSnapshot s vendorId data => H.Vendor v s vendorId ∧ ∀ order ∈ data, SoldBy v vendorId order.orderId
  | .eventsSince s orders _ => ∀ orderId ∈ orders, H.Owns v s orderId
  | .replay s missed => ∀ event ∈ missed, H.News v s event.2
  | .delivererConnection s token => H.handshake s = some (.deliverer,token)
  | .delivererProfile s userId => H.handshake s = some (.deliverer,.payload userId .deliverer)
  | .delivererLastSeen s userId delivererId =>
    H.handshake s = some (.deliverer,.payload userId .deliverer) ∧ RiderOf v userId delivererId
  | .delivererEvents s userId delivererId jobId _ =>
    (H.handshake s = some (.deliverer,.payload userId .deliverer) ∧ RiderOf v userId delivererId) ∧
      H.Given delivererId jobId
  | .delivererMissed s userId delivererId missed | .delivererOnline s userId delivererId missed _ =>
    (H.handshake s = some (.deliverer,.payload userId .deliverer) ∧ RiderOf v userId delivererId) ∧
      ∀ event ∈ missed, H.News v s event.2
  | .delivererContext s delivererId missed => H.Deliverer v s delivererId ∧ ∀ event ∈ missed, H.News v s event.2
  | .delivererSnapshot s delivererId missed data => (H.Deliverer v s delivererId ∧
      ∀ event ∈ missed, H.News v s event.2) ∧ ∀ context ∈ data, H.Given delivererId context.jobId
  | .subscribed s jobId refusal => refusal = none → ∃ customerId, H.Customer s customerId ∧ H.Awaits customerId jobId
  | _ => True

structure Seated (v : Database) (s : Nat) (c : Client Space Room ClientData) : Prop where
  handshake : ∃ token, H.handshake s = some (c.space,token)
  rooms : ∀ room ∈ c.rooms, H.Entitled v s room
  customer : ∀ customerId, c.data.customerId = some customerId → H.Customer s customerId

structure Discreet (st : Station) : Prop where
  seats : st.hub.Every (H.Seated st.market.db)
  handlers : ∀ h x, st.handlers h = some x → H.Knows st.market.db x
  threads : ∀ p x, st.market.threads p = some x → x.Honest H.memory st.market.db

end Chronicle

variable {H : Chronicle}

section Lasting
variable {v v' : Database}

theorem vendor_on (vendor : H.Vendor v s k) (belong : Belonging v v') : H.Vendor v' s k := by
  obtain ⟨userId,token,shop⟩ := vendor
  exact ⟨userId,token,shop_on shop belong⟩

theorem deliverer_on (deliverer : H.Deliverer v s d) (belong : Belonging v v') : H.Deliverer v' s d := by
  obtain ⟨userId,token,rider⟩ := deliverer
  exact ⟨userId,token,rider_on rider belong⟩

theorem owns_on (owns : H.Owns v s i) (belong : Belonging v v') : H.Owns v' s i := by
  rcases owns with ⟨c,customer,placed⟩ | ⟨k,vendor,sold⟩
  · exact .inl ⟨c,customer,placed_on placed belong⟩
  · exact .inr ⟨k,vendor_on vendor belong,sold_on sold belong⟩

theorem news_on (news : H.News v s event) (belong : Belonging v v') : H.News v' s event := by
  rcases news with ⟨entity,owns⟩ | ⟨entity,d,deliverer,given⟩
  · exact .inl ⟨entity,owns_on owns belong⟩
  · exact .inr ⟨entity,d,deliverer_on deliverer belong,given⟩

theorem entitled_on {room : Room} (entitled : H.Entitled v s room) (belong : Belonging v v') : H.Entitled v' s room := by
  cases room with
  | customer => exact entitled
  | vendor => exact vendor_on entitled belong
  | deliverer => exact deliverer_on entitled belong
  | job =>
    rcases entitled with customer | ⟨d,deliverer,given⟩
    · exact .inl customer
    · exact .inr ⟨d,deliverer_on deliverer belong,given⟩

theorem knows_on {x : Handler} (knows : H.Knows v x) (belong : Belonging v v') : H.Knows v' x := by
  cases x with
  | customerSnapshot =>
    exact ⟨knows.1,fun context member => ⟨placed_on (knows.2 context member).1 belong,(knows.2 context member).2⟩⟩
  | vendorJoin => exact ⟨knows.1,shop_on knows.2 belong⟩
  | vendorContext | vendorLastSeen | vendorOrders => exact vendor_on knows belong
  | vendorSnapshot => exact ⟨vendor_on knows.1 belong,fun order member => sold_on (knows.2 order member) belong⟩
  | eventsSince => exact fun i member => owns_on (knows i member) belong
  | replay => exact fun event member => news_on (knows event member) belong
  | delivererLastSeen => exact ⟨knows.1,rider_on knows.2 belong⟩
  | delivererEvents => exact ⟨⟨knows.1.1,rider_on knows.1.2 belong⟩,knows.2⟩
  | delivererMissed | delivererOnline =>
    exact ⟨⟨knows.1.1,rider_on knows.1.2 belong⟩,fun event member => news_on (knows.2 event member) belong⟩
  | delivererContext =>
    exact ⟨deliverer_on knows.1 belong,fun event member => news_on (knows.2 event member) belong⟩
  | delivererSnapshot =>
    exact ⟨⟨deliverer_on knows.1.1 belong,fun event member => news_on (knows.1.2 event member) belong⟩,knows.2⟩
  | _ => exact knows

theorem seated_on {c : Client Space Room ClientData} (seated : H.Seated v s c) (belong : Belonging v v') :
    H.Seated v' s c :=
  ⟨seated.handshake,fun room member => entitled_on (seated.rooms room member) belong,seated.customer⟩

theorem may_on {e : Emission} (may : H.May v s e) (belong : Belonging v v') : H.May v' s e := by
  obtain ⟨target,message⟩ := e
  cases message with
  | customerContext =>
    exact ⟨may.1,fun context member => ⟨placed_on (may.2 context member).1 belong,(may.2 context member).2⟩⟩
  | vendorContext => exact ⟨vendor_on may.1 belong,fun order member => sold_on (may.2 order member) belong⟩
  | delivererContext => exact ⟨deliverer_on may.1 belong,may.2⟩
  | eventsReplay => exact fun event member => news_on (may event member) belong
  | deliveryStarted | deliveryCompleted =>
    obtain ⟨d,deliverer,given⟩ := may
    exact ⟨d,deliverer_on deliverer belong,given⟩
  | locationUpdate =>
    obtain ⟨j,d,room,deliverer,given⟩ := may
    exact ⟨j,d,room,deliverer_on deliverer belong,given⟩
  | notice note =>
    cases note with
    | newOrder => exact ⟨vendor_on may.1 belong,sold_on may.2 belong⟩
    | orderReady | orderDecided | deliveryIssue => exact ⟨may.1,placed_on may.2 belong⟩
    | jobAssigned => exact ⟨deliverer_on may.1 belong,may.2⟩
    | delivererAssigned => exact may
  | jobSubscribed | jobStarted | jobError | dropoffCompleted | dropoffError => exact may

theorem discreet_on {st : Station} (discreet : H.Discreet st) (belong : Belonging st.market.db w.db)
    (threads : ∀ p x, w.threads p = some x → x.Honest H.memory w.db) : H.Discreet {st with market := w} :=
  ⟨fun s c found => seated_on (discreet.seats s c found) belong,
    fun h x found => knows_on (discreet.handlers h x found) belong,threads⟩

end Lasting

-- What each read of a handler brings is its own user's.
section Reads
variable {env : Env} {v : Database}

theorem customerContext_own (past : H.past v) (read : getCustomerContext env v customerId = some context) :
    PlacedBy v customerId context.orderId ∧ ∀ jobId, context.jobId = some jobId → H.Awaits customerId jobId := by
  obtain ⟨order,first,same⟩ := Option.map_eq_some_iff.mp read
  obtain ⟨found,hit⟩ := v.mem_matching.mp ((env.scan_perm v _).mem_iff.mp (List.mem_of_head? first))
  have own := (of_decide_eq_true hit).1
  subst same
  exact ⟨⟨order.2,found,own⟩,fun jobId part => ⟨v,past,order.1,order.2,found,own,part⟩⟩

theorem delivererContext_own (past : H.past v) (read : getDelivererContext env v d = some context) :
    H.Given d context.jobId := by
  obtain ⟨job,first,same⟩ := Option.map_eq_some_iff.mp read
  obtain ⟨found,hit⟩ := v.mem_matching.mp ((env.scan_perm v _).mem_iff.mp (List.mem_of_head? first))
  subst same
  exact ⟨v,past,.inl ⟨job.2,found,(of_decide_eq_true hit).1⟩⟩

theorem vendorContext_own (member : order ∈ getVendorContext v vendorId) : SoldBy v vendorId order.orderId := by
  obtain ⟨o,listed,same⟩ := List.mem_map.mp member
  obtain ⟨found,hit⟩ := v.mem_matching.mp ((List.mem_insertionSort _).mp listed)
  subst same
  exact ⟨o.2,found,(of_decide_eq_true hit).1⟩

theorem customerOrders_own (member : i ∈ ReplayService.customerOrders v customerId) : PlacedBy v customerId i := by
  obtain ⟨o,listed,same⟩ := List.mem_map.mp member
  obtain ⟨found,hit⟩ := v.mem_matching.mp listed
  subst same
  exact ⟨o.2,found,(of_decide_eq_true hit).1⟩

theorem vendorOrders_own (member : i ∈ ReplayService.vendorOrders v vendorId) : SoldBy v vendorId i := by
  obtain ⟨o,listed,same⟩ := List.mem_map.mp member
  obtain ⟨found,hit⟩ := v.mem_matching.mp listed
  subst same
  exact ⟨o.2,found,(of_decide_eq_true hit).1⟩

theorem eventsSince_about (member : event ∈ getEventsSince entityType ids since v) :
    event.2.entityType = entityType ∧ event.2.entityId ∈ ids := by
  have listed := (List.mem_insertionSort _).mp member
  obtain ⟨_,hit⟩ := v.mem_matching.mp listed
  have about := of_decide_eq_true hit
  exact ⟨about.1,about.2.1⟩

theorem profile_shop (found : getProfileByUserId v userId = some vendorId) : ShopOf v userId vendorId := by
  obtain ⟨profile,first,same⟩ := Option.map_eq_some_iff.mp found
  obtain ⟨at_vendor,hit⟩ := v.mem_matching.mp (List.mem_of_head? first)
  subst same
  exact ⟨profile.2,at_vendor,(of_decide_eq_true hit).1⟩

theorem delivererByUser_rider (found : delivererByUser v userId = some d) : RiderOf v userId d.1 := by
  obtain ⟨at_d,own⟩ := delivererByUser_some found
  have present : v.rows .delivererProfile d.1 = some d.2 := at_d
  refine ⟨?_,?_⟩
  · by_contra beyond
    rw [v.bounded .delivererProfile d.1 (Nat.le_of_not_lt beyond)] at present
    cases present
  · intro p found
    rw [present] at found
    cases found
    exact own

theorem lastSeenAt_given (past : H.past v) (read : delivererLastSeenAt v d = some (jobId,since)) : H.Given d jobId := by
  unfold delivererLastSeenAt at read
  split at read
  · rename_i deliverer found
    split at read
    · rename_i active _
      cases read
      exact ⟨v,past,.inr ⟨deliverer,found,active⟩⟩
    · cases read
  · cases read

theorem subscribed_awaits (past : H.past v) (customer : ∀ c, customerId = some c → H.Customer s c)
    (granted : subscribeCustomerToJob v customerId jobId = none) : ∃ c, H.Customer s c ∧ H.Awaits c jobId := by
  unfold subscribeCustomerToJob at granted
  split at granted
  · cases granted
  · split at granted
    · cases granted
    · rename_i owner
      obtain ⟨i,o,found,hit⟩ := matching_some (fun empty => owner (by rw [empty]; rfl))
      obtain ⟨part,own⟩ := of_decide_eq_true hit
      exact ⟨o.customerId,customer _ own.symm,v,past,i,o,found,rfl,part⟩

end Reads

section Segments
variable {env : Env} {v : Database} {hub : Clients}

theorem seats_join (seats : hub.Every (H.Seated v)) (entitled : H.Entitled v s room) :
    (hub.join s room).Every (H.Seated v) := by
  refine every_change seats fun c seated => ⟨seated.handshake,?_,seated.customer⟩
  intro room' member
  rcases List.mem_cons.mp member with same | before
  · rw [same]; exact entitled
  · exact seated.rooms room' before

theorem seats_identify (seats : hub.Every (H.Seated v)) (customer : ∀ c, data.customerId = some c → H.Customer s c) :
    (hub.identify s data).Every (H.Seated v) :=
  every_change seats fun _ seated => ⟨seated.handshake,seated.rooms,customer⟩

theorem seats_close (seats : hub.Every (H.Seated v)) : (hub.close s).Every (H.Seated v) := by
  refine every_change seats fun c seated => ?_
  split
  · exact ⟨seated.handshake,fun _ member => absurd member List.not_mem_nil,seated.customer⟩
  · exact seated

theorem seats_notice (seats : hub.Every (H.Seated v)) : (hub.notice s).Every (H.Seated v) := by
  refine every_change seats fun c seated => ?_
  split
  · exact ⟨seated.handshake,seated.rooms,seated.customer⟩
  · exact seated

theorem caught_seats {x : Handler} (seats : hub.Every (H.Seated v)) : (x.caught hub e).hub.Every (H.Seated v) := by
  cases x <;> simp only [Handler.caught]
  case eventsSince | replay =>
    split
    · exact seats
    · exact seats_close seats
  all_goals first | exact seats_close seats | exact seats

theorem resume_seats {x : Handler} (seats : hub.Every (H.Seated v)) (knows : H.Knows v x) :
    (x.resume env v hub).hub.Every (H.Seated v) := by
  cases x <;> simp only [Handler.resume]
  case customerSnapshot s c data =>
    obtain ⟨customer,own⟩ := knows
    split
    · rename_i jobId part
      obtain ⟨context,read,part⟩ := Option.bind_eq_some_iff.mp part
      exact seats_join seats (.inl ⟨c,customer,(own context read).2 jobId part⟩)
    · exact seats
  case vendorJoin s u k =>
    exact seats_join (seats_identify seats fun _ none => by cases none) ⟨u,knows.1,knows.2⟩
  case delivererSnapshot s d missed data =>
    split
    · exact seats_join seats (.inr ⟨d,knows.1.1,knows.2 _ rfl⟩)
    · exact seats
  case subscribed =>
    split
    · exact seats_join seats (.inl (knows rfl))
    · exact seats
  case dropoffComplete =>
    split
    · exact seats
    · exact caught_seats seats
  case disconnection =>
    split
    · split <;> exact seats
    · exact seats
  all_goals (try split) <;> first | exact seats | exact seats_close seats

theorem answer_seats {x : Handler} (seats : hub.Every (H.Seated v)) (knows : H.Knows v x) :
    (x.answer hub reply).hub.Every (H.Seated v) := by
  unfold Handler.answer
  split
  · exact caught_seats seats
  · refine seats_join (seats_identify seats ?_) knows
    intro c same
    cases same
    exact knows
  · exact seats
  · rename_i s u d missed call _
    exact seats_join (seats_identify seats fun _ none => by cases none) ⟨u,knows.1.1,knows.1.2⟩
  · split <;> exact seats
  all_goals exact seats

theorem resume_knows {x : Handler} (past : H.past v) (seats : hub.Every (H.Seated v)) (knows : H.Knows v x) :
    (x.resume env v hub).next.Goes (H.Knows v) := by
  cases x <;> simp only [Handler.resume]
  case customerConnection s token =>
    split
    · exact fun _ => knows
    · trivial
  case customerContext s c => exact ⟨knows,fun context read => customerContext_own past read⟩
  case customerSnapshot => exact knows.1
  case customerLastSeen =>
    split
    · exact knows
    · exact fun _ member => absurd member List.not_mem_nil
  case customerOrders s c since =>
    split
    · exact fun _ member => absurd member List.not_mem_nil
    · rename_i orders _
      intro i member
      exact .inl ⟨c,knows,customerOrders_own member⟩
  case vendorConnection s token =>
    split
    · exact fun _ => knows
    · trivial
    · trivial
  case vendorProfile s u =>
    split
    · rename_i k found
      exact ⟨knows,profile_shop found⟩
    · trivial
  case vendorJoin s u k => exact ⟨u,knows.1,knows.2⟩
  case vendorContext => exact ⟨knows,fun order member => vendorContext_own member⟩
  case vendorSnapshot => exact knows.1
  case vendorLastSeen =>
    split
    · exact knows
    · exact fun _ member => absurd member List.not_mem_nil
  case vendorOrders s k since => exact fun i member => .inr ⟨k,knows,vendorOrders_own member⟩
  case eventsSince s orders since =>
    intro event member
    obtain ⟨entity,about⟩ := eventsSince_about member
    exact .inl ⟨entity,knows _ about⟩
  case replay => split <;> trivial
  case delivererConnection s token =>
    split
    · exact knows
    · trivial
  case delivererProfile s u =>
    split
    · rename_i deliverer found
      exact ⟨knows,delivererByUser_rider found⟩
    · trivial
  case delivererLastSeen s u d =>
    split
    · rename_i jobId since read
      exact ⟨knows,lastSeenAt_given past read⟩
    · exact ⟨knows,fun _ member => absurd member List.not_mem_nil⟩
  case delivererEvents s u d jobId since =>
    refine ⟨knows.1,fun event member => ?_⟩
    obtain ⟨entity,about⟩ := eventsSince_about member
    rw [List.mem_singleton] at about
    exact .inr ⟨entity,d,⟨u,knows.1.1,knows.1.2⟩,by rw [about]; exact knows.2⟩
  case delivererMissed => exact fun _ => knows
  case delivererContext => exact ⟨knows,fun context read => delivererContext_own past read⟩
  case jobSubscribe s jobId =>
    intro granted
    refine subscribed_awaits past ?_ granted
    intro c same
    unfold dataOf at same
    split at same
    · rename_i client found
      exact (seats s client found).customer c same
    · cases same
  case dropoffComplete =>
    split
    · exact fun _ => trivial
    · rw [caught_finished]; trivial
  case disconnection =>
    split
    · split
      · exact fun _ => trivial
      · trivial
    · trivial
  all_goals (try split) <;> first | trivial | exact fun _ => trivial

theorem answer_knows {x : Handler} (knows : H.Knows v x) : (x.answer hub reply).next.Goes (H.Knows v) := by
  unfold Handler.answer
  split
  · rw [caught_finished]; trivial
  · exact knows
  · exact knows
  · rename_i s u d missed call _
    exact ⟨⟨u,knows.1.1,knows.1.2⟩,knows.2⟩
  · split
    · exact fun _ => trivial
    · trivial
  all_goals trivial

theorem resume_quiet {x : Handler} (calls : (x.resume env v hub).next = .call service y) :
    service.Honest H.memory v := by
  cases x <;> simp only [Handler.resume] at calls
  case dropoffComplete =>
    split at calls
    · cases calls; exact honest_quiet rfl rfl rfl
    · rw [caught_finished] at calls; cases calls
  case disconnection =>
    split at calls
    · split at calls
      · cases calls; exact honest_quiet rfl rfl rfl
      · cases calls
    · cases calls
  all_goals (try split at calls) <;> cases calls <;> exact honest_quiet rfl rfl rfl

theorem answer_quiet {x : Handler} (calls : (x.answer hub reply).next = .call service y) :
    service.Honest H.memory v := by
  unfold Handler.answer at calls
  split at calls
  · rw [caught_finished] at calls; cases calls
  · cases calls
  · cases calls
  · cases calls
  · split at calls <;> cases calls
    exact honest_quiet rfl rfl rfl
  all_goals cases calls

end Segments

theorem discreet_start {st : Station} {x : Handler} (discreet : H.Discreet st) (knows : H.Knows st.market.db x) :
    H.Discreet (st.start x) := by
  refine ⟨discreet.seats,?_,discreet.threads⟩
  intro h y found
  rcases update_some found with ⟨_,same⟩ | ⟨_,before⟩
  · rw [same]; exact knows
  · exact discreet.handlers h y before

theorem discreet_go {st : Station} {segment : Segment} (discreet : H.Discreet st)
    (seats : segment.hub.Every (H.Seated st.market.db)) (next : segment.next.Goes (H.Knows st.market.db))
    (service : ∀ y x, segment.next = .call y x → y.Honest H.memory st.market.db) : H.Discreet (st.go h segment) := by
  refine ⟨?_,?_,?_⟩
  · rw [go_hub,go_rows]; exact seats
  · intro q y found
    rw [go_rows]
    rcases go_found found with ⟨_,leads⟩ | before
    · exact goes_handler next leads
    · exact discreet.handlers q y before
  · intro p y found
    rw [go_rows]
    rcases go_threads found with before | ⟨x,calls⟩
    · exact discreet.threads p y before
    · exact service y x calls

theorem discreet_caught {st : Station} {x : Handler} (discreet : H.Discreet st) :
    H.Discreet (st.go h (x.caught st.hub e)) :=
  discreet_go discreet (caught_seats discreet.seats) caught_goes fun y z calls => by
    rw [caught_finished] at calls; cases calls

theorem discreet_resumed {env : Env} {st : Station} (discreet : H.Discreet st) (past : H.past st.market.db)
    (found : st.handlers h = some x) : H.Discreet (st.resumed env h x).1 := by
  have knows := discreet.handlers h x found
  unfold Station.resumed
  split
  · split
    · exact discreet_go discreet (answer_seats discreet.seats knows) (answer_knows knows) fun _ _ => answer_quiet
    · exact discreet
  · split
    · split
      · rename_i db ran
        have belong := belonging_startJobOfAnyoneTx _ _ ran
        have rows := discreet_on (w := {st.market with db := db}) discreet belong
          fun p y at_p => honest_on (discreet.threads p y at_p) belong
        dsimp only
        exact discreet_go rows rows.seats trivial fun y z calls => by cases calls
      · dsimp only
        exact discreet_caught discreet
    · exact discreet_go discreet (resume_seats discreet.seats knows) (resume_knows past discreet.seats knows)
        fun _ _ => resume_quiet

theorem past_covers (past : H.past v) : H.memory.Covers v :=
  ⟨fun _ _ served => ⟨v,past,.inl served⟩,fun _ _ part => ⟨v,past,part⟩,fun _ _ made => ⟨v,past,made⟩⟩

theorem discreet_market {env : Env} {st : Station} (discreet : H.Discreet st) (m : MarketMove)
    (admitted : Admitted st.market m) (past : H.past st.market.db) (later : H.past (st.market.move (market env) m).db) :
    H.Discreet {st with market := st.market.move (market env) m} := by
  have belong : Belonging st.market.db (st.market.move (market env) m).db := belonging_station env st (.market m)
  refine discreet_on discreet belong ?_
  intro p y found
  rcases thread_parts (market env) st.market m found with before | ⟨x,at_p,flows⟩ | ⟨_,_,spawned | ⟨task,_,worker⟩⟩
  · exact honest_on (discreet.threads p y before) belong
  · exact flows_honest flows (discreet.threads p x at_p) belong (past_covers past) (past_covers later)
  · subst spawned
    exact entry_honest admitted
  · subst worker
    exact worker_honest task

theorem discreet_move {env : Env} {st : Station} (discreet : H.Discreet st) (m : StationMove) (admitted : m.Admitted st)
    (past : H.past st.market.db) (later : H.past (st.move env m).1.market.db)
    (greets : ∀ space token, m = .connect space token → H.handshake st.hub.clients.length = some (space,token)) :
    H.Discreet (st.move env m).1 := by
  cases m with
  | market m => exact discreet_market discreet m admitted past later
  | connect space token =>
    have greeted := greets space token rfl
    have seated : H.Seated st.market.db st.hub.clients.length ⟨space,.connected,[],⟨none,none,none,none⟩⟩ :=
      ⟨⟨token,greeted⟩,fun _ member => absurd member List.not_mem_nil,fun _ none => by cases none⟩
    refine discreet_start ⟨every_accept discreet.seats seated,discreet.handlers,discreet.threads⟩ ?_
    cases space <;> exact greeted
  | leave client => exact ⟨seats_close discreet.seats,discreet.handlers,discreet.threads⟩
  | disconnect client =>
    simp only [Station.move]
    split
    · exact discreet_start ⟨seats_notice discreet.seats,discreet.handlers,discreet.threads⟩ trivial
    · exact discreet
  | message client m =>
    simp only [Station.move]
    split
    · rename_i c _
      split
      · rename_i x handles
        refine discreet_start discreet ?_
        split at handles
        · cases m <;> cases space : c.space <;> rw [space] at handles <;> cases handles <;> trivial
        · cases handles
      · exact discreet
    · exact discreet
  | fail h =>
    simp only [Station.move]
    split
    · exact discreet_caught discreet
    · exact discreet
  | resume h =>
    simp only [Station.move]
    split
    · rename_i x found
      exact discreet_resumed discreet past found
    · exact discreet

-- Whoever hears a room is entitled to it.
theorem heard_entitled {st : Station} (discreet : H.Discreet st) (hears : s ∈ st.hub.audience space room) :
    (∃ token, H.handshake s = some (space,token)) ∧ H.Entitled st.market.db s room := by
  obtain ⟨c,found,same,_,member⟩ := Hub.mem_audience.mp hears
  have seated := discreet.seats s c found
  subst same
  exact ⟨seated.handshake,seated.rooms room member⟩

theorem job_heard {st : Station} (discreet : H.Discreet st) (hears : s ∈ st.hub.audience .deliverer (.job j)) :
    ∃ d, H.Deliverer st.market.db s d ∧ H.Given d j := by
  obtain ⟨⟨token,greeted⟩,entitled⟩ := heard_entitled discreet hears
  rcases entitled with ⟨c,customer,_⟩ | deliverer
  · unfold Chronicle.Customer at customer
    rw [greeted] at customer
    cases customer
  · exact deliverer

theorem emits_may {st : Station} {x : Handler} (discreet : H.Discreet st) (emits : x.Emits e)
    (knows : H.Knows st.market.db x) (reaches : s ∈ e.recipients st.hub) : H.May st.market.db s e := by
  have own : ∀ client, s ∈ (if st.hub.isOpen client then [client] else []) → s = client := by
    intro client member
    split at member
    · exact List.mem_singleton.mp member
    · cases member
  cases emits with
  | customerContext | vendorContext | replay => rw [own _ reaches]; exact knows
  | delivererContext => rw [own _ reaches]; exact ⟨knows.1.1,knows.2⟩
  | delivererReplay => rw [own _ reaches]; exact knows.1.2
  | jobSubscribed => rw [own _ reaches]; exact knows rfl
  | deliveryStarted | unfilteredDelivery | deliveryCompleted => exact job_heard discreet reaches
  | locationUpdate =>
    obtain ⟨d,deliverer,given⟩ := job_heard discreet reaches
    exact ⟨_,d,rfl,deliverer,given⟩
  | jobStarted | unfilteredStarted | dropoffCompleted | jobError | dropoffError => trivial

-- What a service sends is about its recipient's own affairs.
theorem notice_may {env : Env} {st : Station} {x : Proc} (discreet : H.Discreet st) (honest : x.Honest H.memory st.market.db)
    (at_emit : Proc.next env x = .emit note y) (hears : s ∈ (⟨note.target,.notice note⟩ : Emission).recipients st.hub) :
    H.May st.market.db s ⟨note.target,.notice note⟩ := by
  cases x <;> simp only [Proc.next,reduceCtorEq] at at_emit
  case requeue => split at at_emit <;> cases at_emit
  case notifyNewOrder => cases at_emit; exact ⟨(heard_entitled discreet hears).2,honest.sells _ _ rfl⟩
  case notifyReady => cases at_emit; exact ⟨(heard_entitled discreet hears).2,honest.mentions _ List.mem_cons_self⟩
  case notifyDecision => cases at_emit; exact ⟨(heard_entitled discreet hears).2,honest.mentions _ List.mem_cons_self⟩
  case notifyAssigned => cases at_emit; exact ⟨(heard_entitled discreet hears).2,(honest.hands _ rfl).1⟩
  case notifyIssue => cases at_emit; exact ⟨(heard_entitled discreet hears).2,honest.mentions _ List.mem_cons_self⟩
  case notifyCustomers =>
    split at at_emit
    · cases at_emit
    · cases at_emit
      obtain ⟨given,shares⟩ := honest.hands _ rfl
      exact ⟨(heard_entitled discreet hears).2,shares _ List.mem_cons_self,given⟩

theorem move_may {env : Env} {st : Station} {m : StationMove} (before : H.Discreet st)
    (after : H.Discreet (st.move env m).1) (sent : e ∈ (st.move env m).2)
    (reaches : s ∈ e.recipients (st.move env m).1.hub) : H.May (st.move env m).1.market.db s e := by
  have belong := belonging_station env st m
  by_cases market : ∃ n, m = .market n
  · obtain ⟨n,rfl⟩ := market
    simp only [Station.move,Station.notices] at sent
    split at sent
    · split at sent
      · rename_i p _ _ x at_p
        split at sent
        · rename_i note y at_emit
          obtain rfl := List.mem_singleton.mp sent
          exact notice_may after (honest_on (before.threads p x at_p) belong) at_emit reaches
        · cases sent
      · cases sent
    · cases sent
  · obtain ⟨h,x,found,emits⟩ := handler_sends (fun n same => market ⟨n,same⟩) sent
    exact emits_may after emits (knows_on (before.handlers h x found) belong) reaches

-- The connections of a run, each with the token it presented.
def connections (moves : List StationMove) : List (Space × Token) :=
  moves.filterMap fun
    | .connect space token => some (space,token)
    | _ => none

def Station.chronicle (env : Env) (start : Station) (moves : List StationMove) : Chronicle where
  handshake s := (connections moves)[s]?
  past v := ∃ xs, xs <+: moves ∧ v = (start.run env xs).1.market.db

section Counting
variable {env : Env}

theorem caught_length {x : Handler} : (x.caught hub e).hub.clients.length = hub.clients.length := by
  cases x <;> simp only [Handler.caught]
  case eventsSince | replay =>
    split
    · rfl
    · exact change_length
  all_goals first | rfl | exact change_length

theorem resume_length {x : Handler} : (x.resume env v hub).hub.clients.length = hub.clients.length := by
  cases x <;> simp only [Handler.resume]
  case vendorJoin => exact change_length.trans change_length
  case dropoffComplete =>
    split
    · rfl
    · exact caught_length
  case disconnection =>
    split
    · split <;> rfl
    · rfl
  all_goals (try split) <;> first | rfl | exact change_length

theorem answer_length {x : Handler} : (x.answer hub reply).hub.clients.length = hub.clients.length := by
  unfold Handler.answer
  split
  · exact caught_length
  · exact change_length.trans change_length
  · rfl
  · exact change_length.trans change_length
  · split <;> rfl
  all_goals rfl

theorem move_connections (st : Station) (m : StationMove) :
    (st.move env m).1.hub.clients.length = st.hub.clients.length + (connections [m]).length := by
  cases m with
  | market m => rfl
  | connect space token => exact List.length_append ..
  | leave client => exact change_length
  | disconnect client =>
    simp only [Station.move]
    split
    · exact change_length
    · rfl
  | message client m =>
    simp only [Station.move]
    split
    · split <;> rfl
    · rfl
  | fail h =>
    simp only [Station.move]
    split
    · rw [go_hub]; exact caught_length
    · rfl
  | resume h =>
    simp only [Station.move]
    split
    · unfold Station.resumed
      split
      · split
        · rw [go_hub]; exact answer_length
        · rfl
      · split
        · split
          · dsimp only; rw [go_hub]; exact answer_length
          · dsimp only; rw [go_hub]; exact caught_length
        · rw [go_hub]; exact resume_length
    · rfl

theorem run_connections {start : Station} (opening : start.Opening) (moves : List StationMove) :
    (start.run env moves).1.hub.clients.length = (connections moves).length := by
  induction moves using List.reverseRecOn with
  | nil => exact congrArg List.length opening.clients
  | append_singleton xs m ih =>
    rw [station_snoc,move_connections,ih]
    unfold connections
    rw [List.filterMap_append,List.length_append]

end Counting

theorem discreet_run {env : Env} {start : Station} (opening : start.Opening) (admits : start.Admits env moves)
    (early : xs <+: moves) : (start.chronicle env moves).Discreet (start.run env xs).1 := by
  induction xs using List.reverseRecOn with
  | nil =>
    refine ⟨?_,?_,?_⟩
    · intro s c found
      rw [Station.run,opening.clients] at found
      cases found
    · intro h x found
      rw [Station.run,opening.handlers h] at found; cases found
    · intro p x found
      rw [Station.run,opening.threads p] at found; cases found
  | append_singleton xs m ih =>
    have before : xs <+: moves := (List.prefix_append xs [m]).trans early
    rw [station_snoc]
    refine discreet_move (ih before) m (admits xs m early) ⟨xs,before,rfl⟩ ⟨xs ++ [m],early,by rw [station_snoc]⟩ ?_
    intro space token greets
    subst greets
    obtain ⟨rest,split⟩ := early
    unfold Station.chronicle
    dsimp only
    rw [run_connections opening,← split]
    unfold connections
    simp

-- In every run a connection is only in rooms of the user whose token it presented:
-- the user's own room, those of the user's shop or deliverer profile, and of jobs
-- that carried an order of the customer or were given to the deliverer.
theorem rooms_own {env : Env} {start : Station} (opening : start.Opening) (admits : start.Admits env moves)
    (found : (start.run env moves).1.hub.clients[s]? = some c) (member : room ∈ c.rooms) :
    (start.chronicle env moves).Entitled (start.run env moves).1.market.db s room :=
  ((discreet_run opening admits List.prefix_rfl).seats s c found).rooms room member

-- A vendor connects, an order is placed, the customer connects, and the vendor accepts.
def listening : List StationMove :=
  [.connect .vendor (.payload 1 .vendor),.resume 0,.market (.step 0 fun _ => none)] ++ List.replicate 3 (.resume 0) ++
  (ask (.createOrder ⟨[],none,some 0,some 0,none,none⟩ 0 0) 1 3).map .market ++
  [.connect .customer (.payload 0 .customer),.resume 1,.market (.step 2 fun _ => none),.resume 1] ++
  (ask (.vendorDecide .vendorAcceptOrder 0 1) 3 6).map .market

theorem rooms_own_listening :
    (atMorning.chronicle village listening).Entitled (atMorning.run village listening).1.market.db 0 (.vendor 0) := by
  have joined : ((atMorning.run village listening).1.hub.clients[0]?).any (fun c => Room.vendor 0 ∈ c.rooms) = true := by
    decide +kernel
  obtain ⟨c,found,member⟩ := (Option.any_eq_true _ _).mp joined
  exact rooms_own opening_atMorning (admits_all (by decide +kernel)) found (of_decide_eq_true member)

-- And all that anyone is ever sent is about orders and jobs of that user.
theorem told_own {env : Env} {start : Station} (opening : start.Opening) (admits : start.Admits env moves)
    (sent : one ∈ (start.run env moves).2) (reaches : s ∈ one.2) :
    (start.chronicle env moves).May (start.run env moves).1.market.db s one.1 := by
  obtain ⟨xs,m,ys,split,e,made,same⟩ := mem_log.mp sent
  subst same
  have early : xs ++ [m] <+: moves := ⟨ys,by rw [split]; simp⟩
  have before := discreet_run opening admits ((List.prefix_append xs [m]).trans early)
  have after := discreet_run opening admits early
  rw [station_snoc] at after
  have may := move_may before after made reaches
  have later := belonging_run env ((start.run env xs).1.move env m).1 ys
  rw [show (((start.run env xs).1.move env m).1.run env ys).1 = (start.run env moves).1 by
    rw [split,station_append]; rfl] at later
  exact may_on may later

-- The order is then made ready, its batch is closed, and its job is assigned.
def hearing : List StationMove :=
  listening ++ (ask (.vendorMarkReady 0 1) 4 5 ++ .work 0::steps 5 2 ++ .work 0::steps 6 9).map .market

-- The vendor hears of the order, and the customer of the decision, of the order being
-- ready and of the job. The deliverer is not connected.
theorem told_own_hearing :
    (atMorning.run village hearing).2.map (fun one => one.2) = [[0],[1],[1],[],[1]] ∧
    ∀ one ∈ (atMorning.run village hearing).2, ∀ s ∈ one.2,
      (atMorning.chronicle village hearing).May (atMorning.run village hearing).1.market.db s one.1 :=
  ⟨by decide +kernel,fun _ sent _ reaches => told_own opening_atMorning (admits_all (by decide +kernel)) sent reaches⟩

end MesyafMarket
