import Mathlib.Algebra.Order.Ring.Rat
import MesyafMarket.Dispatch.Runs
import MesyafMarket.Sockets.Hub

namespace MesyafMarket
open Relational Sockets DelivererAssignmentService DelivererJobService VendorService SessionService DelivererService

-- The namespaces of the three gateways.
inductive Space where
  | customer | vendor | deliverer
  deriving DecidableEq

inductive Room where
  | customer (customerId : Nat)
  | vendor (vendorId : Nat)
  | deliverer (delivererId : Nat)
  | job (jobId : Nat)
  deriving DecidableEq

-- `client.data`, undefined until handleConnection sets it.
structure ClientData where
  userId : Option Nat
  customerId : Option Nat
  vendorId : Option Nat
  delivererId : Option Nat
  deriving DecidableEq

abbrev Clients := Hub Space Room ClientData

-- What verifying the token of the handshake comes to.
inductive Token where
  | absent
  | invalid
  | payload (sub : Nat) (role : Role)
  deriving DecidableEq

namespace ReconnectService

structure CustomerContext where
  orderId : Nat
  status : OrderStatus
  jobId : Option Nat
  deriving DecidableEq

def getCustomerContext (env : Env) (v : Database) (customerId : Nat) : Option CustomerContext :=
  (env.scan v (v.matching .order fun _ (o : Order) => o.customerId = customerId ∧
    o.status ∈ [.vendorAccepted,.readyForDelivery,.waitingForDeliverer,.inProgress])).head?.map fun activeOrder =>
      ⟨activeOrder.1,activeOrder.2.status,activeOrder.2.deliveryJobId⟩

structure DelivererContext where
  jobId : Nat
  status : JobStatus
  assignedAt : Nat
  totalOrders : Option Nat
  stops : List (Nat × JobStatus × Option Rat × Option Rat)

def getDelivererContext (env : Env) (v : Database) (delivererId : Nat) : Option DelivererContext :=
  (env.scan v (v.matching .deliveryJob fun _ (job : DeliveryJob) => job.delivererId = some delivererId ∧
    job.status ∈ [.assigned,.inProgress])).head?.map fun activeJob =>
      let stops := (v.matching .deliveryDropOff fun _ (stop : DeliveryDropOff) => stop.jobId = activeJob.1).insertionSort
        fun a b => a.2.sequence ≤ b.2.sequence
      ⟨activeJob.1,activeJob.2.status,activeJob.2.assignedAt,activeJob.2.totalOrders,
        stops.map fun stop => (stop.1,stop.2.status,stop.2.dropoffLat,stop.2.dropoffLng)⟩

structure VendorOrder where
  orderId : Nat
  status : OrderStatus
  createdAt : Nat
  items : List (Nat × Int)

def getVendorContext (v : Database) (vendorId : Nat) : List VendorOrder :=
  ((v.matching .order fun _ (o : Order) => o.vendorId = vendorId ∧
    o.status ∈ [.pendingVendorConfirmation,.vendorAccepted,.readyForDelivery]).insertionSort
      fun a b => a.2.createdAt ≤ b.2.createdAt).map fun order =>
        ⟨order.1,order.2.status,order.2.createdAt,
          (v.matching .orderItem fun _ (item : OrderItem) => item.orderId = order.1).map fun item =>
            (item.2.productId,item.2.quantity)⟩

end ReconnectService

namespace ReplayService

-- `user.lastSeenAt`; null counts like a missing user.
def lastSeenAt (v : Database) (userId : Nat) : Option Nat := (v.rows .user userId).bind User.lastSeenAt

def vendorLastSeenAt (v : Database) (vendorId : Nat) : Option Nat :=
  (v.rows .vendorProfile vendorId).bind fun vendor => lastSeenAt v vendor.userId

def customerOrders (v : Database) (customerId : Nat) : List Nat :=
  (v.matching .order fun _ (o : Order) => o.customerId = customerId ∧ o.status ∉ [.completed,.cancelled]).map Prod.fst

def vendorOrders (v : Database) (vendorId : Nat) : List Nat :=
  (v.matching .order fun _ (o : Order) => o.vendorId = vendorId ∧ o.status ≠ .completed).map Prod.fst

-- The active job of the deliverer and when its user was last seen.
def delivererLastSeenAt (v : Database) (delivererId : Nat) : Option (Nat × Nat) :=
  match v.rows .delivererProfile delivererId with
  | some deliverer => match deliverer.activeJobId,lastSeenAt v deliverer.userId with
    | some jobId,some seen => some (jobId,seen)
    | _,_ => none
  | none => none

end ReplayService

namespace DeliveryJobSubscriptionService

def subscribeCustomerToJob (v : Database) (customerId : Option Nat) (jobId : Nat) : Option Err :=
  if (v.rows .deliveryJob jobId).isNone then some (.error "JOB_NOT_FOUND")
  else if (v.matching .order fun _ (o : Order) => o.deliveryJobId = some jobId ∧ some o.customerId = customerId).isEmpty
    then some (.error "UNAUTHORIZED_JOB")
  else none

end DeliveryJobSubscriptionService

namespace VendorService

-- findFirst with `isActive` and `isVerified`; userId is unique.
def getProfileByUserId (v : Database) (userId : Nat) : Option Nat :=
  ((v.matching .vendorProfile fun _ (p : VendorProfile) =>
    p.userId = userId ∧ p.isActive ∧ p.isVerified).head?).map Prod.fst

end VendorService

namespace DelivererLocationService

-- A coordinate that is no finite number counts as none.
def isValid (lat lng : Option Rat) : Option Point :=
  match lat,lng with
  | some lat,some lng => if |lat| ≤ 90 ∧ |lng| ≤ 180 then some ⟨lat,lng⟩ else none
  | _,_ => none

end DelivererLocationService

namespace DelivererJobService

def validateLiveTracking (v : Database) (jobId delivererId : Nat) : Bool :=
  match v.rows .deliveryJob jobId with
  | some job => job.delivererId = some delivererId ∧ job.status = .inProgress
  | none => false

-- startJob before handleConnection has set client.data: Prisma drops the filter on
-- the undefined deliverer, and no deliverer equals it afterwards.
def startJobOfAnyoneTx (jobId : Nat) : Transaction Unit := do
  let started ← Tx.updateMany .deliveryJob
    (fun i (job : DeliveryJob) => i = jobId ∧ job.status = .assigned)
    fun now job => {job with status := .inProgress,startedAt := some now}
  if started = 0 then do
    let job ← Tx.findUnique Tab.deliveryJob jobId
    match job with
    | none => .throw (.notFound "Job not found")
    | some _ => .throw (.forbidden "Not your job")
  else do
    let _ ← Tx.updateMany .order (fun _ (o : Order) => o.deliveryJobId = some jobId) fun _ => underway
    EventLogService.recordEvent ⟨.job,jobId,EVENTS.JOB.STARTED,jobPayload jobId .inProgress⟩

end DelivererJobService

open ReconnectService in
inductive Message where
  | customerContext (customerId : Nat) (data : Option CustomerContext)
  | vendorContext (vendorId : Nat) (data : List VendorOrder)
  | delivererContext (delivererId : Nat) (data : Option DelivererContext)
  | eventsReplay (missedEvents : List (Nat × EventLog))
  | jobSubscribed (jobId : Nat)
  | jobStarted (jobId : Nat)
  | jobError (error : Err)
  | deliveryStarted (jobId : Nat)
  | dropoffCompleted (jobCompleted : Bool)
  | dropoffError (message : Err)
  | deliveryCompleted (jobId : Nat)
  | locationUpdate (lat lng : Rat) (timestamp : Nat)
  | notice (notice : Notice)

-- `client.emit` or `this.server.to(room).emit` of a gateway in `space`.
inductive Target where
  | client (client : Nat)
  | room (space : Space) (room : Room)

structure Emission where
  target : Target
  message : Message

def Emission.recipients (e : Emission) (hub : Clients) : List Nat :=
  match e.target with
  | .client s => if hub.isOpen s then [s] else []
  | .room space room => hub.audience space room

-- The send* methods of the gateways.
def Notice.target : Notice → Target
  | newOrder vendorId _ => .room .vendor (.vendor vendorId)
  | orderReady customerId _ | orderDecided customerId _ _ => .room .customer (.customer customerId)
  | jobAssigned delivererId _ _ _ => .room .deliverer (.deliverer delivererId)
  | delivererAssigned customerId _ _ | deliveryIssue customerId _ _ => .room .customer (.customer customerId)

-- The gateways' handlers, one point before each statement that is awaited and one
-- where it is resumed with a result that it sends or joins a room for. `call` is
-- the service process that it waits for.
open ReconnectService in
inductive Handler where
  | customerConnection (client : Nat) (token : Token)
  | customerOnline (client customerId call : Nat)
  | customerContext (client customerId : Nat)
  | customerSnapshot (client customerId : Nat) (context : Option CustomerContext)
  | customerLastSeen (client customerId : Nat)
  | customerOrders (client customerId since : Nat)
  | vendorConnection (client : Nat) (token : Token)
  | vendorOnline (client userId call : Nat)
  | vendorProfile (client userId : Nat)
  | vendorJoin (client userId vendorId : Nat)
  | vendorContext (client vendorId : Nat)
  | vendorSnapshot (client vendorId : Nat) (orders : List VendorOrder)
  | vendorLastSeen (client vendorId : Nat)
  | vendorOrders (client vendorId since : Nat)
  | eventsSince (client : Nat) (orders : List Nat) (since : Nat)
  | replay (client : Nat) (missedEvents : List (Nat × EventLog))
  | delivererConnection (client : Nat) (token : Token)
  | delivererProfile (client userId : Nat)
  | delivererLastSeen (client userId delivererId : Nat)
  | delivererEvents (client userId delivererId jobId since : Nat)
  | delivererMissed (client userId delivererId : Nat) (missedEvents : List (Nat × EventLog))
  | delivererOnline (client userId delivererId : Nat) (missedEvents : List (Nat × EventLog)) (call : Nat)
  | delivererContext (client delivererId : Nat) (missedEvents : List (Nat × EventLog))
  | delivererSnapshot (client delivererId : Nat) (missedEvents : List (Nat × EventLog))
      (context : Option DelivererContext)
  | disconnection (client : Nat)
  | offline (client call : Nat)
  | flushing (client call : Nat)
  | jobSubscribe (client jobId : Nat)
  | subscribed (client jobId : Nat) (refusal : Option Err)
  | heartbeat (client : Nat)
  | beating (client call : Nat)
  | jobStart (client jobId : Nat)
  | starting (client jobId call : Nat)
  | startingUnfiltered (client jobId : Nat)
  | dropoffComplete (client jobId dropOffId : Nat)
  | completing (client jobId call : Nat)
  | locationUpdate (client : Nat) (jobId : Option Nat) (lat lng : Option Rat)
  | tracking (client jobId delivererId : Nat) (loc : Point)
  | tracked (client jobId : Nat) (loc : Point)

-- Where a handler goes on after what it does between two awaits.
inductive Next where
  | finished
  | await (x : Handler)
  | call (service : Proc) (x : Nat → Handler)

structure Segment where
  hub : Clients
  emitted : List Emission
  next : Next

def Handler.call : Handler → Option Nat
  | customerOnline _ _ call | vendorOnline _ _ call | delivererOnline _ _ _ _ call | offline _ call => some call
  | flushing _ call | beating _ call | starting _ _ call | completing _ _ call => some call
  | _ => none

def dataOf (hub : Clients) (client : Nat) : ClientData :=
  match hub.clients[client]? with
  | some c => c.data
  | none => ⟨none,none,none,none⟩

-- An error that a handler's call or query ends with: the customer's and the
-- deliverer's handleConnection close the connection, the vendor's has no `catch`,
-- and what a message's handler throws goes to the exception filter.
def Handler.caught (hub : Clients) (e : Err) : Handler → Segment
  | customerConnection client _ | customerOnline client _ _ | customerContext client _ => ⟨hub.close client,[],.finished⟩
  | customerSnapshot client _ _ | customerLastSeen client _ | customerOrders client _ _ => ⟨hub.close client,[],.finished⟩
  | eventsSince client _ _ | replay client _ =>
    if hub.clients[client]?.any fun c => c.space = Space.vendor then ⟨hub,[],.finished⟩ else ⟨hub.close client,[],.finished⟩
  | delivererConnection client _ | delivererProfile client _ | delivererLastSeen client _ _ =>
    ⟨hub.close client,[],.finished⟩
  | delivererEvents client _ _ _ _ | delivererMissed client _ _ _ | delivererOnline client _ _ _ _ =>
    ⟨hub.close client,[],.finished⟩
  | delivererContext client _ _ | delivererSnapshot client _ _ _ => ⟨hub.close client,[],.finished⟩
  | jobSubscribe client _ | subscribed client _ _ => ⟨hub,[⟨.client client,.jobError e⟩],.finished⟩
  | jobStart client _ | starting client _ _ | startingUnfiltered client _ =>
    ⟨hub,[⟨.client client,.jobError e⟩],.finished⟩
  | dropoffComplete client _ _ | completing client _ _ => ⟨hub,[⟨.client client,.dropoffError e⟩],.finished⟩
  | _ => ⟨hub,[],.finished⟩

open Handler ReconnectService ReplayService DelivererLocationService in
def Handler.resume (env : Env) (v : Database) (hub : Clients) : Handler → Segment
  | customerConnection client token => match token with
    | .payload sub .customer => ⟨hub,[],.call (.markPresence .markOnline sub) (customerOnline client sub)⟩
    | _ => ⟨hub.close client,[],.finished⟩
  | customerContext client customerId =>
    ⟨hub,[],.await (customerSnapshot client customerId (getCustomerContext env v customerId))⟩
  | customerSnapshot client customerId context =>
    let joined := match context.bind CustomerContext.jobId with
      | some jobId => hub.join client (.job jobId)
      | none => hub
    ⟨joined,[⟨.client client,.customerContext customerId context⟩],.await (customerLastSeen client customerId)⟩
  | customerLastSeen client customerId => match lastSeenAt v customerId with
    | some since => ⟨hub,[],.await (customerOrders client customerId since)⟩
    | none => ⟨hub,[],.await (replay client [])⟩
  | customerOrders client customerId since => match ReplayService.customerOrders v customerId with
    | [] => ⟨hub,[],.await (replay client [])⟩
    | orders => ⟨hub,[],.await (eventsSince client orders since)⟩
  | vendorConnection client token => match token with
    | .payload sub .vendor => ⟨hub,[],.call (.markPresence .markOnline sub) (vendorOnline client sub)⟩
    | .invalid => ⟨hub,[],.finished⟩
    | _ => ⟨hub.close client,[],.finished⟩
  | vendorProfile client userId => match getProfileByUserId v userId with
    | some vendorId => ⟨hub,[],.await (vendorJoin client userId vendorId)⟩
    | none => ⟨hub,[],.finished⟩
  | vendorJoin client userId vendorId =>
    let known := hub.identify client ⟨some userId,none,some vendorId,none⟩
    ⟨known.join client (.vendor vendorId),[],.await (vendorContext client vendorId)⟩
  | vendorContext client vendorId => ⟨hub,[],.await (vendorSnapshot client vendorId (getVendorContext v vendorId))⟩
  | vendorSnapshot client vendorId orders =>
    ⟨hub,[⟨.client client,.vendorContext vendorId orders⟩],.await (vendorLastSeen client vendorId)⟩
  | vendorLastSeen client vendorId => match vendorLastSeenAt v vendorId with
    | some since => ⟨hub,[],.await (vendorOrders client vendorId since)⟩
    | none => ⟨hub,[],.await (replay client [])⟩
  | vendorOrders client vendorId since =>
    ⟨hub,[],.await (eventsSince client (ReplayService.vendorOrders v vendorId) since)⟩
  | eventsSince client orders since =>
    ⟨hub,[],.await (replay client (EventLogService.getEventsSince .order orders since v))⟩
  | replay client missedEvents =>
    if missedEvents.isEmpty then ⟨hub,[],.finished⟩ else ⟨hub,[⟨.client client,.eventsReplay missedEvents⟩],.finished⟩
  | delivererConnection client token => match token with
    | .payload sub .deliverer => ⟨hub,[],.await (delivererProfile client sub)⟩
    | _ => ⟨hub.close client,[],.finished⟩
  | delivererProfile client userId => match delivererByUser v userId with
    | some deliverer => ⟨hub,[],.await (delivererLastSeen client userId deliverer.1)⟩
    | none => ⟨hub.close client,[],.finished⟩
  | delivererLastSeen client userId delivererId => match delivererLastSeenAt v delivererId with
    | some (jobId,since) => ⟨hub,[],.await (delivererEvents client userId delivererId jobId since)⟩
    | none => ⟨hub,[],.await (delivererMissed client userId delivererId [])⟩
  | delivererEvents client userId delivererId jobId since =>
    ⟨hub,[],.await (delivererMissed client userId delivererId (EventLogService.getEventsSince .job [jobId] since v))⟩
  | delivererMissed client userId delivererId missedEvents =>
    ⟨hub,[],.call (.markPresence .markOnline userId) (delivererOnline client userId delivererId missedEvents)⟩
  | delivererContext client delivererId missedEvents =>
    ⟨hub,[],.await (delivererSnapshot client delivererId missedEvents (getDelivererContext env v delivererId))⟩
  | delivererSnapshot client delivererId missedEvents context =>
    let joined := match context with
      | some active => hub.join client (.job active.jobId)
      | none => hub
    let missed : List Emission := if missedEvents.isEmpty then [] else [⟨.client client,.eventsReplay missedEvents⟩]
    ⟨joined,⟨.client client,.delivererContext delivererId context⟩::missed,.finished⟩
  | disconnection client => match hub.clients[client]? with
    | some c => match if c.space = .customer then c.data.customerId else c.data.userId with
      | some userId => ⟨hub,[],.call (.markPresence .markOffline userId) (offline client)⟩
      | none => ⟨hub,[],.finished⟩
    | none => ⟨hub,[],.finished⟩
  | jobSubscribe client jobId =>
    ⟨hub,[],.await (subscribed client jobId
      (DeliveryJobSubscriptionService.subscribeCustomerToJob v (dataOf hub client).customerId jobId))⟩
  | subscribed client jobId refusal => match refusal with
    | none => ⟨hub.join client (.job jobId),[⟨.client client,.jobSubscribed jobId⟩],.finished⟩
    | some e => ⟨hub,[⟨.client client,.jobError e⟩],.finished⟩
  | heartbeat client => match (dataOf hub client).userId with
    | some userId => ⟨hub,[],.call (.markPresence .heartbeat userId) (beating client)⟩
    | none => ⟨hub,[],.finished⟩
  | jobStart client jobId => match (dataOf hub client).delivererId with
    | some delivererId => ⟨hub,[],.call (.startJob jobId delivererId) (starting client jobId)⟩
    | none => ⟨hub,[],.await (startingUnfiltered client jobId)⟩
  | dropoffComplete client jobId dropOffId => match (dataOf hub client).delivererId with
    | some delivererId => ⟨hub,[],.call (.completeDropOff jobId dropOffId delivererId) (completing client jobId)⟩
    -- No deliverer equals undefined, so nothing is written.
    | none => (dropoffComplete client jobId dropOffId).caught hub
      (if (v.rows .deliveryJob jobId).isNone then .notFound "Job not found" else .forbidden "Not your job")
  | locationUpdate client jobId lat lng => match (dataOf hub client).delivererId,isValid lat lng,jobId with
    | some delivererId,some loc,some jobId => ⟨hub,[],.await (tracking client jobId delivererId loc)⟩
    | _,_,_ => ⟨hub,[],.finished⟩
  | tracking client jobId delivererId loc =>
    if validateLiveTracking v jobId delivererId then ⟨hub,[],.await (tracked client jobId loc)⟩ else ⟨hub,[],.finished⟩
  | tracked _ jobId loc =>
    ⟨hub,[⟨.room .deliverer (.job jobId),.locationUpdate loc.lat loc.lng v.clock⟩],.finished⟩
  | _ => ⟨hub,[],.finished⟩

-- What the reply of an awaited service call leads to.
open Handler in
def Handler.answer (hub : Clients) : Handler → Reply → Segment
  | x,.thrown e => x.caught hub e
  | customerOnline client customerId _,_ =>
    let known := hub.identify client ⟨some customerId,some customerId,none,none⟩
    ⟨known.join client (.customer customerId),[],.await (customerContext client customerId)⟩
  | vendorOnline client userId _,_ => ⟨hub,[],.await (vendorProfile client userId)⟩
  | delivererOnline client userId delivererId missedEvents _,_ =>
    let known := hub.identify client ⟨some userId,none,none,some delivererId⟩
    ⟨known.join client (.deliverer delivererId),[],.await (delivererContext client delivererId missedEvents)⟩
  | offline client _,_ => match (dataOf hub client).delivererId with
    | some delivererId => ⟨hub,[],.call (.flushToDb delivererId .own) (flushing client)⟩
    | none => ⟨hub,[],.finished⟩
  | starting client jobId _,_ =>
    ⟨hub,[⟨.client client,.jobStarted jobId⟩,⟨.room .deliverer (.job jobId),.deliveryStarted jobId⟩],.finished⟩
  | completing client jobId _,.jobCompleted true =>
    ⟨hub,[⟨.client client,.dropoffCompleted true⟩,⟨.room .deliverer (.job jobId),.deliveryCompleted jobId⟩],.finished⟩
  | completing client _ _,_ => ⟨hub,[⟨.client client,.dropoffCompleted false⟩],.finished⟩
  | _,_ => ⟨hub,[],.finished⟩

structure Station where
  market : Market
  hub : Clients
  handlers : Nat → Option Handler
  started : Nat

inductive ClientMessage where
  | jobSubscribe (jobId : Nat)
  | heartbeat
  | jobStart (jobId : Nat)
  | dropoffComplete (jobId dropOffId : Nat)
  | locationUpdate (jobId : Option Nat) (lat lng : Option Rat)

-- @SubscribeMessage of the gateway of each namespace.
def ClientMessage.handler (client : Nat) : Space → ClientMessage → Option Handler
  | _,heartbeat => some (.heartbeat client)
  | .customer,jobSubscribe jobId => some (.jobSubscribe client jobId)
  | .deliverer,jobStart jobId => some (.jobStart client jobId)
  | .deliverer,dropoffComplete jobId dropOffId => some (.dropoffComplete client jobId dropOffId)
  | .deliverer,locationUpdate jobId lat lng => some (.locationUpdate client jobId lat lng)
  | _,_ => none

def Space.connection (client : Nat) (token : Token) : Space → Handler
  | customer => .customerConnection client token
  | vendor => .vendorConnection client token
  | deliverer => .delivererConnection client token

-- Clients connect, leave and send messages; handlers and services take their steps
-- in any order; a handler's await may throw.
inductive StationMove where
  | market (m : MarketMove)
  | connect (space : Space) (token : Token)
  | leave (client : Nat)
  | disconnect (client : Nat)
  | message (client : Nat) (m : ClientMessage)
  | resume (h : Nat)
  | fail (h : Nat)

namespace Station

def start (st : Station) (x : Handler) : Station :=
  {st with handlers := Function.update st.handlers st.started (some x),started := st.started+1}

def go (st : Station) (h : Nat) (segment : Segment) : Station :=
  match segment.next with
  | .finished => {st with hub := segment.hub,handlers := Function.update st.handlers h none}
  | .await x => {st with hub := segment.hub,handlers := Function.update st.handlers h (some x)}
  | .call service x => {st with hub := segment.hub,market := st.market.start service
                                handlers := Function.update st.handlers h (some (x st.market.spawned))}

def resumed (env : Env) (st : Station) (h : Nat) (x : Handler) : Station × List Emission :=
  match x.call with
  | some call => match st.market.threads call with
    | some (.returned reply) => (st.go h (x.answer st.hub reply),(x.answer st.hub reply).emitted)
    | _ => (st,[])
  | none => match x with
    | .startingUnfiltered client jobId => match (startJobOfAnyoneTx jobId).run st.market.db with
      | .ok (_,db) =>
        let answer := (Handler.starting client jobId 0).answer st.hub .done
        ({st with market := {st.market with db := db}}.go h answer,answer.emitted)
      | .error e => (st.go h (x.caught st.hub e),(x.caught st.hub e).emitted)
    | _ => (st.go h (x.resume env st.market.db st.hub),(x.resume env st.market.db st.hub).emitted)

-- What the services send while they run.
def notices (env : Env) (st : Station) : MarketMove → List Emission
  | .step p _ => match st.market.threads p with
    | some x => match Proc.next env x with
      | .emit note _ => [⟨note.target,.notice note⟩]
      | _ => []
    | none => []
  | _ => []

def move (env : Env) (st : Station) : StationMove → Station × List Emission
  | .market m => ({st with market := st.market.move (MesyafMarket.market env) m},st.notices env m)
  | .connect space token =>
    ({st with hub := st.hub.accept space ⟨none,none,none,none⟩}.start (space.connection st.hub.clients.length token),[])
  | .leave client => ({st with hub := st.hub.close client},[])
  | .disconnect client =>
    if st.hub.clients[client]?.any fun c => c.link = .closing then
      ({st with hub := st.hub.notice client}.start (.disconnection client),[])
    else (st,[])
  | .message client m => match st.hub.clients[client]? with
    | some c => match if c.link = .connected then m.handler client c.space else none with
      | some x => (st.start x,[])
      | none => (st,[])
    | none => (st,[])
  | .resume h => match st.handlers h with
    | some x => st.resumed env h x
    | none => (st,[])
  | .fail h => match st.handlers h with
    | some x => (st.go h (x.caught st.hub .infrastructure),(x.caught st.hub .infrastructure).emitted)
    | none => (st,[])

-- Where a run ends, and everything it emitted, each with the clients it was for.
def run (env : Env) (st : Station) : List StationMove → Station × List (Emission × List Nat)
  | [] => (st,[])
  | m::rest =>
    let next := st.move env m
    let last := next.1.run env rest
    (last.1,(next.2.map fun e => (e,e.recipients next.1.hub)) ++ last.2)

end Station

def StationMove.Admitted (st : Station) : StationMove → Prop
  | market m => MesyafMarket.Admitted st.market m
  | _ => True

inductive Station.Reached (env : Env) (start : Station) : Station → Prop where
  | refl : Reached env start start
  | step (path : Reached env start st) (admitted : m.Admitted st) : Reached env start (st.move env m).1

def StationMove.enters : StationMove → Bool
  | market m => MesyafMarket.enters m
  | _ => true

theorem Station.reached_run {env : Env} {start st : Station} (path : Reached env start st) (moves : List StationMove)
    (entries : moves.all StationMove.enters = true) : Reached env start (st.run env moves).1 := by
  induction moves generalizing st with
  | nil => exact path
  | cons m rest ih =>
    rw [List.all_cons,Bool.and_eq_true] at entries
    refine ih (.step path ?_) entries.2
    cases m with
    | market m =>
      have admitted : MesyafMarket.Admitted st.market m := enters_admitted entries.1
      exact admitted
    | _ => exact trivial

-- The server has just come up: no client, no handler, no service process.
structure Station.Opening (st : Station) : Prop where
  threads : ∀ p, st.market.threads p = none
  clients : st.hub.clients = []
  handlers : ∀ h, st.handlers h = none

def atMorning : Station := ⟨morning,⟨[]⟩,fun _ => none,0⟩

theorem opening_atMorning : atMorning.Opening := ⟨fun _ => rfl,rfl,fun _ => rfl⟩

end MesyafMarket
