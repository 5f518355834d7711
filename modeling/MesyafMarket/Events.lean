import Mathlib.Data.List.Sort
import MesyafMarket.Schema

namespace MesyafMarket
open Relational

namespace EVENTS
namespace ORDER
def CREATED := "order.created"
def ACCEPTED := "order.accepted"
def REJECTED := "order.rejected"
def READY := "order.ready"
def COMPLETED := "order.completed"
def CANCELLED := "order.cancelled"
def DELIVERY_ISSUE := "order.delivery_issue"
end ORDER
namespace JOB
def ASSIGNED := "job.assigned"
def STARTED := "job.started"
def COMPLETED := "job.completed"
def RECOVERED := "job.recovered"
def ESCALATED := "job.escalated"
end JOB
end EVENTS

def OrderStatus.name : OrderStatus → String
  | .pendingVendorConfirmation => "PENDING_VENDOR_CONFIRMATION"
  | .vendorAccepted => "VENDOR_ACCEPTED"
  | .vendorRejected => "VENDOR_REJECTED"
  | .readyForDelivery => "READY_FOR_DELIVERY"
  | .waitingForDeliverer => "WAITING_FOR_DELIVERER"
  | .inProgress => "IN_PROGRESS"
  | .completed => "COMPLETED"
  | .cancelled => "CANCELLED"

def JobStatus.name : JobStatus → String
  | .pending => "PENDING"
  | .assigned => "ASSIGNED"
  | .inProgress => "IN_PROGRESS"
  | .completed => "COMPLETED"

def OrderStatus.values : List OrderStatus :=
  [.pendingVendorConfirmation,.vendorAccepted,.vendorRejected,.readyForDelivery,
   .waitingForDeliverer,.inProgress,.completed,.cancelled]

-- `Object.values(OrderStatus).includes(raw) ? raw : null`
def OrderStatus.ofJson : Option Json → Option OrderStatus
  | some (.str raw) => OrderStatus.values.find? fun status => status.name == raw
  | _ => none

theorem OrderStatus.ofJson_name (status : OrderStatus) :
    OrderStatus.ofJson (some (.str status.name)) = some status := by
  cases status <;> decide

namespace OrderTimelineProjectionService

def buildMessage (event : EventLog) : String :=
  if event.eventType = EVENTS.ORDER.CREATED then "Order placed"
  else if event.eventType = EVENTS.ORDER.ACCEPTED then "Vendor accepted the order"
  else if event.eventType = EVENTS.ORDER.REJECTED then "Vendor rejected the order"
  else if event.eventType = EVENTS.ORDER.READY then "Order is ready for delivery"
  else if event.eventType = EVENTS.ORDER.COMPLETED then "Order delivered"
  else if event.eventType = EVENTS.ORDER.CANCELLED then "Order cancelled"
  else if event.eventType = EVENTS.ORDER.DELIVERY_ISSUE then "Delivery issue detected and escalated"
  else event.eventType

def rowOf (id : Nat) (event : EventLog) : OrderTimeline where
  sourceEventId := some id
  orderId := event.entityId
  eventType := event.eventType
  status := OrderStatus.ofJson (event.payload.field "status")
  payload := event.payload
  occurredAt := event.createdAt
  message := buildMessage event

def project (id : Nat) (event : EventLog) : Transaction Unit :=
  if event.entityType ≠ .order then .ret ()
  else do
    let _ ← Tx.createUnlessPresent .orderTimeline
      (fun _ (row : OrderTimeline) => row.sourceEventId = some id) (rowOf id event)
    return ()

end OrderTimelineProjectionService

namespace JobTimelineProjectionService

def buildMessage (event : EventLog) : String :=
  if event.eventType = EVENTS.JOB.ASSIGNED then "Job assigned to deliverer"
  else if event.eventType = EVENTS.JOB.STARTED then "Delivery started"
  else if event.eventType = EVENTS.JOB.COMPLETED then "Delivery completed"
  else if event.eventType = EVENTS.JOB.RECOVERED then "Delivery assignment recovered after deliverer timeout"
  else if event.eventType = EVENTS.JOB.ESCALATED then "Delivery issue escalated for manual intervention"
  else event.eventType

def rowOf (id : Nat) (event : EventLog) : JobTimeline where
  sourceEventId := some id
  jobId := event.entityId
  eventType := event.eventType
  payload := event.payload
  occurredAt := event.createdAt
  message := buildMessage event

def project (id : Nat) (event : EventLog) : Transaction Unit :=
  if event.entityType ≠ .job then .ret ()
  else do
    let _ ← Tx.createUnlessPresent .jobTimeline
      (fun _ (row : JobTimeline) => row.sourceEventId = some id) (rowOf id event)
    return ()

end JobTimelineProjectionService

namespace EventLogService

structure Params where
  entityType : EventEntityType
  entityId : Nat
  eventType : String
  payload : Json

def Params.event (params : Params) (now : Nat) : EventLog :=
  ⟨params.entityType,params.entityId,params.eventType,params.payload,now⟩

-- The first of recordEvent's two writes.
def createEvent (params : Params) : Transaction (Nat × EventLog) := Tx.create Tab.eventLog params.event

-- The second: the projection into the timeline of the entity's type.
def projectEvent (id : Nat) (event : EventLog) : Transaction Unit :=
  match event.entityType with
  | .order => OrderTimelineProjectionService.project id event
  | .job => JobTimelineProjectionService.project id event

def recordEvent (params : Params) : Transaction Unit := do
  let event ← createEvent params
  projectEvent event.1 event.2

def getEventsSince (entityType : EventEntityType) (entityIds : List Nat) (since : Nat)
    (v : Database) : List (Nat × EventLog) :=
  (v.matching .eventLog fun _ (event : EventLog) =>
    event.entityType = entityType ∧ event.entityId ∈ entityIds ∧
      since < event.createdAt).insertionSort fun a b => a.2.createdAt ≤ b.2.createdAt

end EventLogService
end MesyafMarket
