import MesyafMarket.EventBooks
import MesyafMarket.Relational.Listing

namespace MesyafMarket
open Relational EventLogService

-- What the two projection services have in common: the events that they take and the
-- row that they make of one, which names it in a unique column.
structure Projection (t : Tab) where
  kind : EventEntityType
  source : Row t → Option Nat
  rowOf : Nat → EventLog → Row t
  named : ∀ eventId event, source (rowOf eventId event) = some eventId
  aside : Tab.eventLog ≠ t

namespace Projection
variable {t : Tab}

def project (P : Projection t) (eventId : Nat) (event : EventLog) : Transaction Unit :=
  if event.entityType ≠ P.kind then .ret ()
  else do
    let _ ← Tx.createUnlessPresent t (fun _ row => P.source row = some eventId) (P.rowOf eventId event)
    return ()

-- The rows of the timeline, without their ids, and those that the log asks for.
def timeline (P : Projection t) (v : Database) : Multiset (Row t) := (v.listing t fun _ _ => true).map Prod.snd

def rowsOf (P : Projection t) (v : Database) : Multiset (Row t) :=
  (v.listing .eventLog fun _ (event : EventLog) => event.entityType = P.kind).map fun event => P.rowOf event.1 event.2

end Projection

def orderProjection : Projection .orderTimeline :=
  ⟨.order,OrderTimeline.sourceEventId,OrderTimelineProjectionService.rowOf,fun _ _ => rfl,by decide⟩

def jobProjection : Projection .jobTimeline :=
  ⟨.job,JobTimeline.sourceEventId,JobTimelineProjectionService.rowOf,fun _ _ => rfl,by decide⟩

theorem orderProjection_project : OrderTimelineProjectionService.project eventId event = orderProjection.project eventId event := rfl

theorem jobProjection_project : JobTimelineProjectionService.project eventId event = jobProjection.project eventId event := rfl

inductive TimelineService where
  | orderTimelineProjection | jobTimelineProjection
  deriving DecidableEq

def TimelineService.project : TimelineService → Nat → EventLog → Transaction Unit
  | orderTimelineProjection => OrderTimelineProjectionService.project
  | jobTimelineProjection => JobTimelineProjectionService.project

def TimelineService.kind : TimelineService → EventEntityType
  | orderTimelineProjection => .order
  | jobTimelineProjection => .job

-- An event handed to a projection service.
structure ProjectCall where
  service : TimelineService
  id : Nat
  event : EventLog

def performed (x : Transaction Unit) (v : Database) : Database :=
  match x.run v with
  | .ok r => r.2
  | .error _ => v

def projectAll (v : Database) (calls : List ProjectCall) : Database :=
  calls.foldl (fun v call => performed (call.service.project call.id call.event) v) v

-- Events recorded live, one after another, each some time after the last one.
def recordAll (v : Database) (records : List (Nat × Params)) : Database :=
  records.foldl (fun v record => performed (recordEvent record.2) (v.tick record.1)) v

section Projecting
variable {t : Tab} (P : Projection t)

-- Each row is of an event of the log, and no event has two.
structure Holding (v : Database) : Prop where
  logged : ∀ i row, v.rows t i = some row →
    ∃ eventId event, v.rows .eventLog eventId = some event ∧ event.entityType = P.kind ∧ row = P.rowOf eventId event
  once : ∀ i j a b, v.rows t i = some a → v.rows t j = some b → P.source a = P.source b → i = j

def Full (v : Database) : Prop :=
  ∀ eventId event, v.rows .eventLog eventId = some event → EventLog.entityType event = P.kind →
    ∃ i, v.rows t i = some (P.rowOf eventId event)

inductive Projects (v : Database) (eventId : Nat) (event : EventLog) : Database → Prop where
  | foreign (kind : event.entityType ≠ P.kind) : Projects v eventId event v
  | present (found : v.rows t i = some row) (named : P.source row = some eventId) : Projects v eventId event v
  | inserted (kind : event.entityType = P.kind) (absent : ∀ i row, v.rows t i = some row → P.source row ≠ some eventId) :
      Projects v eventId event (v.apply (v.inserts t [P.rowOf eventId event]))

theorem projection_runs : (P.project eventId event).run v ≠ .error e := by
  intro failed
  unfold Projection.project at failed
  split at failed
  · cases failed
  · rcases Tx.run_bind_error.mp failed with thrown | ⟨_,_,_,thrown⟩
    · cases thrown
    · cases thrown

theorem projection_parts (v : Database) (eventId : Nat) (event : EventLog) :
    Projects P v eventId event (performed (P.project eventId event) v) := by
  unfold performed
  split
  · rename_i r ran
    unfold Projection.project at ran
    split at ran
    · rename_i foreign
      cases ran
      exact .foreign foreign
    · rename_i kind
      obtain ⟨n,middle,created,ended⟩ := Tx.run_bind_ok.mp ran
      cases ended
      cases absent : v.matching t fun _ row => P.source row = some eventId with
      | nil =>
        rw [Tx.run_createUnlessPresent v absent] at created
        cases created
        refine .inserted (not_not.mp kind) ?_
        intro i row found named
        have unmatched := v.matching_nil.mp absent i row found
        rw [decide_eq_false_iff_not] at unmatched
        exact unmatched named
      | cons entry rest =>
        have member : entry ∈ v.matching t fun _ row => P.source row = some eventId := by
          rw [absent]
          exact List.mem_cons_self
        obtain ⟨found,named⟩ := v.mem_matching.mp member
        have still : middle = v := by
          simp only [Tx.createUnlessPresent,Tx.run,absent,List.isEmpty_cons,Bool.false_eq_true,if_false,Effect.none,
            Db.apply_none] at created
          cases created
          rfl
        rw [still]
        exact .present found (of_decide_eq_true named)
  · rename_i e failed
    exact absurd failed (projection_runs P)

theorem projects_log (projects : Projects P v eventId event v') : v'.rows .eventLog = v.rows .eventLog := by
  cases projects with
  | foreign | present => rfl
  | inserted => exact Db.apply_inserts_other _ _ P.aside

-- A timeline keeps its rows, and has one of the event in the end.
theorem projects_keeps (projects : Projects P v eventId event v') (found : v.rows t i = some row) : v'.rows t i = some row := by
  cases projects with
  | foreign | present => exact found
  | inserted =>
    rw [v.apply_insert,Function.update_of_ne (Nat.ne_of_lt (v.below found))]
    exact found

theorem projects_row (holding : Holding P v) (logged : v.rows .eventLog eventId = some event)
    (projects : Projects P v eventId event v') (kind : event.entityType = P.kind) :
    ∃ i, v'.rows t i = some (P.rowOf eventId event) := by
  cases projects with
  | foreign foreign => exact absurd kind foreign
  | @present i row found named =>
    obtain ⟨eventId',event',logged',_,same⟩ := holding.logged i row found
    rw [same,P.named] at named
    cases named
    rw [logged] at logged'
    cases logged'
    exact ⟨i,same ▸ found⟩
  | inserted => exact ⟨v.seq t,by rw [v.apply_insert,Function.update_self]⟩

theorem holding_projects (holding : Holding P v) (logged : v.rows .eventLog eventId = some event)
    (projects : Projects P v eventId event v') : Holding P v' := by
  have log := projects_log P projects
  cases projects with
  | foreign | present => exact holding
  | inserted kind absent =>
    have new : ∀ i row, (v.apply (v.inserts t [P.rowOf eventId event])).rows t i = some row →
        (i = v.seq t ∧ row = P.rowOf eventId event) ∨ v.rows t i = some row := by
      intro i row found
      rw [v.apply_insert] at found
      exact (update_some found).imp id And.right
    constructor
    · intro i row found
      rw [log]
      rcases new i row found with ⟨_,same⟩ | before
      · exact ⟨eventId,event,logged,kind,same⟩
      · exact holding.logged i row before
    · intro i j a b at_i at_j same
      rcases new i a at_i with ⟨first,row⟩ | before
      · subst row
        rcases new j b at_j with ⟨second,_⟩ | earlier
        · rw [first,second]
        · rw [P.named] at same
          exact absurd same.symm (absent j b earlier)
      · rcases new j b at_j with ⟨_,row⟩ | earlier
        · subst row
          rw [P.named] at same
          exact absurd same (absent i a before)
        · exact holding.once i j a b before earlier same

-- A full timeline over a log is the one that the log asks for.
theorem timeline_rowsOf (holding : Holding P v) (full : Full P v) : P.timeline v = P.rowsOf v := by
  have distinct : (P.timeline v).Nodup := by
    refine Multiset.Nodup.map_on ?_ v.listing_nodup
    intro x member y member' same
    obtain ⟨at_x,_⟩ := v.mem_listing.mp member
    obtain ⟨at_y,_⟩ := v.mem_listing.mp member'
    exact Prod.ext (holding.once x.1 y.1 x.2 y.2 at_x at_y (congrArg P.source same)) same
  have asked : (P.rowsOf v).Nodup := by
    refine Multiset.Nodup.map_on ?_ v.listing_nodup
    intro x member y member' same
    obtain ⟨at_x,_⟩ := v.mem_listing.mp member
    obtain ⟨at_y,_⟩ := v.mem_listing.mp member'
    have eventId : x.1 = y.1 := by
      have sources := congrArg P.source same
      rw [P.named,P.named] at sources
      exact Option.some.inj sources
    rw [eventId,at_y] at at_x
    exact Prod.ext eventId (Option.some.inj at_x).symm
  rw [Multiset.Nodup.ext distinct asked]
  intro row
  simp only [Projection.timeline,Projection.rowsOf,Multiset.mem_map,Prod.exists,Db.mem_listing,and_true,decide_eq_true_eq]
  constructor
  · rintro ⟨i,_,found,rfl⟩
    obtain ⟨eventId,event,logged,kind,same⟩ := holding.logged i _ found
    exact ⟨eventId,event,⟨logged,kind⟩,same.symm⟩
  · rintro ⟨eventId,event,⟨logged,kind⟩,rfl⟩
    obtain ⟨i,found⟩ := full eventId event logged kind
    exact ⟨i,_,found,rfl⟩

theorem rowsOf_log {v v' : Database} (same : v'.rows .eventLog = v.rows .eventLog) : P.rowsOf v' = P.rowsOf v := by
  refine Db.listing_map ?_ (fun _ _ _ _ => rfl)
  intro i row
  rw [same]

end Projecting

-- Both timelines hold rows of the log only: as when they are empty, after any
-- projections, and as the live calls leave them.
structure Projecting (v : Database) : Prop where
  order : Holding orderProjection v
  job : Holding jobProjection v

structure UpToDate (v : Database) : Prop where
  order : Full orderProjection v
  job : Full jobProjection v

theorem projecting_empty {v : Database} (order : v.rows .orderTimeline = fun _ => none)
    (job : v.rows .jobTimeline = fun _ => none) : Projecting v := by
  constructor
  · constructor
    · intro i row found
      rw [order] at found
      cases found
    · intro i j a b found
      rw [order] at found
      cases found
  · constructor
    · intro i row found
      rw [job] at found
      cases found
    · intro i j a b found
      rw [job] at found
      cases found

section Aside
variable {t t' : Tab} (P : Projection t) (Q : Projection t')

theorem projects_other (apart : t ≠ t') (projects : Projects Q v eventId event v') : v'.rows t = v.rows t := by
  cases projects with
  | foreign | present => rfl
  | inserted => exact Db.apply_inserts_other _ _ apart

theorem holding_still {v v' : Database} (holding : Holding P v) (rows : v'.rows t = v.rows t)
    (log : ∀ i event, v.rows .eventLog i = some event → v'.rows .eventLog i = some event) : Holding P v' := by
  constructor
  · intro i row found
    rw [rows] at found
    obtain ⟨eventId,event,logged,kind,same⟩ := holding.logged i row found
    exact ⟨eventId,event,log eventId event logged,kind,same⟩
  · rw [rows]
    exact holding.once

end Aside

-- One call: the log stays, rows stay, and the event has its row if the service takes it.
structure CallKeeps (v : Database) (call : ProjectCall) (v' : Database) : Prop where
  log : v'.rows .eventLog = v.rows .eventLog
  projecting : Projecting v'
  orders : ∀ i row, v.rows .orderTimeline i = some row → v'.rows .orderTimeline i = some row
  jobs : ∀ i row, v.rows .jobTimeline i = some row → v'.rows .jobTimeline i = some row
  order : call.service = .orderTimelineProjection → call.event.entityType = .order →
    ∃ i, v'.rows .orderTimeline i = some (orderProjection.rowOf call.id call.event)
  job : call.service = .jobTimelineProjection → call.event.entityType = .job →
    ∃ i, v'.rows .jobTimeline i = some (jobProjection.rowOf call.id call.event)

theorem call_keeps (projecting : Projecting v) (handed : v.rows .eventLog call.id = some call.event) :
    CallKeeps v call (performed (call.service.project call.id call.event) v) := by
  obtain ⟨service,eventId,event⟩ := call
  dsimp only at handed ⊢
  cases service with
  | orderTimelineProjection =>
    have projects := projection_parts orderProjection v eventId event
    rw [← orderProjection_project] at projects
    have log := projects_log _ projects
    have jobs := projects_other orderProjection (t := .jobTimeline) (by decide) projects
    refine ⟨log,⟨holding_projects _ projecting.order handed projects,?_⟩,fun i row => projects_keeps _ projects,?_,
      fun _ => projects_row _ projecting.order handed projects,nofun⟩
    · exact holding_still _ projecting.job jobs fun i event logged => (congrFun log i).trans logged
    · intro i row found
      exact (congrFun jobs i).trans found
  | jobTimelineProjection =>
    have projects := projection_parts jobProjection v eventId event
    rw [← jobProjection_project] at projects
    have log := projects_log _ projects
    have orders := projects_other jobProjection (t := .orderTimeline) (by decide) projects
    refine ⟨log,⟨?_,holding_projects _ projecting.job handed projects⟩,?_,fun i row => projects_keeps _ projects,
      nofun,fun _ => projects_row _ projecting.job handed projects⟩
    · exact holding_still _ projecting.order orders fun i event logged => (congrFun log i).trans logged
    · intro i row found
      exact (congrFun orders i).trans found

def Handed (v : Database) (calls : List ProjectCall) : Prop :=
  ∀ call ∈ calls, v.rows .eventLog call.id = some call.event

-- Every event of the log is handed to the service that takes it.
def Covers (v : Database) (calls : List ProjectCall) : Prop :=
  ∀ eventId event, v.rows .eventLog eventId = some event →
    ∃ call ∈ calls, call.id = eventId ∧ call.service.kind = event.entityType

theorem projectAll_keeps (projecting : Projecting v) (handed : Handed v calls) :
    (projectAll v calls).rows .eventLog = v.rows .eventLog ∧ Projecting (projectAll v calls) ∧
      (∀ i row, v.rows .orderTimeline i = some row → (projectAll v calls).rows .orderTimeline i = some row) ∧
      (∀ i row, v.rows .jobTimeline i = some row → (projectAll v calls).rows .jobTimeline i = some row) := by
  induction calls generalizing v with
  | nil => exact ⟨rfl,projecting,fun _ _ found => found,fun _ _ found => found⟩
  | cons call rest ih =>
    have first := call_keeps projecting (handed call List.mem_cons_self)
    have others : Handed (performed (call.service.project call.id call.event) v) rest := by
      intro other member
      rw [first.log]
      exact handed other (List.mem_cons_of_mem _ member)
    obtain ⟨log,held,orders,jobs⟩ := ih first.projecting others
    exact ⟨log.trans first.log,held,fun i row found => orders i row (first.orders i row found),
      fun i row found => jobs i row (first.jobs i row found)⟩

-- A call that comes anywhere in the sequence leaves the row of its event.
theorem projectAll_rows (projecting : Projecting v) (handed : Handed v calls) (member : call ∈ calls) :
    (call.service = .orderTimelineProjection → call.event.entityType = .order →
      ∃ i, (projectAll v calls).rows .orderTimeline i = some (orderProjection.rowOf call.id call.event)) ∧
    (call.service = .jobTimelineProjection → call.event.entityType = .job →
      ∃ i, (projectAll v calls).rows .jobTimeline i = some (jobProjection.rowOf call.id call.event)) := by
  obtain ⟨before,after,cut⟩ := List.append_of_mem member
  have at_call : projectAll v calls =
      projectAll (performed (call.service.project call.id call.event) (projectAll v before)) after := by
    rw [cut]
    simp only [projectAll,List.foldl_append,List.foldl_cons]
  have early : Handed v before := fun other earlier => handed other (by rw [cut]; exact List.mem_append_left _ earlier)
  obtain ⟨log,held,_,_⟩ := projectAll_keeps projecting early
  have own := call_keeps held (by rw [log]; exact handed call member)
  have late : Handed (performed (call.service.project call.id call.event) (projectAll v before)) after := by
    intro other later
    rw [own.log,log]
    exact handed other (by rw [cut]; exact List.mem_append_right _ (List.mem_cons_of_mem _ later))
  obtain ⟨_,_,orders,jobs⟩ := projectAll_keeps own.projecting late
  rw [at_call]
  constructor
  · intro service kind
    obtain ⟨i,found⟩ := own.order service kind
    exact ⟨i,orders i _ found⟩
  · intro service kind
    obtain ⟨i,found⟩ := own.job service kind
    exact ⟨i,jobs i _ found⟩

theorem projectAll_complete (projecting : Projecting v) (handed : Handed v calls) (covers : Covers v calls) :
    UpToDate (projectAll v calls) := by
  obtain ⟨log,_,_,_⟩ := projectAll_keeps projecting handed
  have own : ∀ eventId event, (projectAll v calls).rows .eventLog eventId = some event →
      ∃ call ∈ calls, call.id = eventId ∧ call.event = event ∧ call.service.kind = EventLog.entityType event := by
    intro eventId event logged
    rw [log] at logged
    obtain ⟨call,member,same,kind⟩ := covers eventId event logged
    have read := handed call member
    rw [same,logged] at read
    exact ⟨call,member,same,(Option.some.inj read).symm,kind⟩
  constructor
  · intro eventId event logged kind
    obtain ⟨call,member,same,read,taken⟩ := own eventId event logged
    subst same read
    have service : call.service = .orderTimelineProjection := by
      cases at_service : call.service with
      | orderTimelineProjection => rfl
      | jobTimelineProjection =>
        rw [at_service,kind] at taken
        cases taken
    exact (projectAll_rows projecting handed member).1 service kind
  · intro eventId event logged kind
    obtain ⟨call,member,same,read,taken⟩ := own eventId event logged
    subst same read
    have service : call.service = .jobTimelineProjection := by
      cases at_service : call.service with
      | jobTimelineProjection => rfl
      | orderTimelineProjection =>
        rw [at_service,kind] at taken
        cases taken
    exact (projectAll_rows projecting handed member).2 service kind

theorem timelines_log (projecting : Projecting v) (complete : UpToDate v) :
    orderProjection.timeline v = orderProjection.rowsOf v ∧ jobProjection.timeline v = jobProjection.rowsOf v :=
  ⟨timeline_rowsOf _ projecting.order complete.order,timeline_rowsOf _ projecting.job complete.job⟩

theorem recorded_parts (v : Database) (params : Params) : ∃ middle,
    middle.rows .eventLog = Function.update (v.rows .eventLog) (v.seq .eventLog) (some (params.event v.clock)) ∧
    middle.rows .orderTimeline = v.rows .orderTimeline ∧ middle.rows .jobTimeline = v.rows .jobTimeline ∧
    (params.entityType = .order → Projects orderProjection middle (v.seq .eventLog) (params.event v.clock)
      (performed (recordEvent params) v)) ∧
    (params.entityType = .job → Projects jobProjection middle (v.seq .eventLog) (params.event v.clock)
      (performed (recordEvent params) v)) := by
  have projecting : ∀ eventId event v, (event.entityType = .order →
      performed (projectEvent eventId event) v = performed (orderProjection.project eventId event) v) ∧
      (event.entityType = .job →
        performed (projectEvent eventId event) v = performed (jobProjection.project eventId event) v) := by
    intro eventId event v
    unfold projectEvent
    constructor <;> intro kind <;> rw [kind] <;> rfl
  cases ran : (recordEvent params).run v with
  | error e =>
    rcases Tx.run_bind_error.mp ran with thrown | ⟨made,middle,_,thrown⟩
    · cases thrown
    · unfold projectEvent at thrown
      split at thrown
      · exact absurd thrown (projection_runs orderProjection)
      · exact absurd thrown (projection_runs jobProjection)
  | ok r =>
    obtain ⟨made,middle,created,projected⟩ := Tx.run_bind_ok.mp ran
    obtain ⟨same,log,_,orders,jobs⟩ := createEvent_books created
    subst same
    have after : performed (recordEvent params) v = performed (projectEvent (v.seq .eventLog) (params.event v.clock)) middle := by
      unfold performed
      rw [ran,projected]
    refine ⟨middle,log,orders,jobs,?_,?_⟩
    · intro kind
      rw [after,(projecting _ _ _).1 kind]
      exact projection_parts _ middle _ _
    · intro kind
      rw [after,(projecting _ _ _).2 kind]
      exact projection_parts _ middle _ _

section Recording
variable {t : Tab} (P : Projection t)

-- The log grows by one event, which the matching service is handed at once.
theorem recorded_holding {v middle v' : Database} (event : EventLog)
    (log : middle.rows .eventLog = Function.update (v.rows .eventLog) (v.seq .eventLog) (some event))
    (rows : middle.rows t = v.rows t) (after : Projects P middle (v.seq .eventLog) event v' ∨
      (event.entityType ≠ P.kind ∧ v'.rows t = middle.rows t ∧ v'.rows .eventLog = middle.rows .eventLog))
    (holding : Holding P v) (full : Full P v) : Holding P v' ∧ Full P v' := by
  have earlier : ∀ i event', v.rows .eventLog i = some event' → middle.rows .eventLog i = some event' := by
    intro i event' logged
    rw [log,Function.update_of_ne (Nat.ne_of_lt (v.below logged))]
    exact logged
  have own : middle.rows .eventLog (v.seq .eventLog) = some event := by rw [log,Function.update_self]
  have held := holding_still P holding rows earlier
  rcases after with projects | ⟨foreign,same,still⟩
  · refine ⟨holding_projects P held own projects,?_⟩
    intro i event' logged kind
    rw [projects_log P projects,log] at logged
    rcases update_some logged with ⟨here,new⟩ | ⟨_,before⟩
    · subst here new
      exact projects_row P held own projects kind
    · obtain ⟨k,found⟩ := full i event' before kind
      exact ⟨k,projects_keeps P projects (by rw [rows]; exact found)⟩
  · refine ⟨holding_still P held same fun i event' logged => (congrFun still i).trans logged,?_⟩
    intro i event' logged kind
    rw [still,log] at logged
    rcases update_some logged with ⟨_,new⟩ | ⟨_,before⟩
    · subst new
      exact absurd kind foreign
    · obtain ⟨k,found⟩ := full i event' before kind
      exact ⟨k,by rw [same,rows]; exact found⟩

end Recording

theorem recorded_keeps (params : Params) (projecting : Projecting v) (complete : UpToDate v) :
    Projecting (performed (recordEvent params) v) ∧ UpToDate (performed (recordEvent params) v) := by
  obtain ⟨middle,log,orders,jobs,order,job⟩ := recorded_parts v params
  cases kind : params.entityType with
  | order =>
    have projects := order kind
    obtain ⟨held,filled⟩ := recorded_holding orderProjection _ log orders (.inl projects) projecting.order complete.order
    have foreign : (params.event v.clock).entityType ≠ jobProjection.kind := by
      rw [show (params.event v.clock).entityType = .order from kind]
      decide
    obtain ⟨held',filled'⟩ := recorded_holding jobProjection _ log jobs (.inr ⟨foreign,
      projects_other orderProjection (t := .jobTimeline) (by decide) projects,projects_log _ projects⟩)
      projecting.job complete.job
    exact ⟨⟨held,held'⟩,⟨filled,filled'⟩⟩
  | job =>
    have projects := job kind
    obtain ⟨held,filled⟩ := recorded_holding jobProjection _ log jobs (.inl projects) projecting.job complete.job
    have foreign : (params.event v.clock).entityType ≠ orderProjection.kind := by
      rw [show (params.event v.clock).entityType = .job from kind]
      decide
    obtain ⟨held',filled'⟩ := recorded_holding orderProjection _ log orders (.inr ⟨foreign,
      projects_other jobProjection (t := .orderTimeline) (by decide) projects,projects_log _ projects⟩)
      projecting.order complete.order
    exact ⟨⟨held',held⟩,⟨filled',filled⟩⟩

theorem recordAll_keeps (records : List (Nat × Params)) (projecting : Projecting v) (complete : UpToDate v) :
    Projecting (recordAll v records) ∧ UpToDate (recordAll v records) := by
  induction records generalizing v with
  | nil => exact ⟨projecting,complete⟩
  | cons record rest ih =>
    have ticked : Projecting (v.tick record.1) ∧ UpToDate (v.tick record.1) :=
      ⟨⟨⟨projecting.order.logged,projecting.order.once⟩,⟨projecting.job.logged,projecting.job.once⟩⟩,
        ⟨complete.order,complete.job⟩⟩
    obtain ⟨held,filled⟩ := recorded_keeps record.2 ticked.1 ticked.2
    exact ih held filled

structure NoBooks (v : Database) : Prop where
  log : v.rows .eventLog = fun _ => none
  order : v.rows .orderTimeline = fun _ => none
  job : v.rows .jobTimeline = fun _ => none

-- What the projections of `calls` make of the timelines of `v`: one row for each event
-- of the log, in the table of its type; the same as any other projections of the log
-- from any other start, and as the live calls that wrote the log.
structure TimelinesRebuilt (v : Database) (calls : List ProjectCall) : Prop where
  order : orderProjection.timeline (projectAll v calls) = orderProjection.rowsOf v
  job : jobProjection.timeline (projectAll v calls) = jobProjection.rowsOf v
  same : ∀ v' calls', v'.rows .eventLog = v.rows .eventLog → Projecting v' → Handed v' calls' → Covers v' calls' →
    orderProjection.timeline (projectAll v' calls') = orderProjection.timeline (projectAll v calls) ∧
      jobProjection.timeline (projectAll v' calls') = jobProjection.timeline (projectAll v calls)
  live : ∀ opened records, NoBooks opened → (recordAll opened records).rows .eventLog = v.rows .eventLog →
    orderProjection.timeline (recordAll opened records) = orderProjection.timeline (projectAll v calls) ∧
      jobProjection.timeline (recordAll opened records) = jobProjection.timeline (projectAll v calls)

theorem projected_timelines (projecting : Projecting v) (handed : Handed v calls) (covers : Covers v calls) :
    orderProjection.timeline (projectAll v calls) = orderProjection.rowsOf v ∧
      jobProjection.timeline (projectAll v calls) = jobProjection.rowsOf v := by
  obtain ⟨log,held,_,_⟩ := projectAll_keeps projecting handed
  obtain ⟨order,job⟩ := timelines_log held (projectAll_complete projecting handed covers)
  exact ⟨order.trans (rowsOf_log _ log),job.trans (rowsOf_log _ log)⟩

theorem timelines_rebuilt (projecting : Projecting v) (handed : Handed v calls) (covers : Covers v calls) :
    TimelinesRebuilt v calls := by
  obtain ⟨order,job⟩ := projected_timelines projecting handed covers
  refine ⟨order,job,?_,?_⟩
  · intro v' calls' log projecting' handed' covers'
    obtain ⟨order',job'⟩ := projected_timelines projecting' handed' covers'
    rw [order,job,order',job']
    exact ⟨rowsOf_log _ log,rowsOf_log _ log⟩
  · intro opened records empty log
    have complete : UpToDate opened := by
      constructor
      · intro i event logged
        rw [empty.log] at logged
        cases logged
      · intro i event logged
        rw [empty.log] at logged
        cases logged
    obtain ⟨held,filled⟩ := recordAll_keeps records (projecting_empty empty.order empty.job) complete
    obtain ⟨order',job'⟩ := timelines_log held filled
    rw [order,job,order',job']
    exact ⟨rowsOf_log _ log,rowsOf_log _ log⟩

def placedEvent : EventLog :=
  ⟨.order,0,EVENTS.ORDER.CREATED,OrderService.orderPayload 0 OrderStatus.pendingVendorConfirmation.name,5⟩

def assignedEvent : EventLog := ⟨.job,0,EVENTS.JOB.ASSIGNED,DelivererAssignmentService.jobPayload 0 .assigned,9⟩

def shortLog : Database where
  rows
    | .eventLog => fun i => [placedEvent,assignedEvent][i]?
    | _ => fun _ => none
  seq
    | .eventLog => 2
    | _ => 0
  clock := 0
  bounded t i above := by
    cases t with
    | eventLog => exact List.getElem?_eq_none above
    | _ => rfl

-- The job event first and twice, the order event to both services.
def shuffled : List ProjectCall :=
  [⟨.jobTimelineProjection,1,assignedEvent⟩,⟨.jobTimelineProjection,0,placedEvent⟩,
    ⟨.orderTimelineProjection,0,placedEvent⟩,⟨.jobTimelineProjection,1,assignedEvent⟩]

theorem timelines_rebuilt_shuffled : TimelinesRebuilt shortLog shuffled ∧
    orderProjection.timeline (projectAll shortLog shuffled) = {orderProjection.rowOf 0 placedEvent} ∧
    jobProjection.timeline (projectAll shortLog shuffled) = {jobProjection.rowOf 1 assignedEvent} := by
  refine ⟨timelines_rebuilt (projecting_empty rfl rfl) ?_ ?_,rfl,rfl⟩
  · intro call member
    simp only [shuffled,List.mem_cons,List.not_mem_nil,or_false] at member
    rcases member with same | same | same | same
    all_goals rw [same]; rfl
  · intro eventId event logged
    match eventId,logged with
    | 0,logged => cases logged; exact ⟨⟨.orderTimelineProjection,0,placedEvent⟩,by simp [shuffled],rfl,rfl⟩
    | 1,logged => cases logged; exact ⟨⟨.jobTimelineProjection,1,assignedEvent⟩,by simp [shuffled],rfl,rfl⟩

end MesyafMarket
