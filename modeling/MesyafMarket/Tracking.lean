import MesyafMarket.Stations

namespace MesyafMarket
open Relational Sockets

-- delivery:started, delivery:completed and location:update.
def Message.isProgress : Message → Bool
  | deliveryStarted _ | deliveryCompleted _ | locationUpdate _ _ _ => true
  | _ => false

def Target.roomName : Target → Option Room
  | .room _ named => some named
  | .client _ => none

-- One of them, sent to the room of the job.
def Emission.ProgressOf (jobId : Nat) (e : Emission) : Prop :=
  e.message.isProgress = true ∧ e.target.roomName = some (.job jobId)

instance : Decidable (Emission.ProgressOf jobId e) := inferInstanceAs (Decidable (_ ∧ _))

-- A connected customer socket that handleConnection or job:subscribe put in the job's room.
def Tracks (hub : Clients) (client jobId : Nat) : Prop := client ∈ hub.audience Space.customer (.job jobId)

instance : Decidable (Tracks hub client jobId) := inferInstanceAs (Decidable (_ ∈ _))

-- The gateway whose server sends an emission to a room.
def Emission.space (e : Emission) : Option Space :=
  match e.target with
  | .room space _ => some space
  | .client _ => none

-- Only the deliverer gateway sends progress, through the server of its own namespace.
theorem move_progress {env : Env} {st : Station} (sent : e ∈ (st.move env m).2)
    (progress : e.message.isProgress = true) : e.space = some .deliverer := by
  cases sends_of_move sent with
  | notice note => cases progress
  | handler found emits =>
    cases emits with
    | deliveryStarted | unfilteredDelivery | deliveryCompleted | locationUpdate => rfl
    | _ => cases progress

-- In whatever station a run has led to: a customer who tracks a job is never among
-- those that its progress reaches.
theorem progress_unheard {env : Env} (st : Station) (m : StationMove) (e : Emission) (jobId client : Nat)
    (sent : e ∈ (st.move env m).2) (progress : e.ProgressOf jobId)
    (tracks : Tracks (st.move env m).1.hub client jobId) : client ∉ e.recipients (st.move env m).1.hub := by
  have space := move_progress sent progress.1
  obtain ⟨c,found,customer,_⟩ := Hub.mem_audience.mp tracks
  unfold Emission.space at space
  unfold Emission.recipients
  split at space
  · rename_i target
    rw [target]
    cases space
    intro heard
    obtain ⟨c',found',deliverer,_⟩ := Hub.mem_audience.mp heard
    obtain rfl := Option.some.inj (found.symm.trans found')
    rw [customer] at deliverer
    cases deliverer
  · cases space

-- An order is dispatched; its customer and its deliverer connect, and the deliverer starts the job.
def tracking : List StationMove :=
  dispatched.map .market ++
  [.connect .customer (.payload 0 .customer),.resume 0,.market (.step 4 fun _ => none)] ++ List.replicate 3 (.resume 0) ++
  [.connect .deliverer (.payload 2 .deliverer)] ++ List.replicate 5 (.resume 1) ++
  [.market (.step 5 fun _ => none)] ++ List.replicate 3 (.resume 1) ++
  [.message 1 (.jobStart 0),.resume 2,.market (.step 6 fun _ => none)]

theorem progress_unheard_started :
    ∃ e ∈ ((atMorning.run village tracking).1.move village (.resume 2)).2, e.ProgressOf 0 ∧
      0 ∉ e.recipients ((atMorning.run village tracking).1.move village (.resume 2)).1.hub := by
  have sent : ∃ e ∈ ((atMorning.run village tracking).1.move village (.resume 2)).2, e.ProgressOf 0 := by
    decide +kernel
  obtain ⟨e,member,progress⟩ := sent
  exact ⟨e,member,progress,progress_unheard _ _ e 0 0 member progress (by decide +kernel)⟩

-- The customer's socket is connected and in the room of its own namespace, the
-- deliverer's start is announced in the other room of that name.
theorem started_unannounced :
    ∃ st, Station.Reached village atMorning st ∧ ∃ m, ∃ e ∈ (st.move village m).2, e.ProgressOf 0 ∧
      Tracks (st.move village m).1.hub 0 0 ∧ 0 ∉ e.recipients (st.move village m).1.hub := by
  have path : Station.Reached village atMorning (atMorning.run village tracking).1 :=
    Station.reached_run .refl _ (by decide +kernel)
  exact ⟨_,path,.resume 2,by decide +kernel⟩

end MesyafMarket
