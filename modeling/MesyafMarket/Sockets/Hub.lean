import Mathlib.Data.List.Basic

namespace Sockets
variable {Space Room Data : Type}

-- `closing`: the connection is gone and its disconnect has not been handled yet.
inductive Link where
  | connected | closing | gone
  deriving DecidableEq

structure Client (Space Room Data : Type) where
  space : Space
  link : Link
  rooms : List Room
  data : Data

-- Every client that ever connected, by its number. Rooms belong to a namespace: the
-- server of one reaches those of its own clients that are in the room.
structure Hub (Space Room Data : Type) where
  clients : List (Client Space Room Data)

namespace Hub

def accept (hub : Hub Space Room Data) (space : Space) (data : Data) : Hub Space Room Data :=
  ⟨hub.clients ++ [⟨space,.connected,[],data⟩]⟩

def change (hub : Hub Space Room Data) (s : Nat) (f : Client Space Room Data → Client Space Room Data) :
    Hub Space Room Data :=
  ⟨hub.clients.modify s f⟩

def join (hub : Hub Space Room Data) (s : Nat) (room : Room) : Hub Space Room Data :=
  hub.change s fun c => {c with rooms := room::c.rooms}

def identify (hub : Hub Space Room Data) (s : Nat) (data : Data) : Hub Space Room Data :=
  hub.change s fun c => {c with data := data}

-- A closed connection is in no room.
def close (hub : Hub Space Room Data) (s : Nat) : Hub Space Room Data :=
  hub.change s fun c => if c.link = .connected then {c with link := .closing,rooms := []} else c

def notice (hub : Hub Space Room Data) (s : Nat) : Hub Space Room Data :=
  hub.change s fun c => if c.link = .closing then {c with link := .gone} else c

def isOpen (hub : Hub Space Room Data) (s : Nat) : Bool := hub.clients[s]?.any fun c => c.link = .connected

theorem accept_new (hub : Hub Space Room Data) :
    (hub.accept space data).clients[hub.clients.length]? = some ⟨space,.connected,[],data⟩ := by
  simp [accept]

theorem close_shut (hub : Hub Space Room Data) : (hub.close s).isOpen s = false := by
  unfold isOpen close change
  cases found : hub.clients[s]? with
  | none => simp [found]
  | some c =>
    simp only [List.getElem?_modify,found,Option.map_eq_map,Option.map_some,if_true,Option.any_some]
    split
    · rfl
    · rename_i shut
      exact decide_eq_false shut

variable [DecidableEq Space] [DecidableEq Room]

def audience (hub : Hub Space Room Data) (space : Space) (room : Room) : List Nat :=
  (List.range hub.clients.length).filter fun s =>
    hub.clients[s]?.any fun c => c.space = space ∧ c.link = .connected ∧ room ∈ c.rooms

theorem mem_audience {hub : Hub Space Room Data} : s ∈ hub.audience space room ↔
    ∃ c, hub.clients[s]? = some c ∧ c.space = space ∧ c.link = .connected ∧ room ∈ c.rooms := by
  unfold audience
  rw [List.mem_filter,List.mem_range]
  cases found : hub.clients[s]? with
  | none => simp
  | some c =>
    obtain ⟨within,_⟩ := List.getElem?_eq_some_iff.mp found
    simp [within]

end Hub

-- What holds of every connection, by its number.
def Hub.Every (hub : Hub Space Room Data) (P : Nat → Client Space Room Data → Prop) : Prop :=
  ∀ s c, hub.clients[s]? = some c → P s c

section Every
variable {hub : Hub Space Room Data} {P : Nat → Client Space Room Data → Prop}

theorem every_accept (every : hub.Every P) (new : P hub.clients.length ⟨space,.connected,[],data⟩) :
    (hub.accept space data).Every P := by
  intro s c found
  simp only [Hub.accept] at found
  by_cases old : s < hub.clients.length
  · rw [List.getElem?_append_left old] at found
    exact every s c found
  · obtain ⟨within,_⟩ := List.getElem?_eq_some_iff.mp found
    have last : s = hub.clients.length := by
      rw [List.length_append,List.length_singleton] at within
      omega
    subst last
    rw [List.getElem?_concat_length] at found
    cases found
    exact new

theorem every_change (every : hub.Every P) (changed : ∀ c, P s c → P s (f c)) : (hub.change s f).Every P := by
  intro i c found
  simp only [Hub.change,List.getElem?_modify] at found
  obtain ⟨old,before,ends⟩ := Option.map_eq_some_iff.mp found
  rw [← ends]
  split
  · rename_i same
    subst same
    exact changed old (every s old before)
  · exact every i old before

theorem change_length : (hub.change s f).clients.length = hub.clients.length := List.length_modify ..

end Every

-- Connections are numbered for good, and stay in the namespace they opened.
def Keeps (hub hub' : Hub Space Room Data) : Prop :=
  ∀ (s : Nat) c, hub.clients[s]? = some c → ∃ c' : Client Space Room Data, hub'.clients[s]? = some c' ∧ c'.space = c.space

-- What connections, and those who serve them, do to the hub.
inductive Evolves (hub : Hub Space Room Data) : Hub Space Room Data → Prop where
  | refl : Evolves hub hub
  | accept (path : Evolves hub hub') : Evolves hub (hub'.accept space data)
  | join (path : Evolves hub hub') : Evolves hub (hub'.join s room)
  | identify (path : Evolves hub hub') : Evolves hub (hub'.identify s data)
  | close (path : Evolves hub hub') : Evolves hub (hub'.close s)
  | notice (path : Evolves hub hub') : Evolves hub (hub'.notice s)

theorem Evolves.trans {hub middle hub' : Hub Space Room Data} (first : Evolves hub middle) (second : Evolves middle hub') :
    Evolves hub hub' := by
  induction second with
  | refl => exact first
  | accept _ ih => exact .accept ih
  | join _ ih => exact .join ih
  | identify _ ih => exact .identify ih
  | close _ ih => exact .close ih
  | notice _ ih => exact .notice ih

-- A closed connection stays closed, and an open one in the rooms it has joined.
structure Client.Onward (c c' : Client Space Room Data) : Prop where
  space : c'.space = c.space
  link : c'.link = .connected → c.link = .connected
  rooms : c'.link = .connected → c.rooms ⊆ c'.rooms

theorem onward_refl (c : Client Space Room Data) : c.Onward c := ⟨rfl,id,fun _ _ member => member⟩

theorem onward_trans {c middle c' : Client Space Room Data} (first : c.Onward middle) (second : middle.Onward c') :
    c.Onward c' :=
  ⟨second.space.trans first.space,fun connected => first.link (second.link connected),
   fun connected => List.Subset.trans (first.rooms (second.link connected)) (second.rooms connected)⟩

theorem change_onward {hub : Hub Space Room Data} {c : Client Space Room Data} {i : Nat} (onward : ∀ c : Client Space Room Data, c.Onward (f c))
    (found : hub.clients[i]? = some c) :
    ∃ c', (hub.change s f).clients[i]? = some c' ∧ c.Onward c' := by
  simp only [Hub.change,List.getElem?_modify,found,Option.map_eq_map,Option.map_some]
  split
  · exact ⟨f c,rfl,onward c⟩
  · exact ⟨c,rfl,onward_refl c⟩

theorem evolves_onward {hub hub' : Hub Space Room Data} {s : Nat} (evolves : Evolves hub hub')
    (found : hub.clients[s]? = some c) : ∃ c', hub'.clients[s]? = some c' ∧ c.Onward c' := by
  have after : ∀ {middle last : Hub Space Room Data}, (∃ c', middle.clients[s]? = some c' ∧ c.Onward c') →
      (∀ c', middle.clients[s]? = some c' → ∃ c'', last.clients[s]? = some c'' ∧ c'.Onward c'') →
      ∃ c', last.clients[s]? = some c' ∧ c.Onward c' := by
    intro middle last first second
    obtain ⟨c',at_middle,onward⟩ := first
    obtain ⟨c'',at_last,further⟩ := second c' at_middle
    exact ⟨c'',at_last,onward_trans onward further⟩
  induction evolves with
  | refl => exact ⟨c,found,onward_refl c⟩
  | accept _ ih =>
    refine after ih fun c' at_middle => ⟨c',?_,onward_refl c'⟩
    obtain ⟨within,_⟩ := List.getElem?_eq_some_iff.mp at_middle
    simp only [Hub.accept]
    rw [List.getElem?_append_left within]
    exact at_middle
  | join _ ih =>
    exact after ih fun c' => change_onward fun c => ⟨rfl,id,fun _ => List.subset_cons_self _ _⟩
  | identify _ ih => exact after ih fun c' => change_onward fun c => ⟨rfl,id,fun _ => List.Subset.refl _⟩
  | close _ ih =>
    refine after ih fun c' => change_onward fun c => ?_
    split
    · exact ⟨rfl,fun closed => Link.noConfusion closed,fun closed => Link.noConfusion closed⟩
    · exact onward_refl c
  | notice _ ih =>
    refine after ih fun c' => change_onward fun c => ?_
    split
    · exact ⟨rfl,fun gone => Link.noConfusion gone,fun gone => Link.noConfusion gone⟩
    · exact onward_refl c

theorem evolves_keeps {hub hub' : Hub Space Room Data} (evolves : Evolves hub hub') : Keeps hub hub' := by
  intro s c found
  obtain ⟨c',found',onward⟩ := evolves_onward evolves found
  exact ⟨c',found',onward.space⟩

end Sockets
