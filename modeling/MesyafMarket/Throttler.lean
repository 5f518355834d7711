import MesyafMarket.Redis.Clients
import Mathlib.Data.List.Nodup
import Mathlib.Data.List.Pairwise
import Mathlib.Data.List.Induction

namespace MesyafMarket
open Redis Redis.Store

namespace RedisThrottlerStorage

-- What the storage keeps: the counter, and the JSON of `{ expiresAt }`.
inductive Value where
  | number (n : Int)
  | expiresAt (ms : Int)
  deriving DecidableEq

def Value.read : Value → Option Int
  | number n => some n
  | expiresAt _ => none

-- The arguments of `increment`, in milliseconds where they are times.
structure Increment where
  key : String
  ttl : Nat
  limit : Nat
  blockDuration : Nat
  throttlerName : String
  deriving DecidableEq

structure ThrottlerStorageRecord where
  totalHits : Int
  timeToExpire : Int
  isBlocked : Bool
  timeToBlockExpire : Option Int
  deriving DecidableEq

namespace Increment

def hitsKey (c : Increment) : String := "throttler:" ++ c.throttlerName ++ ":" ++ c.key ++ ":hits"
def blockKey (c : Increment) : String := "throttler:" ++ c.throttlerName ++ ":" ++ c.key ++ ":block"

-- `Math.ceil(ms / 1000)`
def ttlSeconds (c : Increment) : Nat := (c.ttl+999)/1000
def blockSeconds (c : Increment) : Nat := (c.blockDuration+999)/1000

end Increment

def ceilSeconds (ms : Int) : Int := -(-ms/1000)

-- The program points of `increment`, one before each Redis command.
inductive Point where
  | increment (c : Increment)
  | getBlock (c : Increment)
  | incrHits (c : Increment)
  | expireHits (c : Increment)
  | getTtl (c : Increment) (hits : Int)
  | setBlock (c : Increment) (hits timeToExpire blockExpiresAt : Int)
  | returned (record : ThrottlerStorageRecord)
  | thrown
  deriving DecidableEq

abbrev Cache := Store String Value
abbrev Throttling := World String Value Point
abbrev ThrottleMove := Move Int Point

-- The block key that has just been seen may have expired; a number would have no
-- `expiresAt`, and 0 counts as no data.
def timeToBlockExpire (c : Increment) (now : Int) : Option Value → Option Int
  | some (.expiresAt t) => some (ceilSeconds (t-now))
  | some (.number n) => if n = 0 then some c.blockSeconds else none
  | none => some c.blockSeconds

-- `now` is what Date.now() says when the reply has come.
def command : Point → Int → Cache → Cache × Point
  | .increment c,_,s => (s,if s.keyExists c.blockKey then .getBlock c else .incrHits c)
  | .getBlock c,now,s => (s,.returned ⟨c.limit+1,0,true,timeToBlockExpire c now (s.get c.blockKey)⟩)
  | .incrHits c,_,s => match s.incr c.hitsKey Value.read .number with
    | (s',some hits) => (s',if hits = 1 then .expireHits c else .getTtl c hits)
    | (s',none) => (s',.thrown)
  | .expireHits c,_,s => (s.expire c.hitsKey c.ttlSeconds,.getTtl c 1)
  | .getTtl c hits,now,s =>
    let remainingTtl := s.ttl c.hitsKey
    let timeToExpire := if remainingTtl > 0 then remainingTtl else c.ttlSeconds
    (s,if hits > c.limit ∧ c.blockDuration > 0 then .setBlock c hits timeToExpire (now+c.blockDuration)
      else .returned ⟨hits,timeToExpire,false,some 0⟩)
  | .setBlock c hits timeToExpire blockExpiresAt,_,s =>
    (s.set c.blockKey (.expiresAt blockExpiresAt) (if c.blockSeconds = 0 then none else some c.blockSeconds),
      .returned ⟨hits,timeToExpire,true,some c.blockSeconds⟩)
  | .returned record,_,s => (s,.returned record)
  | .thrown,_,s => (s,.thrown)

def throttler : Client String Value Int Point where
  command := command
  failed
    | .returned record => .returned record
    | _ => .thrown

theorem hits_block_apart (c d : Increment) : c.hitsKey ≠ d.blockKey := by
  intro same
  have last := congrArg (fun s => s.toList.reverse.head?) same
  simp [Increment.hitsKey,Increment.blockKey] at last

-- The call whose INCR of the counter `k` a move runs.
def incrOf (k : String) (made : Throttling × ThrottleMove) : Option Nat :=
  match made.2 with
  | .step p _ => match made.1.calls p with
    | some (.incrHits c) => if c.hitsKey = k then some p else none
    | _ => none
  | _ => none

-- INCR counts a call after those of the counter's lifetime, or as the first of a new one.
def extended (fresh : Bool) (p : Nat) : List (List Nat) → List (List Nat)
  | calls::earlier => if fresh then [p]::calls::earlier else (calls ++ [p])::earlier
  | [] => [[p]]

def counted (k : String) (lives : List (List Nat)) (made : Throttling × ThrottleMove) : List (List Nat) :=
  match incrOf k made with
  | none => lives
  | some p => extended (made.1.store.find k).isNone p lives

-- The calls counted in each lifetime of the counter, the last lifetime first.
def lifetimes (k : String) (w : Throttling) (moves : List ThrottleMove) : List (List Nat) :=
  (w.trace throttler moves).foldl (counted k) []

-- The call that a move lets find its block key.
def refusalOf (made : Throttling × ThrottleMove) : Option Nat :=
  match made.2 with
  | .step p _ => match made.1.calls p with
    | some (.increment c) => if made.1.store.keyExists c.blockKey then some p else none
    | _ => none
  | _ => none

def refused (w : Throttling) (moves : List ThrottleMove) : List Nat :=
  (w.trace throttler moves).filterMap refusalOf

-- A call is the one that the counter said `hits` to.
def Counted (lives : List (List Nat)) (p : Nat) (hits : Int) : Prop :=
  ∃ calls ∈ lives, ∃ i : Nat, calls[i]? = some p ∧ hits = i+1

section Lives
variable {lives : List (List Nat)}

theorem extended_perm (fresh : Bool) (p : Nat) (lives : List (List Nat)) :
    (extended fresh p lives).flatten.Perm (p::lives.flatten) := by
  cases lives with
  | nil => exact .refl _
  | cons calls earlier =>
    cases fresh with
    | true => exact .refl _
    | false =>
      change ((calls ++ [p]) ++ earlier.flatten).Perm (p::(calls ++ earlier.flatten))
      rw [List.append_assoc]
      exact List.perm_middle

theorem mem_extended {fresh : Bool} : q ∈ (extended fresh p lives).flatten ↔ q = p ∨ q ∈ lives.flatten := by
  rw [(extended_perm fresh p lives).mem_iff,List.mem_cons]

theorem counted_extended {fresh : Bool} (earlier : Counted lives q hits) : Counted (extended fresh p lives) q hits := by
  obtain ⟨calls,member,i,at_i,same⟩ := earlier
  cases lives with
  | nil => cases member
  | cons first rest =>
    cases fresh with
    | true => exact ⟨calls,List.mem_cons_of_mem _ member,i,at_i,same⟩
    | false =>
      rcases List.mem_cons.mp member with here | there
      · subst here
        refine ⟨calls ++ [p],List.mem_cons_self,i,?_,same⟩
        rw [List.getElem?_append_left (List.getElem?_eq_some_iff.mp at_i).1]
        exact at_i
      · exact ⟨calls,List.mem_cons_of_mem _ there,i,at_i,same⟩

theorem counted_mem (counts : Counted lives p hits) : p ∈ lives.flatten := by
  obtain ⟨calls,member,i,at_i,_⟩ := counts
  exact List.mem_flatten.mpr ⟨calls,member,List.mem_of_getElem? at_i⟩

-- The counter says one number to a call.
theorem counted_once (distinct : lives.flatten.Nodup) (one : Counted lives p m) (two : Counted lives p n) : m = n := by
  obtain ⟨calls,member,i,at_i,first⟩ := one
  obtain ⟨others,member',j,at_j,second⟩ := two
  obtain ⟨each,apart⟩ := List.nodup_flatten.mp distinct
  have same : calls = others := by
    by_contra other
    have symm : Std.Symm (List.Disjoint (α := Nat)) := ⟨fun _ _ apart _ left right => apart right left⟩
    exact apart.forall member member' other (List.mem_of_getElem? at_i) (List.mem_of_getElem? at_j)
  subst same
  have place : i = j := (List.getElem?_inj (List.getElem?_eq_some_iff.mp at_i).1 (each calls member)).mp (at_i.trans at_j.symm)
  rw [first,second,place]

end Lives

section Counting
variable (c : Increment)

-- Where a call is that has been counted, or refused, or neither yet.
def At (lives : List (List Nat)) (away : List Nat) (p : Nat) : Point → Prop
  | .increment d | .incrHits d => d = c ∧ p ∉ lives.flatten ∧ p ∉ away
  | .getBlock d => d = c ∧ p ∈ away
  | .expireHits d => d = c ∧ Counted lives p 1
  | .getTtl d hits => d = c ∧ Counted lives p hits
  | .setBlock d hits _ _ => d = c ∧ Counted lives p hits ∧ c.limit < hits
  | .returned record => (∃ hits, Counted lives p hits ∧ record.isBlocked = decide (c.limit < hits)) ∨
      (p ∈ away ∧ record.isBlocked = true)
  | .thrown => True

structure Counts (w : Throttling) (lives : List (List Nat)) (away : List Nat) : Prop where
  number : ∀ e, w.store.find c.hitsKey = some e → ∃ calls earlier, lives = calls::earlier ∧ e.value = .number calls.length
  points : ∀ p x, w.calls p = some x → At c lives away p x
  distinct : lives.flatten.Nodup
  apart : ∀ p ∈ away, p ∉ lives.flatten
  known : ∀ p, p ∈ lives.flatten ∨ p ∈ away → p < w.spawned

end Counting

section Steps
variable {c : Increment} {w : Throttling} {lives lives' : List (List Nat)} {away away' : List Nat}

theorem at_kept (at_q : At c lives away q x) (counts : ∀ hits, Counted lives q hits → Counted lives' q hits)
    (members : q ∈ lives'.flatten ↔ q ∈ lives.flatten) (aside : q ∈ away' ↔ q ∈ away) : At c lives' away' q x := by
  cases x with
  | increment | incrHits =>
    obtain ⟨same,uncounted,accepted⟩ := at_q
    exact ⟨same,fun member => uncounted (members.mp member),fun member => accepted (aside.mp member)⟩
  | getBlock => exact ⟨at_q.1,aside.mpr at_q.2⟩
  | expireHits | getTtl => exact ⟨at_q.1,counts _ at_q.2⟩
  | setBlock => exact ⟨at_q.1,counts _ at_q.2.1,at_q.2.2⟩
  | returned =>
    rcases at_q with ⟨hits,counted,blocked⟩ | ⟨member,blocked⟩
    · exact .inl ⟨hits,counts _ counted,blocked⟩
    · exact .inr ⟨aside.mpr member,blocked⟩
  | thrown => trivial

-- One call goes on, and only it is counted or refused by that.
theorem counts_step {store : Cache} (counts : Counts c w lives away) (live : w.Live) (found : w.calls p = some x)
    (number : ∀ e, store.find c.hitsKey = some e →
      ∃ calls earlier, lives' = calls::earlier ∧ e.value = .number calls.length)
    (counted : ∀ q hits, Counted lives q hits → Counted lives' q hits)
    (members : ∀ q, q ≠ p → (q ∈ lives'.flatten ↔ q ∈ lives.flatten)) (aside : ∀ q, q ≠ p → (q ∈ away' ↔ q ∈ away))
    (distinct : lives'.flatten.Nodup) (apart : p ∈ away' → p ∉ lives'.flatten) (here : At c lives' away' p y) :
    Counts c {w.goto p (some y) with store := store} lives' away' where
  number := number
  points q z at_q := by
    rcases goto_some at_q with ⟨same,last⟩ | ⟨other,before⟩
    · cases same
      cases last
      exact here
    · exact at_kept (counts.points q z before) (counted q) (members q other) (aside q other)
  distinct := distinct
  apart q member := by
    by_cases same : q = p
    · subst same
      exact apart member
    · rw [members q same]
      exact counts.apart q ((aside q same).mp member)
  known q member := by
    by_cases same : q = p
    · subst same
      exact live q x found
    · rw [members q same,aside q same] at member
      exact counts.known q member

theorem counts_stay {store : Cache} (counts : Counts c w lives away) (live : w.Live) (found : w.calls p = some x)
    (number : ∀ e, store.find c.hitsKey = some e → ∃ before, w.store.find c.hitsKey = some before ∧ e.value = before.value)
    (here : At c lives away p y) : Counts c {w.goto p (some y) with store := store} lives away := by
  refine counts_step counts live found ?_ (fun _ _ same => same) (fun _ _ => .rfl) (fun _ _ => .rfl) counts.distinct
    (counts.apart p) here
  intro e at_k
  obtain ⟨before,at_before,same⟩ := number e at_k
  rw [same]
  exact counts.number before at_before

theorem counts_increment (counts : Counts c w lives away) (live : w.Live) (found : w.calls p = some (.increment d)) :
    Counts c (w.move throttler (.step p now)) (counted c.hitsKey lives (w,.step p now))
      (away ++ (refusalOf (w,.step p now)).toList) := by
  obtain ⟨same,uncounted,accepted⟩ := counts.points p _ found
  subst same
  simp only [World.move,found,counted,incrOf,refusalOf,throttler,command]
  split
  · rename_i blocked
    refine counts_step counts live found counts.number (fun _ _ same => same) (fun _ _ => .rfl) ?_ counts.distinct
      (fun _ => uncounted) ⟨rfl,by simp⟩
    intro q other
    simp [other]
  · simp only [Option.toList_none,List.append_nil]
    exact counts_stay counts live found (fun e at_k => ⟨e,at_k,rfl⟩) ⟨rfl,uncounted,accepted⟩

theorem counts_incrHits (counts : Counts c w lives away) (live : w.Live) (found : w.calls p = some (.incrHits d)) :
    Counts c (w.move throttler (.step p now)) (counted c.hitsKey lives (w,.step p now))
      (away ++ (refusalOf (w,.step p now)).toList) := by
  obtain ⟨same,uncounted,accepted⟩ := counts.points p _ found
  subst same
  simp only [World.move,found,counted,incrOf,refusalOf,throttler,command,if_true,Option.toList_none,List.append_nil]
  have parts := incr_parts w.store d.hitsKey Value.read .number
  generalize w.store.incr d.hitsKey Value.read .number = result at parts ⊢
  have distinct : ∀ fresh, (extended fresh p lives).flatten.Nodup := by
    intro fresh
    rw [(extended_perm fresh p lives).nodup_iff]
    exact List.nodup_cons.mpr ⟨uncounted,counts.distinct⟩
  have members : ∀ fresh q, q ≠ p → (q ∈ (extended fresh p lives).flatten ↔ q ∈ lives.flatten) := by
    intro fresh q other
    rw [mem_extended]
    exact ⟨fun member => member.resolve_left other,.inr⟩
  cases parts with
  | first absent =>
    rw [absent]
    refine counts_step counts live found ?_ (fun _ _ => counted_extended) (members _) (fun _ _ => .rfl) (distinct _)
      (fun member => absurd member accepted) ?_
    · intro e at_k
      rcases put_some at_k with ⟨_,row⟩ | ⟨other,_⟩
      · subst row
        cases lives with
        | nil => exact ⟨[p],[],rfl,rfl⟩
        | cons calls earlier => exact ⟨[p],calls::earlier,rfl,rfl⟩
      · exact absurd rfl other
    · have counted : Counted (extended true p lives) p 1 := by
        cases lives with
        | nil => exact ⟨[p],List.mem_cons_self,0,rfl,rfl⟩
        | cons calls earlier => exact ⟨[p],List.mem_cons_self,0,rfl,rfl⟩
      exact ⟨rfl,counted⟩
  | @next e n present read =>
    rw [present]
    obtain ⟨calls,earlier,cut,value⟩ := counts.number e present
    subst cut
    rw [value] at read
    cases read
    have counted : Counted (extended false p (calls::earlier)) p (calls.length+1) :=
      ⟨calls ++ [p],List.mem_cons_self,calls.length,List.getElem?_concat_length,rfl⟩
    refine counts_step counts live found ?_ (fun _ _ => counted_extended) (members _) (fun _ _ => .rfl) (distinct _)
      (fun member => absurd member accepted) ?_
    · intro e' at_k
      rcases put_some at_k with ⟨_,row⟩ | ⟨other,_⟩
      · subst row
        exact ⟨calls ++ [p],earlier,rfl,by simp⟩
      · exact absurd rfl other
    · dsimp only
      split
      · rename_i first
        rw [first] at counted
        exact ⟨rfl,counted⟩
      · exact ⟨rfl,counted⟩
  | @refused e present read =>
    obtain ⟨_,_,_,value⟩ := counts.number e present
    rw [value] at read
    cases read

theorem counts_plain (counts : Counts c w lives away) (live : w.Live) (found : w.calls p = some x)
    (plain : ∀ d, x ≠ .increment d ∧ x ≠ .incrHits d)
    (number : ∀ e, (command x now w.store).1.find c.hitsKey = some e →
      ∃ before, w.store.find c.hitsKey = some before ∧ e.value = before.value)
    (here : At c lives away p (command x now w.store).2) :
    Counts c (w.move throttler (.step p now)) (counted c.hitsKey lives (w,.step p now))
      (away ++ (refusalOf (w,.step p now)).toList) := by
  have after : counted c.hitsKey lives (w,.step p now) = lives := by
    cases x with
    | incrHits d => exact absurd rfl (plain d).2
    | _ => simp only [counted,incrOf,found]
  have aside : refusalOf (w,.step p now) = none := by
    cases x with
    | increment d => exact absurd rfl (plain d).1
    | _ => simp only [refusalOf,found]
  rw [after,aside,Option.toList_none,List.append_nil]
  simp only [World.move,found]
  exact counts_stay counts live found number here

theorem counts_command (blocks : 0 < c.blockDuration) (counts : Counts c w lives away) (live : w.Live) (found : w.calls p = some x) :
    Counts c (w.move throttler (.step p now)) (counted c.hitsKey lives (w,.step p now))
      (away ++ (refusalOf (w,.step p now)).toList) := by
  have at_p := counts.points p x found
  cases x with
  | increment d => exact counts_increment counts live found
  | incrHits d => exact counts_incrHits counts live found
  | getBlock d => exact counts_plain counts live found (fun _ => ⟨nofun,nofun⟩) (fun e at_k => ⟨e,at_k,rfl⟩) (.inr ⟨at_p.2,rfl⟩)
  | expireHits d =>
    obtain ⟨same,counted⟩ := at_p
    subst same
    refine counts_plain counts live found (fun _ => ⟨nofun,nofun⟩) ?_ ⟨rfl,counted⟩
    intro e at_k
    obtain ⟨before,at_before,value,_⟩ := expire_some at_k
    exact ⟨before,at_before,value⟩
  | getTtl d hits =>
    obtain ⟨same,counted⟩ := at_p
    subst same
    refine counts_plain counts live found (fun _ => ⟨nofun,nofun⟩) (fun e at_k => ⟨e,at_k,rfl⟩) ?_
    simp only [command]
    split
    · rename_i full
      exact ⟨rfl,counted,full.1⟩
    · rename_i within
      refine .inl ⟨hits,counted,(decide_eq_false ?_).symm⟩
      exact fun full => within ⟨full,blocks⟩
  | setBlock d hits timeToExpire blockExpiresAt =>
    obtain ⟨same,counted,full⟩ := at_p
    subst same
    refine counts_plain counts live found (fun _ => ⟨nofun,nofun⟩) ?_ (.inl ⟨hits,counted,(decide_eq_true full).symm⟩)
    intro e at_k
    rcases set_some at_k with ⟨same,_⟩ | ⟨_,before⟩
    · exact absurd same (hits_block_apart d d)
    · exact ⟨e,before,rfl⟩
  | returned record => exact counts_plain counts live found (fun _ => ⟨nofun,nofun⟩) (fun e at_k => ⟨e,at_k,rfl⟩) at_p
  | thrown => exact counts_plain counts live found (fun _ => ⟨nofun,nofun⟩) (fun e at_k => ⟨e,at_k,rfl⟩) at_p

theorem counts_move (blocks : 0 < c.blockDuration) (counts : Counts c w lives away) (live : w.Live)
    (spawns : ∀ x, m = .spawn x → x = .increment c) :
    Counts c (w.move throttler m) (counted c.hitsKey lives (w,m)) (away ++ (refusalOf (w,m)).toList) := by
  cases m with
  | step p now =>
    cases found : w.calls p with
    | some x => exact counts_command blocks counts live found
    | none =>
      simp only [World.move,found,counted,incrOf,refusalOf,Option.toList_none,List.append_nil]
      exact counts
  | spawn x =>
    have call := spawns x rfl
    subst call
    simp only [World.move,counted,incrOf,refusalOf,Option.toList_none,List.append_nil]
    refine ⟨counts.number,?_,counts.distinct,counts.apart,fun p member => Nat.lt_succ_of_lt (counts.known p member)⟩
    intro p x at_p
    rcases goto_some at_p with ⟨same,new⟩ | ⟨_,before⟩
    · cases same
      cases new
      refine ⟨rfl,?_,?_⟩
      · exact fun member => Nat.lt_irrefl _ (counts.known _ (.inl member))
      · exact fun member => Nat.lt_irrefl _ (counts.known _ (.inr member))
    · exact counts.points p x before
  | fail p =>
    simp only [counted,incrOf,refusalOf,Option.toList_none,List.append_nil]
    cases found : w.calls p with
    | none =>
      simp only [World.move,found]
      exact counts
    | some x =>
      simp only [World.move,found]
      refine counts_stay counts live found (fun e at_k => ⟨e,at_k,rfl⟩) ?_
      have at_p := counts.points p x found
      cases x with
      | returned record => exact at_p
      | _ => trivial
  | stop p =>
    simp only [World.move,counted,incrOf,refusalOf,Option.toList_none,List.append_nil]
    refine ⟨counts.number,?_,counts.distinct,counts.apart,counts.known⟩
    intro q x at_q
    rcases goto_some at_q with ⟨_,gone⟩ | ⟨_,before⟩
    · cases gone
    · exact counts.points q x before
  | pass ms =>
    simp only [World.move,counted,incrOf,refusalOf,Option.toList_none,List.append_nil]
    exact ⟨fun e at_k => counts.number e (find_pass at_k),counts.points,counts.distinct,counts.apart,counts.known⟩

end Steps

theorem counts_run {c : Increment} (blocks : 0 < c.blockDuration) {cache : Cache} (absent : cache.find c.hitsKey = none)
    (moves : List ThrottleMove) (spawns : ∀ x, .spawn x ∈ moves → x = .increment c) :
    Counts c ((World.open cache).run throttler moves) (lifetimes c.hitsKey (World.open cache) moves)
      (refused (World.open cache) moves) := by
  induction moves using List.reverseRecOn with
  | nil =>
    refine ⟨?_,nofun,List.nodup_nil,nofun,nofun⟩
    intro e found
    have found : cache.find c.hitsKey = some e := found
    rw [absent] at found
    cases found
  | append_singleton moves m ih =>
    have before := ih fun x member => spawns x (List.mem_append_left _ member)
    have after := counts_move (m := m) blocks before (live_run _ _ _) fun x same =>
      spawns x (by rw [same]; exact List.mem_append_right _ List.mem_cons_self)
    unfold lifetimes refused
    rw [World.trace_snoc,List.foldl_append,List.filterMap_append,World.run_snoc]
    exact after

-- Commands that a call still has to give, at most.
def left : Point → Nat
  | .increment _ => 5
  | .incrHits _ => 4
  | .expireHits _ => 3
  | .getTtl .. => 2
  | .getBlock _ | .setBlock .. => 1
  | .returned _ | .thrown => 0

theorem left_less (x : Point) (now : Int) (s : Cache) : left (throttler.command x now s).2 ≤ left x-1 := by
  cases x with
  | increment => simp only [throttler,command]; split <;> simp [left]
  | incrHits =>
    simp only [throttler,command]
    split
    · dsimp only
      split <;> simp [left]
    · simp [left]
  | getTtl => simp only [throttler,command]; split <;> simp [left]
  | _ => simp [throttler,command,left]

-- A call fails only with one of its commands.
theorem unthrown_move {c : Increment} (counts : Counts c w lives away) (live : w.Live) (found : w.calls p = some x) (going : x ≠ .thrown)
    (alone : m ≠ .fail p ∧ m ≠ .stop p) : ∃ y, (w.move throttler m).calls p = some y ∧ y ≠ .thrown := by
  obtain ⟨unfailed,unstopped⟩ := alone
  have parts := move_parts throttler w m
  generalize w.move throttler m = w' at parts
  cases parts with
  | still | passed => exact ⟨x,found,going⟩
  | spawned => exact ⟨x,(goto_other (Nat.ne_of_lt (live p x found))).trans found,going⟩
  | @failed q z at_q =>
    have other : p ≠ q := fun same => unfailed (by rw [same])
    exact ⟨x,(goto_other other).trans found,going⟩
  | @stopped q =>
    have other : p ≠ q := fun same => unstopped (by rw [same])
    exact ⟨x,(goto_other other).trans found,going⟩
  | @stepped q z now store y at_q given =>
    by_cases other : p ≠ q
    · exact ⟨x,(goto_other other).trans found,going⟩
    · rw [not_not] at other
      subst other
      rw [found] at at_q
      cases at_q
      refine ⟨y,goto_self,?_⟩
      intro thrown
      subst thrown
      cases x with
      | increment d => simp only [throttler,command,Prod.mk.injEq] at given; split at given <;> cases given.2
      | incrHits d =>
        obtain ⟨same,_⟩ := counts.points p _ found
        subst same
        simp only [throttler,command] at given
        have parts := incr_parts w.store d.hitsKey Value.read .number
        generalize w.store.incr d.hitsKey Value.read .number = result at parts given
        cases parts with
        | first => dsimp only at given; cases given
        | next => dsimp only at given; split at given <;> cases given
        | refused present read =>
          obtain ⟨_,_,_,value⟩ := counts.number _ present
          rw [value] at read
          cases read
      | getTtl d hits => simp only [throttler,command,Prod.mk.injEq] at given; split at given <;> cases given.2
      | thrown => exact going rfl
      | _ => simp [throttler,command] at given

theorem unthrown_run {c : Increment} (blocks : 0 < c.blockDuration) {cache : Cache} (absent : cache.find c.hitsKey = none)
    (moves more : List ThrottleMove) (spawns : ∀ x, .spawn x ∈ moves ++ more → x = .increment c)
    (found : ((World.open cache).run throttler moves).calls p = some x) (going : x ≠ .thrown)
    (alone : ∀ m ∈ more, m ≠ .fail p ∧ m ≠ .stop p) :
    ∃ y, ((World.open cache).run throttler (moves ++ more)).calls p = some y ∧ y ≠ .thrown := by
  induction more using List.reverseRecOn with
  | nil => exact ⟨x,by rw [List.append_nil]; exact found,going⟩
  | append_singleton more m ih =>
    rw [← List.append_assoc] at spawns ⊢
    obtain ⟨y,there,running⟩ := ih (fun x member => spawns x (List.mem_append_left _ member))
      fun m member => alone m (List.mem_append_left _ member)
    have counts := counts_run blocks absent (moves ++ more) fun x member => spawns x (List.mem_append_left _ member)
    rw [World.run_snoc]
    exact unthrown_move counts (live_run _ _ _) there running (alone m (List.mem_append_right _ List.mem_cons_self))

-- What the calls of a run come to: the first `limit` of each lifetime of the counter
-- are let through, the later ones and those that find the block key are not.
structure RateExact (c : Increment) (cache : Cache) (moves : List ThrottleMove) : Prop where
  counted : ∀ calls ∈ lifetimes c.hitsKey (World.open cache) moves, ∀ i p record, calls[i]? = some p →
    ((World.open cache).run throttler moves).calls p = some (.returned record) →
      record.isBlocked = decide (c.limit ≤ i)
  refused : ∀ p ∈ refused (World.open cache) moves, p ∉ (lifetimes c.hitsKey (World.open cache) moves).flatten ∧
    ∀ record, ((World.open cache).run throttler moves).calls p = some (.returned record) → record.isBlocked = true
  once : (lifetimes c.hitsKey (World.open cache) moves).flatten.Nodup
  either : ∀ p record, ((World.open cache).run throttler moves).calls p = some (.returned record) →
    p ∈ (lifetimes c.hitsKey (World.open cache) moves).flatten ∨ p ∈ RedisThrottlerStorage.refused (World.open cache) moves
  ends : ∀ p x more, ((World.open cache).run throttler moves).calls p = some x → x ≠ .thrown →
    (∀ m ∈ more, m ≠ .fail p ∧ m ≠ .stop p) → (∀ x, .spawn x ∈ more → x = .increment c) →
    5 ≤ more.countP (Move.isStep p) →
      ∃ record, ((World.open cache).run throttler (moves ++ more)).calls p = some (.returned record)

theorem rate_exact (c : Increment) (blocks : 0 < c.blockDuration) {cache : Cache} (absent : cache.find c.hitsKey = none)
    (moves : List ThrottleMove) (spawns : ∀ x, .spawn x ∈ moves → x = .increment c) : RateExact c cache moves := by
  have counts := counts_run blocks absent moves spawns
  refine ⟨?_,?_,counts.distinct,?_,?_⟩
  · intro calls member i p record at_i returned
    have own : Counted (lifetimes c.hitsKey (World.open cache) moves) p (i+1) := ⟨calls,member,i,at_i,rfl⟩
    rcases counts.points p _ returned with ⟨hits,counted,blocked⟩ | ⟨away,_⟩
    · have same := counted_once counts.distinct own counted
      rw [blocked,← same]
      exact decide_eq_decide.mpr (by omega)
    · exact absurd (counted_mem own) (counts.apart p away)
  · intro p away
    refine ⟨counts.apart p away,?_⟩
    intro record returned
    rcases counts.points p _ returned with ⟨hits,counted,_⟩ | ⟨_,blocked⟩
    · exact absurd (counted_mem counted) (counts.apart p away)
    · exact blocked
  · intro p record returned
    rcases counts.points p _ returned with ⟨hits,counted,_⟩ | ⟨away,_⟩
    · exact .inl (counted_mem counted)
    · exact .inr away
  · intro p x more found going alone calls enough
    obtain ⟨y,ended,unthrown⟩ := unthrown_run blocks absent moves more
      (fun x member => (List.mem_append.mp member).elim (spawns x) (calls x)) found going alone
    obtain ⟨z,last,bound⟩ := run_progress more left_less (live_run _ _ _ p x found) found alone
    rw [← World.run_append] at last
    rw [last] at ended
    cases ended
    have most : left x ≤ 5 := by cases x <;> simp [left]
    have spent : left y = 0 := by omega
    cases y with
    | returned record => exact ⟨record,last⟩
    | thrown => exact absurd rfl unthrown
    | _ => cases spent

-- Two requests are let through in the window, the third one sets the block and the
-- fourth one finds it; after the window and the block there is a new count.
def burst : Increment := ⟨"login",900000,2,900000,"login"⟩

def hurried (p n : Nat) : List ThrottleMove := List.replicate n (.step p 0)

def burstMoves : List ThrottleMove :=
  List.replicate 3 (.spawn (.increment burst)) ++ hurried 2 2 ++ hurried 0 2 ++ hurried 1 5 ++ hurried 2 3 ++ hurried 0 4 ++
    [.spawn (.increment burst)] ++ hurried 3 2 ++ [.pass 900001,.spawn (.increment burst)] ++ hurried 4 4

theorem rate_exact_burst : RateExact burst (Store.empty 0) burstMoves ∧
    lifetimes burst.hitsKey (World.open (Store.empty 0)) burstMoves = [[4],[2,0,1]] ∧
    refused (World.open (Store.empty 0)) burstMoves = [3] := by
  refine ⟨rate_exact burst (by decide) rfl burstMoves ?_,by decide +kernel,by decide +kernel⟩
  have calls : (burstMoves.all fun m => match m with
    | .spawn x => x = .increment burst
    | _ => true) = true := by decide +kernel
  intro x member
  exact of_decide_eq_true (List.all_eq_true.mp calls _ member)

-- No stop and no failure comes between an INCR that has made the counter and its EXPIRE.
def Arms (made : Throttling × ThrottleMove) : Prop :=
  ∀ p c, made.1.calls p = some (.expireHits c) → made.2 ≠ .fail p ∧ made.2 ≠ .stop p

section Windows
variable (window blocking : String → Nat)

def Bounded : Point → Prop
  | .increment c | .incrHits c | .expireHits c | .getTtl c _ =>
    c.ttlSeconds ≤ window c.hitsKey ∧ c.blockSeconds ≤ blocking c.blockKey
  | .setBlock c _ _ _ => 0 < c.blockSeconds ∧ c.blockSeconds ≤ blocking c.blockKey
  | .getBlock _ | .returned _ | .thrown => True

-- The counters and blocks that there are go by themselves: a counter by the window of
-- its throttler, once the call that has made it arms it.
structure Fading (w : Throttling) : Prop where
  hits : ∀ c e, w.store.find (Increment.hitsKey c) = some e →
    (∃ t, e.expiresAt = some t ∧ t ≤ w.store.clock+window c.hitsKey*1000) ∨
      (e.expiresAt = none ∧ ∃ p d, w.calls p = some (.expireHits d) ∧ d.hitsKey = c.hitsKey)
  block : ∀ c e, w.store.find (Increment.blockKey c) = some e →
    ∃ t, e.expiresAt = some t ∧ t ≤ w.store.clock+blocking c.blockKey*1000
  calls : ∀ p x, w.calls p = some x → Bounded window blocking x

end Windows

section Fade
variable {window blocking : String → Nat} {w : Throttling}

-- A call that has no counter to arm goes on without a change to the store.
theorem fading_goto (fading : Fading window blocking w) (idle : ∀ d, w.calls p ≠ some (.expireHits d))
    (bounded : ∀ y, x = some y → Bounded window blocking y) : Fading window blocking (w.goto p x) where
  hits c e found := by
    rcases fading.hits c e found with armed | ⟨unarmed,q,d,at_q,same⟩
    · exact .inl armed
    · have other : q ≠ p := by
        intro here
        rw [here] at at_q
        exact idle d at_q
      exact .inr ⟨unarmed,q,d,(goto_other other).trans at_q,same⟩
  block := fading.block
  calls q y at_q := by
    rcases goto_some at_q with ⟨_,last⟩ | ⟨_,before⟩
    · exact bounded y last
    · exact fading.calls q y before

theorem fading_stay (fading : Fading window blocking w) (found : w.calls p = some z) (idle : ∀ d, z ≠ .expireHits d)
    (bounded : ∀ y, x = some y → Bounded window blocking y) : Fading window blocking (w.goto p x) := by
  refine fading_goto fading ?_ bounded
  intro d at_p
  rw [found] at at_p
  exact idle d (Option.some.inj at_p)

theorem fading_moved {store : Cache} (fading : Fading window blocking w)
    (hits : ∀ c e, store.find (Increment.hitsKey c) = some e →
      (∃ t, e.expiresAt = some t ∧ t ≤ store.clock+window c.hitsKey*1000) ∨
        (e.expiresAt = none ∧ ∃ q d, (w.goto p (some y)).calls q = some (.expireHits d) ∧ d.hitsKey = c.hitsKey))
    (block : ∀ c e, store.find (Increment.blockKey c) = some e →
      ∃ t, e.expiresAt = some t ∧ t ≤ store.clock+blocking c.blockKey*1000)
    (bounded : Bounded window blocking y) : Fading window blocking {w.goto p (some y) with store := store} where
  hits := hits
  block := block
  calls q x at_q := by
    rcases goto_some at_q with ⟨_,last⟩ | ⟨_,before⟩
    · cases last
      exact bounded
    · exact fading.calls q x before

-- A call that is not about to arm a counter leaves those that are at it.
theorem arming_kept {y : Option Point} (found : w.calls p = some x) (idle : ∀ d, x ≠ .expireHits d)
    (at_q : w.calls q = some (.expireHits b)) : (w.goto p y).calls q = some (.expireHits b) := by
  have other : q ≠ p := by
    intro same
    rw [same,found] at at_q
    exact idle b (Option.some.inj at_q)
  exact (goto_other other).trans at_q

theorem fading_incrHits (fading : Fading window blocking w) (found : w.calls p = some (.incrHits d)) :
    Fading window blocking (w.move throttler (.step p now)) := by
  have bounded := fading.calls p _ found
  simp only [World.move,found,throttler,command]
  have parts := incr_parts w.store d.hitsKey Value.read .number
  generalize w.store.incr d.hitsKey Value.read .number = result at parts ⊢
  cases parts with
  | first absent =>
    refine fading_moved fading ?_ ?_ bounded
    · intro c e at_k
      rcases put_some at_k with ⟨same,row⟩ | ⟨_,before⟩
      · subst row
        exact .inr ⟨rfl,p,d,goto_self,same.symm⟩
      · rcases fading.hits c e before with armed | ⟨unarmed,q,b,at_q,key⟩
        · exact .inl armed
        · exact .inr ⟨unarmed,q,b,arming_kept found (fun _ no => by cases no) at_q,key⟩
    · intro c e at_k
      rcases put_some at_k with ⟨same,_⟩ | ⟨_,before⟩
      · exact absurd same.symm (hits_block_apart d c)
      · exact fading.block c e before
  | @next e n present read =>
    refine fading_moved fading ?_ ?_ ?_
    · intro c e' at_k
      have kept : ∃ old, w.store.find c.hitsKey = some old ∧ e'.expiresAt = old.expiresAt := by
        rcases put_some at_k with ⟨same,row⟩ | ⟨_,before⟩
        · subst row
          exact ⟨e,by rw [same]; exact present,rfl⟩
        · exact ⟨e',before,rfl⟩
      obtain ⟨old,before,same⟩ := kept
      rcases fading.hits c old before with ⟨t,due,bound⟩ | ⟨unarmed,q,b,at_q,key⟩
      · exact .inl ⟨t,same.trans due,bound⟩
      · exact .inr ⟨same.trans unarmed,q,b,arming_kept found (fun _ no => by cases no) at_q,key⟩
    · intro c e' at_k
      rcases put_some at_k with ⟨same,_⟩ | ⟨_,before⟩
      · exact absurd same.symm (hits_block_apart d c)
      · exact fading.block c e' before
    · dsimp only
      split <;> exact bounded
  | refused => exact fading_stay fading found (fun _ no => by cases no) (by intro y last; cases last; trivial)

theorem fading_expireHits (fading : Fading window blocking w) (found : w.calls p = some (.expireHits d)) :
    Fading window blocking (w.move throttler (.step p now)) := by
  have bounded := fading.calls p _ found
  simp only [World.move,found,throttler,command]
  refine fading_moved fading ?_ ?_ bounded
  · intro c e at_k
    rw [expire_clock]
    obtain ⟨old,before,_,⟨same,due⟩ | ⟨other,row⟩⟩ := expire_some at_k
    · refine .inl ⟨_,due,?_⟩
      have most := bounded.1
      rw [← same] at most
      omega
    · subst row
      rcases fading.hits c e before with armed | ⟨unarmed,q,b,at_q,key⟩
      · exact .inl armed
      · have apart : q ≠ p := by
          intro here
          rw [here,found] at at_q
          cases at_q
          exact other key.symm
        exact .inr ⟨unarmed,q,b,(goto_other apart).trans at_q,key⟩
  · intro c e at_k
    rw [expire_clock]
    obtain ⟨old,before,_,⟨same,_⟩ | ⟨_,row⟩⟩ := expire_some at_k
    · exact absurd same.symm (hits_block_apart d c)
    · subst row
      exact fading.block c e before

theorem fading_setBlock (fading : Fading window blocking w) (found : w.calls p = some (.setBlock d hits rest due)) :
    Fading window blocking (w.move throttler (.step p now)) := by
  obtain ⟨positive,most⟩ := fading.calls p _ found
  simp only [World.move,found,throttler,command]
  rw [if_neg (by omega)]
  refine fading_moved fading ?_ ?_ trivial
  · intro c e at_k
    rcases set_some at_k with ⟨same,_⟩ | ⟨_,before⟩
    · exact absurd same (hits_block_apart c d)
    · rcases fading.hits c e before with armed | ⟨unarmed,q,b,at_q,key⟩
      · exact .inl armed
      · exact .inr ⟨unarmed,q,b,arming_kept found (fun _ no => by cases no) at_q,key⟩
  · intro c e at_k
    rw [set_clock]
    rcases set_some at_k with ⟨same,row⟩ | ⟨_,before⟩
    · subst row
      refine ⟨w.store.clock+d.blockSeconds*1000,rfl,?_⟩
      rw [same]
      omega
    · exact fading.block c e before

theorem fading_command (fading : Fading window blocking w) (found : w.calls p = some x) :
    Fading window blocking (w.move throttler (.step p now)) := by
  have bounded := fading.calls p x found
  cases x with
  | incrHits => exact fading_incrHits fading found
  | expireHits => exact fading_expireHits fading found
  | setBlock => exact fading_setBlock fading found
  | increment d =>
    simp only [World.move,found,throttler,command]
    refine fading_stay fading found (fun _ no => by cases no) ?_
    intro y last
    split at last
    · cases last; trivial
    · cases last; exact bounded
  | getTtl d hits =>
    simp only [World.move,found,throttler,command]
    refine fading_stay fading found (fun _ no => by cases no) ?_
    intro y last
    split at last
    · rename_i full
      cases last
      refine ⟨?_,bounded.2⟩
      have positive := full.2
      simp only [Increment.blockSeconds]
      omega
    · cases last; trivial
  | getBlock | returned | thrown =>
    simp only [World.move,found,throttler,command]
    exact fading_stay fading found (fun _ no => by cases no) (by intro y last; cases last; trivial)

theorem fading_move (fading : Fading window blocking w) (live : w.Live) (arms : Arms (w,m))
    (spawns : ∀ x, m = .spawn x → ∃ c, x = .increment c ∧ c.ttlSeconds ≤ window c.hitsKey ∧
      c.blockSeconds ≤ blocking c.blockKey) : Fading window blocking (w.move throttler m) := by
  cases m with
  | step p now =>
    cases found : w.calls p with
    | some x => exact fading_command fading found
    | none =>
      simp only [World.move,found]
      exact fading
  | spawn x =>
    obtain ⟨c,call,bounded⟩ := spawns x rfl
    subst call
    have spawned : Fading window blocking (w.goto w.spawned (some (.increment c))) := by
      refine fading_goto fading ?_ (by intro y last; cases last; exact bounded)
      intro d at_p
      exact Nat.lt_irrefl _ (live _ _ at_p)
    exact ⟨spawned.hits,spawned.block,spawned.calls⟩
  | fail p =>
    simp only [World.move]
    cases found : w.calls p with
    | none => exact fading
    | some x =>
      refine fading_stay fading found (fun d same => (arms p d (same ▸ found)).1 rfl) ?_
      intro y last
      cases last
      cases x <;> trivial
  | stop p =>
    simp only [World.move]
    cases found : w.calls p with
    | none =>
      have still : w.goto p none = w := by
        simp only [World.goto,← found,Function.update_eq_self]
      rw [still]
      exact fading
    | some x => exact fading_stay fading found (fun d same => (arms p d (same ▸ found)).2 rfl) (fun _ no => by cases no)
  | pass ms =>
    simp only [World.move]
    refine ⟨?_,?_,fading.calls⟩
    · intro c e found
      rcases fading.hits c e (find_pass found) with ⟨t,due,bound⟩ | unarmed
      · exact .inl ⟨t,due,by simp only [Store.pass]; omega⟩
      · exact .inr unarmed
    · intro c e found
      obtain ⟨t,due,bound⟩ := fading.block c e (find_pass found)
      exact ⟨t,due,by simp only [Store.pass]; omega⟩

end Fade

def Over : Point → Prop
  | .returned _ | .thrown => True
  | _ => False

instance : DecidablePred Over := fun x => by cases x <;> first | exact isTrue trivial | exact isFalse id

-- What a client of the throttler finds when no call is in progress: its counter goes
-- by itself, and with it the block, so that a call made later is let through.
structure Forgotten (window blocking : String → Nat) (w : Throttling) : Prop where
  expires : ∀ c e, w.store.find (Increment.hitsKey c) = some e →
    ∃ t, e.expiresAt = some t ∧ t ≤ w.store.clock+window c.hitsKey*1000
  ttl : ∀ c, w.store.ttl (Increment.hitsKey c) ≤ window c.hitsKey
  admitted : ∀ (c : Increment) ms now, 0 < c.limit → window c.hitsKey*1000 < ms → blocking c.blockKey*1000 < ms →
    ∃ record, (w.run throttler ([.pass ms,.spawn (.increment c)] ++ List.replicate 4 (.step w.spawned now))).calls w.spawned =
      some (.returned record) ∧ record.isBlocked = false

theorem run_command {w : Throttling} (now : Int) (n : Nat) (found : w.calls p = some x) (given : command x now w.store = (store,y)) :
    ∃ w' : Throttling, w.run throttler (List.replicate (n+1) (.step p now)) = w'.run throttler (List.replicate n (.step p now)) ∧
      w'.calls p = some y ∧ w'.store = store := by
  refine ⟨{w.goto p (some y) with store := store},?_,goto_self,rfl⟩
  rw [List.replicate_succ,World.run_cons]
  simp only [World.move,found,throttler,given]

theorem admitted_alone {w : Throttling} (found : w.calls p = some (.increment c)) (unblocked : w.store.find c.blockKey = none)
    (absent : w.store.find c.hitsKey = none) (room : 0 < c.limit) :
    ∃ record, (w.run throttler (List.replicate 4 (.step p now))).calls p = some (.returned record) ∧
      record.isBlocked = false := by
  obtain ⟨w1,run,at_incr,store⟩ := run_command now 3 found
    (show command (.increment c) now w.store = (w.store,.incrHits c) by simp [command,keyExists,unblocked])
  rw [run]
  obtain ⟨w2,run,at_expire,_⟩ := run_command now 2 at_incr
    (show command (.incrHits c) now w1.store = (w1.store.put c.hitsKey ⟨.number 1,none⟩,.expireHits c) by
      simp [command,incr,store,absent])
  rw [run]
  obtain ⟨w3,run,at_ttl,_⟩ := run_command now 1 at_expire rfl
  rw [run]
  have within : ¬((1 : Int) > c.limit ∧ c.blockDuration > 0) := by omega
  obtain ⟨w4,run,returned,_⟩ := run_command now 0 at_ttl
    (show command (.getTtl c 1) now w3.store = (w3.store,.returned ⟨1,if w3.store.ttl c.hitsKey > 0
      then w3.store.ttl c.hitsKey else c.ttlSeconds,false,some 0⟩) by simp only [command,if_neg within])
  rw [run]
  exact ⟨_,returned,rfl⟩

theorem counters_forgotten (window blocking : String → Nat) (now : Nat) (moves : List ThrottleMove)
    (spawns : ∀ x, .spawn x ∈ moves → ∃ c, x = .increment c ∧ c.ttlSeconds ≤ window c.hitsKey ∧
      c.blockSeconds ≤ blocking c.blockKey)
    (arms : ∀ made ∈ (World.open (Store.empty now)).trace throttler moves, Arms made)
    (idle : ∀ p x, ((World.open (Store.empty now)).run throttler moves).calls p = some x → Over x) :
    Forgotten window blocking ((World.open (Store.empty now)).run throttler moves) := by
  have fading : Fading window blocking ((World.open (Store.empty now)).run throttler moves) := by
    have start : Fading window blocking (World.open (Store.empty now)) ∧ (World.open (Store.empty now) : Throttling).Live := by
      refine ⟨⟨?_,?_,nofun⟩,nofun⟩
      · intro c e found
        cases (find_some.mp found).1
      · intro c e found
        cases (find_some.mp found).1
    refine (run_keeps throttler (fun w => Fading window blocking w ∧ w.Live) moves start ?_).1
    intro made member ⟨before,live⟩
    refine ⟨fading_move before live (arms made member) ?_,live_move live⟩
    intro x call
    exact spawns x (call ▸ mem_trace throttler member)
  generalize (World.open (Store.empty now)).run throttler moves = w at idle fading
  have expires : ∀ c e, w.store.find (Increment.hitsKey c) = some e →
      ∃ t, e.expiresAt = some t ∧ t ≤ w.store.clock+window c.hitsKey*1000 := by
    intro c e found
    rcases fading.hits c e found with armed | ⟨_,p,d,at_p,_⟩
    · exact armed
    · exact (idle p _ at_p).elim
  refine ⟨expires,?_,?_⟩
  · intro c
    unfold ttl
    split
    · omega
    · rename_i e found
      obtain ⟨t,due,bound⟩ := expires c e found
      rw [due]
      dsimp only
      omega
  · intro c ms now room past free
    have absent : (w.store.pass ms).find c.hitsKey = none := by
      refine find_over ?_
      intro e found
      obtain ⟨t,due,bound⟩ := expires c e found
      exact ⟨t,due,by omega⟩
    have unblocked : (w.store.pass ms).find c.blockKey = none := by
      refine find_over ?_
      intro e found
      obtain ⟨t,due,bound⟩ := fading.block c e found
      exact ⟨t,due,by omega⟩
    rw [World.run_append]
    exact admitted_alone goto_self unblocked absent room

-- A window passes while the calls of a burst are answered, and a call that only reads is stopped.
def calmMoves : List ThrottleMove :=
  List.replicate 3 (.spawn (.increment burst)) ++ hurried 2 5 ++ hurried 0 2 ++ [.stop 0] ++ hurried 1 1 ++ [.fail 1]

def arms (made : Throttling × ThrottleMove) : Bool :=
  match made.2 with
  | .fail p | .stop p => match made.1.calls p with
    | some (.expireHits _) => false
    | _ => true
  | _ => true

theorem arms_parts (checked : arms made = true) : Arms made := by
  intro p c found
  obtain ⟨w,m⟩ := made
  dsimp only at found ⊢
  constructor
  · intro same
    subst same
    simp [arms,found] at checked
  · intro same
    subst same
    simp [arms,found] at checked

theorem counters_forgotten_calm : Forgotten (fun _ => 900) (fun _ => 900)
    ((World.open (Store.empty 0)).run throttler calmMoves) ∧
    (((World.open (Store.empty 0)).run throttler calmMoves).store.find burst.hitsKey).isSome = true := by
  have bounded : (calmMoves.all fun m => match m with
    | .spawn x => x = .increment burst
    | _ => true) = true := by decide +kernel
  have armed : (((World.open (Store.empty 0)).trace throttler calmMoves).all arms) = true := by decide +kernel
  have idle : ∀ p < 3, ((((World.open (Store.empty 0)).run throttler calmMoves).calls p).all fun x => decide (Over x)) = true := by
    decide +kernel
  refine ⟨counters_forgotten _ _ 0 calmMoves ?_ ?_ ?_,by decide +kernel⟩
  · intro x member
    exact ⟨burst,of_decide_eq_true (List.all_eq_true.mp bounded _ member),by decide,by decide⟩
  · intro made member
    exact arms_parts (List.all_eq_true.mp armed made member)
  · intro p x found
    have there := idle p (live_run _ _ _ p x found)
    rw [found] at there
    exact of_decide_eq_true there

-- A request is cut off after its INCR: the counter stays, and every later call is refused.
def single : Increment := {burst with limit := 1}

def cutOff : List ThrottleMove := [.spawn (.increment single)] ++ hurried 0 2 ++ [.stop 0]

theorem refused_alone {w : Throttling} (found : w.calls p = some (.increment c)) (unblocked : w.store.find c.blockKey = none)
    (present : w.store.find c.hitsKey = some ⟨.number n,due⟩) (full : (c.limit : Int) ≤ n) (counts : 0 < n)
    (blocks : 0 < c.blockDuration) :
    ∃ record, (w.run throttler (List.replicate 4 (.step p now))).calls p = some (.returned record) ∧
      record.isBlocked = true := by
  obtain ⟨w1,run,at_incr,store⟩ := run_command now 3 found
    (show command (.increment c) now w.store = (w.store,.incrHits c) by simp [command,keyExists,unblocked])
  rw [run]
  have later : n+1 ≠ 1 := by omega
  obtain ⟨w2,run,at_ttl,_⟩ := run_command now 2 at_incr
    (show command (.incrHits c) now w1.store = (w1.store.put c.hitsKey ⟨.number (n+1),due⟩,.getTtl c (n+1)) by
      simp only [command,incr,store,present,Value.read,if_neg later])
  rw [run]
  have past : n+1 > (c.limit : Int) ∧ c.blockDuration > 0 := ⟨by omega,blocks⟩
  obtain ⟨w3,run,at_set,_⟩ := run_command now 1 at_ttl
    (show command (.getTtl c (n+1)) now w2.store = (w2.store,.setBlock c (n+1) (if w2.store.ttl c.hitsKey > 0
      then w2.store.ttl c.hitsKey else c.ttlSeconds) (now+c.blockDuration)) by simp only [command,if_pos past])
  rw [run]
  obtain ⟨w4,run,returned,_⟩ := run_command now 0 at_set rfl
  rw [run]
  exact ⟨_,returned,rfl⟩

theorem counters_forgotten_cut : (∀ p, ((World.open (Store.empty 0)).run throttler cutOff).calls p = none) ∧
    ((World.open (Store.empty 0)).run throttler cutOff).store.find single.hitsKey = some ⟨.number 1,none⟩ ∧
    ∀ ms now, ∃ record, (((World.open (Store.empty 0)).run throttler cutOff).run throttler
      ([.pass ms,.spawn (.increment single)] ++ List.replicate 4 (.step 1 now))).calls 1 = some (.returned record) ∧
        record.isBlocked = true := by
  have stays : ((World.open (Store.empty 0)).run throttler cutOff).store.entries single.hitsKey = some ⟨.number 1,none⟩ := by
    decide +kernel
  have unblocked : ((World.open (Store.empty 0)).run throttler cutOff).store.entries single.blockKey = none := by
    decide +kernel
  have gone : ((World.open (Store.empty 0)).run throttler cutOff).calls 0 = none := by decide +kernel
  have spawned : ((World.open (Store.empty 0)).run throttler cutOff).spawned = 1 := by decide +kernel
  have live := live_run throttler (Store.empty 0) cutOff
  generalize (World.open (Store.empty 0)).run throttler cutOff = w at *
  refine ⟨?_,find_some.mpr ⟨stays,nofun⟩,?_⟩
  · intro p
    cases found : w.calls p with
    | none => rfl
    | some x =>
      have known := live p x found
      rw [spawned] at known
      rw [Nat.lt_one_iff.mp known,gone] at found
      cases found
  · intro ms now
    rw [World.run_append]
    have waiting : (w.run throttler [.pass ms,.spawn (.increment single)]).calls 1 = some (.increment single) := by
      rw [← spawned]
      exact goto_self
    refine refused_alone waiting ?_ (find_some.mpr (show w.store.entries single.hitsKey = some ⟨.number 1,none⟩ ∧ _ from
      ⟨stays,nofun⟩)) (by decide) (by decide) (by decide)
    have absent : (w.store.pass ms).find single.blockKey = none := by
      unfold find
      rw [show (w.store.pass ms).entries single.blockKey = none from unblocked]
      rfl
    exact absent

end RedisThrottlerStorage
end MesyafMarket
