import MesyafMarket.Relational.Alone
import MesyafMarket.Dispatch.Runs

namespace MesyafMarket
open Relational

-- What generateToken signs.
structure JwtPayload where
  sub : Nat
  email : String
  role : Role
  delivererId : Option Nat
  deriving DecidableEq

structure AuthenticatedUser where
  id : Nat
  email : String
  role : Role
  delivererId : Option Nat
  deriving DecidableEq

-- The properties of `req.user` that hold a number, by name. The controllers read
-- them untyped: a property that the object lacks is `undefined`.
def AuthenticatedUser.number (user : AuthenticatedUser) : String → Option Nat
  | "id" => some user.id
  | "delivererId" => user.delivererId
  | _ => none

def JwtStrategy.validate (payload : JwtPayload) : AuthenticatedUser :=
  ⟨payload.sub,payload.email,payload.role,payload.delivererId⟩

-- A request as the server receives it has no `user`; a guard may set it.
structure Request where
  bearer : Option JwtPayload
  user : Option AuthenticatedUser

def Request.carrying (payload : JwtPayload) : Request := ⟨some payload,none⟩

-- How a request fails: in a guard, on a property of `undefined`, in Prisma's check
-- of its arguments, or in the service.
inductive Failure where
  | unauthorized (message : String)
  | forbiddenResource
  | typeError (message : String)
  | validation
  | service (e : Err)
  deriving DecidableEq

def authGuard (req : Request) : Except Failure Request :=
  match req.bearer with
  | some payload => .ok {req with user := some (JwtStrategy.validate payload)}
  | none => .error (.unauthorized "Unauthorized")

def RolesGuard.canActivate (requiredRoles : List Role) (req : Request) : Except Failure Request :=
  match req.user with
  | none => .error (.unauthorized "User not authenticated")
  | some user => if user.role ∈ requiredRoles then .ok req else .error .forbiddenResource

-- `req.user.key`, where `req.user` may itself be `undefined`.
def Request.userNumber (req : Request) (key : String) : Except Failure (Option Nat) :=
  match req.user with
  | some user => .ok (user.number key)
  | none => .error (.typeError s!"Cannot read properties of undefined (reading '{key}')")

-- A value that Prisma needs to find a unique row.
def uniqueId : Option Nat → Except Failure Nat
  | some id => .ok id
  | none => .error .validation

-- Prisma drops a filter whose value is `undefined`.
def filtered [DecidableEq α] (value : Option α) (column : α) : Bool := value.all fun wanted => column = wanted

@[simp] theorem filtered_none [DecidableEq α] (column : α) : filtered none column = true := rfl
@[simp] theorem filtered_some [DecidableEq α] (wanted column : α) : filtered (some wanted) column = decide (column = wanted) := rfl

@[simp] theorem authGuard_carrying (payload : JwtPayload) :
    authGuard (.carrying payload) = .ok ⟨some payload,some (JwtStrategy.validate payload)⟩ := rfl

-- A handler that succeeds has got past each of its checks.
theorem handled_bind {x : Except Failure α} {f : α → Except Failure β} :
    (x >>= f) = .ok r ↔ ∃ a, x = .ok a ∧ f a = .ok r := by
  cases x with
  | error e => exact ⟨nofun,fun ⟨_,thrown,_⟩ => nomatch thrown⟩
  | ok a => exact ⟨fun ran => ⟨a,rfl,ran⟩,fun ⟨_,same,ran⟩ => by cases same; exact ran⟩

@[simp] theorem throw_handled {e : Failure} {a : α} : (throw e : Except Failure α) = .ok a ↔ False := ⟨nofun,False.elim⟩

@[simp] theorem pure_handled {a b : α} : (pure a : Except Failure α) = .ok b ↔ a = b := Except.ok.injEq a b ▸ .rfl

-- `if (refused) throw ..;` before the rest of a handler.
theorem handled_unless {refused : Prop} [Decidable refused] {e : Failure} {f : PUnit → Except Failure α}
    {rest : Except Failure α} : (if refused then (throw e >>= f) else rest) = .ok a ↔ ¬refused ∧ rest = .ok a := by
  split
  · exact ⟨nofun,fun passed => absurd ‹refused› passed.1⟩
  · exact ⟨fun ran => ⟨‹_›,ran⟩,And.right⟩

-- The service calls that write run in the market; a failed request makes none.
def Answered (env : Env) (w : Market) (handled : Except Failure Proc) (last : Market) : Prop :=
  match handled with
  | .ok x => Ends (market env) w.spawned (w.start x) last
  | .error _ => last = w

end MesyafMarket
