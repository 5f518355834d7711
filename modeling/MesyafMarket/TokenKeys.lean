import MesyafMarket.Gateways
import MesyafMarket.Http

namespace MesyafMarket
open VendorService DelivererService

-- The JWT library: a token verifies with the secret that signed it and with no other.
structure Jwt where
  Signed : Type
  sign : String → JwtPayload → Signed
  verify : Option String → Signed → Option JwtPayload
  verify_sign : ∀ key secret payload, verify key (sign secret payload) = if key = some secret then some payload else none

-- The JwtModule that a class's JwtService comes from: the one that AuthModule
-- registers and exports, or the class as such, which has no options.
inductive JwtImport where
  | registered | bare

-- `process.env.JWT_SECRET || 'supersecretkey'`.
def AuthModule.secret (JWT_SECRET : Option String) : String :=
  match JWT_SECRET with
  | some secret => if secret = "" then "supersecretkey" else secret
  | none => "supersecretkey"

def JwtImport.secret (JWT_SECRET : Option String) : JwtImport → Option String
  | registered => some (AuthModule.secret JWT_SECRET)
  | bare => none

-- UsersModule and VendorModule import JwtModule, DelivererModule imports AuthModule.
def Space.jwtImport : Space → JwtImport
  | customer | vendor => .bare
  | deliverer => .registered

-- The strategy's constructor throws on a missing or empty secretOrKey.
def JwtStrategy.secretOrKey (JWT_SECRET : Option String) : Option String := JWT_SECRET.filter (· ≠ "")

-- The columns of a user and of the included profile that generateToken reads.
structure TokenUser where
  id : Nat
  email : String
  role : Role
  delivererProfile : Option Nat

section Verifiers
variable (jwt : Jwt) (JWT_SECRET : Option String)

def AuthService.generateToken (user : TokenUser) : jwt.Signed :=
  jwt.sign (AuthModule.secret JWT_SECRET) ⟨user.id,user.email,user.role,user.delivererProfile⟩

def JwtStrategy.authenticate (token : jwt.Signed) : Option AuthenticatedUser :=
  (jwt.verify (JwtStrategy.secretOrKey JWT_SECRET) token).map JwtStrategy.validate

-- `jwtService.verify` in handleConnection.
def Space.verify (token : jwt.Signed) (space : Space) : Token :=
  match jwt.verify (space.jwtImport.secret JWT_SECRET) token with
  | some payload => .payload payload.sub payload.role
  | none => .invalid

end Verifiers

def Space.role : Space → Role
  | customer => .customer
  | vendor => .vendor
  | deliverer => .deliverer

-- The user as whom handleConnection goes on once it has checked the token and found
-- the profile that it looks for.
def Space.welcomes (env : Env) (v : Database) (hub : Clients) (client : Nat) (token : Token) : Space → Option Nat
  | customer => match (Handler.resume env v hub (.customerConnection client token)).next with
    | .call (.markPresence .markOnline sub) _ => some sub
    | _ => none
  | vendor => match (Handler.resume env v hub (.vendorConnection client token)).next with
    | .call (.markPresence .markOnline sub) _ => match (Handler.resume env v hub (.vendorProfile client sub)).next with
      | .await (.vendorJoin _ userId _) => some userId
      | _ => none
    | _ => none
  | deliverer => match (Handler.resume env v hub (.delivererConnection client token)).next with
    | .await (.delivererProfile _ sub) => match (Handler.resume env v hub (.delivererProfile client sub)).next with
      | .await (.delivererLastSeen _ userId _) => some userId
      | _ => none
    | _ => none

-- The user's token is good for the HTTP requests and for the user's own namespace,
-- with the user's id and role there, and for no other namespace.
structure TokenAccepted (jwt : Jwt) (JWT_SECRET : Option String) (env : Env) (v : Database) (hub : Clients)
    (client : Nat) (user : TokenUser) : Prop where
  strategy : ∃ authenticated, JwtStrategy.authenticate jwt JWT_SECRET (AuthService.generateToken jwt JWT_SECRET user) =
    some authenticated ∧ authenticated.id = user.id ∧ authenticated.role = user.role
  own : ∀ space : Space, space.role = user.role →
    space.verify jwt JWT_SECRET (AuthService.generateToken jwt JWT_SECRET user) = .payload user.id user.role ∧
    space.welcomes env v hub client (space.verify jwt JWT_SECRET (AuthService.generateToken jwt JWT_SECRET user)) = some user.id
  other : ∀ space : Space, space.role ≠ user.role →
    space.welcomes env v hub client (space.verify jwt JWT_SECRET (AuthService.generateToken jwt JWT_SECRET user)) = none

section Tokens
variable {jwt : Jwt} {JWT_SECRET : Option String} {env : Env} {v : Database} {hub : Clients} {client : Nat}
  {user : TokenUser}

theorem strategy_accepts : (∃ authenticated,
      JwtStrategy.authenticate jwt JWT_SECRET (AuthService.generateToken jwt JWT_SECRET user) = some authenticated ∧
      authenticated.id = user.id ∧ authenticated.role = user.role) ↔
    ∃ secret, JWT_SECRET = some secret ∧ secret ≠ "" := by
  unfold JwtStrategy.authenticate AuthService.generateToken
  rw [jwt.verify_sign]
  cases JWT_SECRET with
  | none => simp [JwtStrategy.secretOrKey]
  | some secret =>
    by_cases empty : secret = ""
    · simp [JwtStrategy.secretOrKey,empty]
    · simp [JwtStrategy.secretOrKey,AuthModule.secret,empty,JwtStrategy.validate]

theorem verify_registered {space : Space} (registered : space.jwtImport = .registered) :
    space.verify jwt JWT_SECRET (AuthService.generateToken jwt JWT_SECRET user) = .payload user.id user.role := by
  unfold Space.verify AuthService.generateToken
  rw [jwt.verify_sign,registered]
  simp [JwtImport.secret]

theorem verify_bare {space : Space} (bare : space.jwtImport = .bare) :
    space.verify jwt JWT_SECRET (AuthService.generateToken jwt JWT_SECRET user) = .invalid := by
  unfold Space.verify AuthService.generateToken
  rw [jwt.verify_sign,bare]
  simp [JwtImport.secret]

theorem welcomes_invalid (space : Space) : space.welcomes env v hub client .invalid = none := by
  cases space <;> rfl

theorem welcomes_other {space : Space} (differs : space.role ≠ role) :
    space.welcomes env v hub client (.payload sub role) = none := by
  cases space <;> cases role <;> first | rfl | exact absurd rfl differs

theorem welcomes_deliverer : Space.deliverer.welcomes env v hub client (.payload sub .deliverer) = some sub ↔
    (delivererByUser v sub).isSome = true := by
  have goes : (Handler.resume env v hub (.delivererConnection client (.payload sub .deliverer))).next =
      .await (.delivererProfile client sub) := rfl
  simp only [Space.welcomes,goes,Handler.resume]
  cases delivererByUser v sub <;> simp

-- A server with a JWT_SECRET accepts what it signs for administrators and for
-- deliverers that have a profile, and nothing that it signs for anyone else.
theorem token_accepted (jwt : Jwt) (JWT_SECRET : Option String) (env : Env) (v : Database) (hub : Clients) (client : Nat)
    (user : TokenUser) :
    TokenAccepted jwt JWT_SECRET env v hub client user ↔
      (∃ secret, JWT_SECRET = some secret ∧ secret ≠ "") ∧
        (user.role = .admin ∨ user.role = .deliverer ∧ (delivererByUser v user.id).isSome = true) := by
  constructor
  · rintro ⟨strategy,own,_⟩
    refine ⟨strategy_accepts.mp strategy,?_⟩
    cases role : user.role with
    | admin => exact .inl rfl
    | customer =>
      have verified := (own .customer (by rw [role]; rfl)).1
      rw [verify_bare rfl] at verified
      cases verified
    | vendor =>
      have verified := (own .vendor (by rw [role]; rfl)).1
      rw [verify_bare rfl] at verified
      cases verified
    | deliverer =>
      have welcomed := (own .deliverer (by rw [role]; rfl)).2
      rw [verify_registered rfl,role] at welcomed
      exact .inr ⟨rfl,welcomes_deliverer.mp welcomed⟩
  · rintro ⟨set_,privileged⟩
    refine ⟨strategy_accepts.mpr set_,?_,?_⟩
    · intro space same
      rcases privileged with admin | ⟨deliverer,profile⟩
      · rw [admin] at same
        cases space <;> cases same
      · rw [deliverer] at same
        cases space with
        | customer | vendor => cases same
        | deliverer =>
          rw [verify_registered rfl,deliverer]
          exact ⟨rfl,welcomes_deliverer.mpr profile⟩
    · intro space differs
      cases wired : space.jwtImport with
      | registered => rw [verify_registered wired]; exact welcomes_other differs
      | bare => rw [verify_bare wired]; exact welcomes_invalid space

end Tokens

-- A token that is its payload beside the secret.
def openJwt : Jwt where
  Signed := String × JwtPayload
  sign := Prod.mk
  verify key token := if key = some token.1 then some token.2 else none
  verify_sign _ _ _ := rfl

-- The customer of the village logs in, and the customer namespace does not take the token.
theorem customer_token_refused : ¬∀ (jwt : Jwt) JWT_SECRET env v hub client (user : TokenUser),
    TokenAccepted jwt JWT_SECRET env v hub client user := by
  intro claim
  obtain ⟨_,own,_⟩ := claim openJwt (some "change_me") village morning.db ⟨[]⟩ 0 ⟨0,"customer",.customer,none⟩
  have verified := (own .customer rfl).1
  rw [verify_bare rfl] at verified
  cases verified

end MesyafMarket
