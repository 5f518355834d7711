import MesyafMarket.DelivererRole
import MesyafMarket.Responses

namespace MesyafMarket
open Relational VendorService DelivererService

-- The user as findByEmail reads it, with the included deliverer profile.
def Records.tokenUser (r : Records) (i : Nat) (u : User) : TokenUser :=
  ⟨i,(r.users i).email,u.role,(delivererByUser r.db i).map Prod.fst⟩

-- `req.user` in a request that carries the token.
def AuthService.caller (user : TokenUser) : AuthenticatedUser :=
  JwtStrategy.validate ⟨user.id,user.email,user.role,user.delivererProfile⟩

inductive TimelineQuery where
  | order (orderId : Nat)
  | job (jobId : Nat)

namespace TimelineQuery

def Succeeds (scan : Scan) (r : Records) (caller : AuthenticatedUser) : TimelineQuery → Prop
  | order orderId => ∃ timeline, OrderTimelineQueryService.getOrderTimeline scan r orderId caller = .ok timeline
  | job jobId => ∃ timeline, JobTimelineQueryService.getJobTimeline scan r jobId caller = .ok timeline

-- Whose timeline it is, by the rows of the user.
def Owned (r : Records) (i : Nat) (u : User) : TimelineQuery → Prop
  | order orderId => ∃ o, r.db.rows .order orderId = some o ∧ (u.role = .admin ∨ (u.role = .customer ∧ o.customerId = i) ∨
      (u.role = .vendor ∧ (vendorByUser r.db i).map Prod.fst = some o.vendorId))
  | job jobId => ∃ job, r.db.rows .deliveryJob jobId = some job ∧ (u.role = .admin ∨
      ∃ d, (delivererByUser r.db i).map Prod.fst = some d ∧ job.delivererId = some d)

-- The roles that the controller lets through.
def admits (role : Role) : TimelineQuery → Bool
  | order _ => true
  | job _ => role ∈ [.deliverer,.admin]

-- A vendor asks about an order of the own shop, or a deliverer without a profile
-- about a job without a deliverer.
def Mistaken (r : Records) (i : Nat) (u : User) : TimelineQuery → Prop
  | order orderId => u.role = .vendor ∧
      ∃ o, r.db.rows .order orderId = some o ∧ (vendorByUser r.db i).map Prod.fst = some o.vendorId
  | job jobId => u.role = .deliverer ∧ delivererByUser r.db i = none ∧
      ∃ job, r.db.rows .deliveryJob jobId = some job ∧ job.delivererId = none

end TimelineQuery

section Access
variable {scan : Scan} {r : Records} {i : Nat} {u : User}

-- The token carries no vendor, so that the third check is always false.
theorem order_succeeds : (TimelineQuery.order o).Succeeds scan r (AuthService.caller (r.tokenUser i u)) ↔
    ∃ row, r.db.rows .order o = some row ∧ (u.role = .admin ∨ (u.role = .customer ∧ row.customerId = i)) := by
  have role : (AuthService.caller (r.tokenUser i u)).role = u.role := rfl
  have own : (AuthService.caller (r.tokenUser i u)).id = i := rfl
  have shopless : (AuthService.caller (r.tokenUser i u)).number "vendorId" = none := rfl
  simp only [TimelineQuery.Succeeds,OrderTimelineQueryService.getOrderTimeline,role,own,shopless]
  cases r.db.rows .order o with
  | none => simp
  | some row =>
    dsimp only
    constructor
    · rintro ⟨timeline,answered⟩
      split at answered
      · rename_i allowed
        refine ⟨row,rfl,?_⟩
        rcases allowed with admin | ⟨customer,same⟩ | ⟨_,none⟩
        · exact .inl admin
        · exact .inr ⟨customer,same.symm⟩
        · cases none
      · cases answered
    · rintro ⟨row',same,allowed⟩
      cases same
      rw [if_pos]
      · exact ⟨_,rfl⟩
      · rcases allowed with admin | ⟨customer,same⟩
        · exact .inl admin
        · exact .inr (.inl ⟨customer,same.symm⟩)

-- Null on both sides counts as equal.
theorem job_succeeds : (TimelineQuery.job j).Succeeds scan r (AuthService.caller (r.tokenUser i u)) ↔
    ∃ row, r.db.rows .deliveryJob j = some row ∧
      (u.role = .admin ∨ (delivererByUser r.db i).map Prod.fst = row.delivererId) := by
  have role : (AuthService.caller (r.tokenUser i u)).role = u.role := rfl
  have own : (AuthService.caller (r.tokenUser i u)).delivererId = (delivererByUser r.db i).map Prod.fst := rfl
  simp only [TimelineQuery.Succeeds,JobTimelineQueryService.getJobTimeline,role,own]
  cases r.db.rows .deliveryJob j with
  | none => simp
  | some row =>
    dsimp only
    constructor
    · rintro ⟨timeline,answered⟩
      split at answered
      · cases answered
      · rename_i allowed
        refine ⟨row,rfl,?_⟩
        by_cases admin : u.role = .admin
        · exact .inl admin
        · exact .inr (Decidable.byContradiction fun other => allowed ⟨admin,other⟩)
    · rintro ⟨row',same,allowed⟩
      cases same
      rw [if_neg]
      · exact ⟨_,rfl⟩
      · rintro ⟨other,differs⟩
        exact allowed.elim other differs

-- Access is ownership, but for what a vendor is refused and what a deliverer
-- without a profile is shown.
theorem timeline_access (scan : Scan) (r : Records) (i : Nat) (u : User) (query : TimelineQuery) :
    (query.admits u.role = true → (query.Succeeds scan r (AuthService.caller (r.tokenUser i u)) ↔ query.Owned r i u)) ↔
      ¬query.Mistaken r i u := by
  cases query with
  | order o =>
    rw [order_succeeds]
    constructor
    · rintro exact ⟨vendor,row,found,owned⟩
      obtain ⟨row',_,allowed⟩ := (exact rfl).mpr ⟨row,found,.inr (.inr ⟨vendor,owned⟩)⟩
      rw [vendor] at allowed
      rcases allowed with admin | ⟨customer,_⟩
      · cases admin
      · cases customer
    · intro right _
      constructor
      · rintro ⟨row,found,admin | customer⟩
        · exact ⟨row,found,.inl admin⟩
        · exact ⟨row,found,.inr (.inl customer)⟩
      · rintro ⟨row,found,admin | customer | ⟨vendor,owned⟩⟩
        · exact ⟨row,found,.inl admin⟩
        · exact ⟨row,found,.inr customer⟩
        · exact absurd ⟨vendor,row,found,owned⟩ right
  | job j =>
    rw [job_succeeds]
    constructor
    · rintro exact ⟨deliverer,profileless,row,found,unassigned⟩
      have shown := exact (by simp [TimelineQuery.admits,deliverer])
      obtain ⟨row',_,owned⟩ := shown.mp ⟨row,found,.inr (by rw [profileless,unassigned]; rfl)⟩
      rw [deliverer,profileless] at owned
      rcases owned with admin | ⟨_,none,_⟩
      · cases admin
      · cases none
    · intro right admitted
      constructor
      · rintro ⟨row,found,admin | same⟩
        · exact ⟨row,found,.inl admin⟩
        · refine ⟨row,found,?_⟩
          cases profile : delivererByUser r.db i with
          | some d => exact .inr ⟨d.1,rfl,by rw [← same,profile]; rfl⟩
          | none =>
            rw [profile] at same
            cases role : u.role with
            | admin => exact .inl rfl
            | deliverer => exact absurd ⟨role,profile,row,found,same.symm⟩ right
            | customer | vendor => simp [TimelineQuery.admits,role] at admitted
      · rintro ⟨row,found,admin | ⟨d,profile,named⟩⟩
        · exact ⟨row,found,.inl admin⟩
        · exact ⟨row,found,.inr (profile.trans named.symm)⟩

end Access

-- The vendor of the village asks about the order that the shop has got.
theorem timeline_refused : ¬∀ (scan : Scan) (r : Records) (i : Nat) (u : User) (query : TimelineQuery),
    r.db.rows .user i = some u → query.admits u.role = true →
      (query.Succeeds scan r (AuthService.caller (r.tokenUser i u)) ↔ query.Owned r i u) := by
  intro claim
  have vendor : (recordsOf orderPlaced).db.rows .user 1 = some ⟨.vendor,none,false⟩ := by decide +kernel
  have placed : ((recordsOf orderPlaced).db.rows .order 0).map Order.vendorId = some 0 := by decide +kernel
  have shop : (vendorByUser (recordsOf orderPlaced).db 1).map Prod.fst = some 0 := by decide +kernel
  obtain ⟨o,found,own⟩ := Option.map_eq_some_iff.mp placed
  have exactly := claim ⟨id,fun rows => .refl rows⟩ (recordsOf orderPlaced) 1 _ (.order 0) vendor rfl
  rw [order_succeeds] at exactly
  obtain ⟨_,_,admin | ⟨customer,_⟩⟩ := exactly.mpr ⟨o,found,.inr (.inr ⟨rfl,by rw [shop,own]⟩)⟩
  · cases admin
  · cases customer

end MesyafMarket
