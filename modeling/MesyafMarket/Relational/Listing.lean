import Mathlib.Data.Multiset.Filter
import Mathlib.Data.Multiset.MapFold
import MesyafMarket.Relational.Db

namespace Relational
variable {Tab : Type} {Row : Tab → Type}

-- The answer of a query without an order: the rows, in no particular sequence.
def Db.listing (v : Db Row) (t : Tab) (p : Nat → Row t → Bool) : Multiset (Nat × Row t) := v.matching t p

@[simp] theorem Db.mem_listing (v : Db Row) {p : Nat → Row t → Bool} :
    (i,row) ∈ v.listing t p ↔ v.rows t i = some row ∧ p i row = true := by
  simp [Db.listing,Db.mem_matching]

theorem Db.listing_nodup (v : Db Row) {p : Nat → Row t → Bool} : (v.listing t p).Nodup :=
  Multiset.coe_nodup.mpr ((List.Nodup.of_map Prod.fst (v.all_keys_nodup t)).filter _)

theorem Db.listing_eq {a b : Db Row} {p q : Nat → Row t → Bool} :
    a.listing t p = b.listing t q ↔ ∀ i row, (a.rows t i = some row ∧ p i row = true) ↔
      (b.rows t i = some row ∧ q i row = true) := by
  rw [Multiset.Nodup.ext a.listing_nodup b.listing_nodup]
  simp only [Prod.forall,Db.mem_listing]

-- What a listing includes with each row comes to the same when the rows are the
-- same and it is the same for each of them.
theorem Db.listing_map {a b : Db Row} {p q : Nat → Row t → Bool} {f g : Nat × Row t → β}
    (rows : ∀ i row, (a.rows t i = some row ∧ p i row = true) ↔ (b.rows t i = some row ∧ q i row = true))
    (included : ∀ i row, a.rows t i = some row → p i row = true → f (i,row) = g (i,row)) :
    (a.listing t p).map f = (b.listing t q).map g := by
  rw [← Db.listing_eq.mpr rows]
  apply Multiset.map_congr rfl
  intro entry member
  obtain ⟨found,hit⟩ := a.mem_listing.mp member
  exact included _ _ found hit

-- A scan goes by the keys, so that equal tables are listed alike.
theorem Db.matching_sorted (v : Db Row) {p : Nat → Row t → Bool} : (v.matching t p).Pairwise fun a b => a.1 < b.1 := by
  refine List.Pairwise.filter _ (List.pairwise_filterMap.mpr (List.pairwise_lt_range.imp ?_))
  intro i j before a at_i b at_j
  obtain ⟨_,_,rfl⟩ := Option.map_eq_some_iff.mp at_i
  obtain ⟨_,_,rfl⟩ := Option.map_eq_some_iff.mp at_j
  exact before

theorem Db.matching_congr {a b : Db Row} {p q : Nat → Row t → Bool}
    (rows : ∀ i row, (a.rows t i = some row ∧ p i row = true) ↔ (b.rows t i = some row ∧ q i row = true)) :
    a.matching t p = b.matching t q := by
  have same : (a.matching t p).Perm (b.matching t q) := Multiset.coe_eq_coe.mp (Db.listing_eq.mpr rows)
  refine same.eq_of_pairwise ?_ a.matching_sorted b.matching_sorted
  intro x y _ _ before after
  omega

end Relational
