import MesyafMarket.CacheCoherence
import MesyafMarket.Relational.Paging

namespace MesyafMarket
open Relational VendorService ProductService Paging

-- The products of all shops, or those of one.
inductive Listing where
  | all
  | vendor (vendorId : Nat)

namespace Listing

def read (filter : ProductFilterDto) : Listing → ProductRead
  | all => .getAllProducts filter
  | vendor vendorId => .getVendorProducts vendorId filter

def rows (contains : Contains) (r : Records) (filter : ProductFilterDto) : Listing → List (Nat × Product)
  | all => r.db.matching .product (listedAnywhere contains r filter)
  | vendor vendorId => r.db.matching .product (listedAt contains r vendorId filter)

-- `orderBy`: the newest first in a shop, and by the id, as no other is given, for all shops.
def orderBy (r : Records) : Listing → Nat × Product → Nat × Product → Bool
  | all => fun a b => a.1 ≤ b.1
  | vendor _ => fun a b => (r.products b.1).createdAt ≤ (r.products a.1).createdAt

def Opened (r : Records) : Listing → Prop
  | all => True
  | vendor vendorId => trades r vendorId = true

-- The rows as one query gives them.
def sequence (contains : Contains) (scan : Scan) (r : Records) (filter : ProductFilterDto) :
    Listing → List (Nat × Product)
  | all => rows contains r filter all
  | vendor vendorId => (scan.order (rows contains r filter (vendor vendorId))).mergeSort (orderBy r (vendor vendorId))

end Listing

def ProductFilterDto.paged (filter : ProductFilterDto) (page limit : Nat) : ProductFilterDto :=
  {filter with page := some page,limit := some limit}

-- The answer for page `n+1`, computed from the rows.
def Listing.answer (contains : Contains) (r : Records) (filter : ProductFilterDto) (limit : Nat) (listing : Listing)
    (scan : Scan) (n : Nat) : Except Failure Json :=
  ((listing.read (filter.paged (n+1) limit)).answer contains scan r (.empty 0)).1

def listedIds : Except Failure Json → List (Option Json)
  | .ok answer => answer.products.map (Json.field "id")
  | .error _ => []

-- The pages list every row once and nothing else, and each says how many there are, as
-- the first one does where there are none.
structure Partitioned (rows : List (Nat × Product)) (limit : Nat) (answer : Nat → Except Failure Json) : Prop where
  counted : ∀ n, n = 0 ∨ n < pages rows.length limit →
    ∃ json, answer n = .ok json ∧ (json.field "data").bind (Json.field "count") = some (.nat rows.length)
  listed : ((List.range (pages rows.length limit)).flatMap fun n => listedIds (answer n)).Perm
    (rows.map fun entry => some (.nat entry.1))

-- The query for page `n+1` is one that the database takes.
def ProductFilterDto.Taken (filter : ProductFilterDto) (limit n : Nat) : Prop :=
  acceptable filter = true ∧ limit < 2^63 ∧ n*limit < 2^63

-- No page of a shop ends among products of one time; the order by the id has no ties.
def Listing.Apart (contains : Contains) (r : Records) (filter : ProductFilterDto) (limit : Nat) : Listing → Prop
  | all => True
  | vendor vendorId => Unsplit ((vendor vendorId).orderBy r) limit ((vendor vendorId).rows contains r filter)

section Pages
variable {contains : Contains} {scan : Scan} {r : Records} {filter : ProductFilterDto} {limit : Nat}

theorem orderBy_total (listing : Listing) (a b : Nat × Product) : (listing.orderBy r a b || listing.orderBy r b a) = true := by
  cases listing <;> simpa [Listing.orderBy] using Nat.le_total ..

theorem orderBy_trans (listing : Listing) (a b c : Nat × Product) (first : listing.orderBy r a b = true)
    (second : listing.orderBy r b c = true) : listing.orderBy r a c = true := by
  cases listing <;> simp only [Listing.orderBy,decide_eq_true_eq] at first second ⊢ <;> omega

theorem sequence_permitted (contains : Contains) (scan : Scan) (r : Records) (filter : ProductFilterDto) (listing : Listing) :
    Permitted (listing.orderBy r) (listing.rows contains r filter) (listing.sequence contains scan r filter) := by
  cases listing with
  | all =>
    have ids : (Listing.all.rows contains r filter).Pairwise fun a b => a.1 < b.1 :=
      Db.matching_sorted (t := Tab.product) r.db
    exact ⟨.refl _,ids.imp fun earlier => decide_eq_true (Nat.le_of_lt earlier)⟩
  | vendor vendorId =>
    exact permitted_mergeSort (orderBy_total _) (orderBy_trans _) (scan.perm _)

theorem apart_unsplit (listing : Listing) : listing.Apart contains r filter limit ↔
    Unsplit (listing.orderBy r) limit (listing.rows contains r filter) := by
  cases listing with
  | all =>
    refine iff_of_true trivial (unsplit_strict (orderBy_total .all) ?_ ?_)
    · exact List.Nodup.of_map Prod.fst ((r.db.all_keys_nodup .product).sublist (List.filter_sublist.map _))
    · intro a at_a b at_b below above
      simp only [Listing.orderBy,decide_eq_true_eq] at below above
      have same : a.1 = b.1 := Nat.le_antisymm below above
      obtain ⟨row,_⟩ := r.db.mem_matching.mp at_a
      obtain ⟨row',_⟩ := r.db.mem_matching.mp at_b
      rw [same] at row
      exact Prod.ext same (Option.some.inj (row.symm.trans row'))
  | vendor vendorId => exact Iff.rfl

-- The database may give the products of a shop in any sequence that the order permits.
theorem permitted_sequence {l : List (Nat × Product)}
    (permitted : Permitted ((Listing.vendor vendorId).orderBy r) ((Listing.vendor vendorId).rows contains r filter) l) :
    ∃ scan : Scan, (Listing.vendor vendorId).sequence contains scan r filter = l := by
  have given : ∃ scan : Scan, scan.order ((Listing.vendor vendorId).rows contains r filter) = l := by
    classical
    refine ⟨⟨fun {α} rows => if same : (Nat × Product) = α ∧ HEq rows ((Listing.vendor vendorId).rows contains r filter) then
      same.1 ▸ l else rows,?_⟩,?_⟩
    · intro α rows
      split
      · rename_i same
        obtain ⟨rfl,same⟩ := same
        cases eq_of_heq same
        exact permitted.perm
      · exact .refl _
    · exact dif_pos ⟨rfl,HEq.rfl⟩
  obtain ⟨scan,given⟩ := given
  refine ⟨scan,?_⟩
  change (scan.order _).mergeSort _ = l
  rw [given]
  exact List.mergeSort_of_pairwise permitted.sorted

theorem skip_paged (n : Nat) : (((n+1 : Nat) : Int)-1)*(limit : Int) = ((n*limit : Nat) : Int) := by
  push_cast
  rw [Int.add_sub_cancel]

theorem findMany_page (taken : filter.Taken limit n) (rows : List (Nat × Product)) (render : Nat × Product → Json) :
    findMany rows (filter.paged (n+1) limit) render =
      .ok (.obj [("data",.arr ((page limit rows n).map render)),("count",.nat rows.length),("page",.int (n+1)),("limit",.int limit)]) := by
  obtain ⟨accepted,short,reached⟩ := taken
  have accepts : acceptable (filter.paged (n+1) limit) = true := accepted
  have paged : pageOf rows ((n+1 : Nat) : Int) (limit : Int) = .ok (page limit rows n) := by
    unfold pageOf page
    simp only [skip_paged]
    rw [if_neg (by omega),if_pos (by omega)]
    rfl
  unfold findMany
  rw [accepts]
  simp only [ProductFilterDto.paged,Option.getD_some,paged]
  rfl

theorem findMany_refused (refused : ¬filter.Taken limit n) (rows : List (Nat × Product)) (render : Nat × Product → Json) :
    findMany rows (filter.paged (n+1) limit) render = .error .validation := by
  unfold findMany
  cases accepts : acceptable (filter.paged (n+1) limit) with
  | false => rfl
  | true =>
    have beyond : 2^63 ≤ n*limit ∨ 2^63 ≤ limit := by
      by_contra within
      exact refused ⟨accepts,by omega,by omega⟩
    have paged : pageOf rows ((n+1 : Nat) : Int) (limit : Int) = .error .validation := by
      unfold pageOf
      simp only [skip_paged]
      exact if_pos (by omega)
    simp only [ProductFilterDto.paged,Option.getD_some,paged]
    rfl

theorem fetch_opened (opened : trades r vendorId = true) (filter : ProductFilterDto) :
    (fetchProductsForVendor contains scan r (.empty 0) vendorId filter).1 =
      (findVendorProducts contains scan r vendorId filter).map (ResponseService.success "Vendor products fetched successfully") := by
  simp only [trades,Option.any_eq_true,Bool.and_eq_true] at opened
  obtain ⟨vendor,profile,active,verified⟩ := opened
  unfold fetchProductsForVendor
  simp only [profile,active,verified,Bool.not_true,Bool.or_self,Bool.false_eq_true,if_false,cached_empty]
  rfl

theorem rows_ids_nodup (contains : Contains) (r : Records) (filter : ProductFilterDto) (listing : Listing) :
    ((listing.rows contains r filter).map fun entry => some (Json.nat entry.1)).Nodup := by
  have keys : ((listing.rows contains r filter).map Prod.fst).Nodup := by
    cases listing <;> exact (r.db.all_keys_nodup .product).sublist (List.filter_sublist.map _)
  have named := keys.map (f := fun i => some (Json.nat i)) fun i j same => by
    simpa [Json.nat] using same
  rwa [List.map_map] at named

-- What a page shows.
theorem answer_page (scan : Scan) {listing : Listing} (opened : listing.Opened r) (taken : filter.Taken limit n) :
    ∃ json, listing.answer contains r filter limit scan n = .ok json ∧
      (json.field "data").bind (Json.field "count") = some (.nat (listing.rows contains r filter).length) ∧
      listedIds (.ok json) = (page limit (listing.sequence contains scan r filter) n).map fun entry => some (.nat entry.1) := by
  have size := (sequence_permitted contains scan r filter listing).perm.length_eq
  have shown : ∀ message render, (∀ entry : Nat × Product, (render entry : Json).field "id" = some (.nat entry.1)) →
      ∃ json, (findMany (listing.sequence contains scan r filter) (filter.paged (n+1) limit) render).map
          (ResponseService.success message) = .ok json ∧
        (json.field "data").bind (Json.field "count") = some (.nat (listing.rows contains r filter).length) ∧
        listedIds (.ok json) = (page limit (listing.sequence contains scan r filter) n).map fun entry => some (.nat entry.1) := by
    intro message render named
    rw [findMany_page taken]
    refine ⟨_,rfl,?_,?_⟩
    · rw [← size]; rfl
    · change ((page limit (listing.sequence contains scan r filter) n).map render).map (Json.field "id") = _
      rw [List.map_map]
      exact List.map_congr_left fun entry _ => named entry
  cases listing with
  | all =>
    simp only [Listing.answer,Listing.read,ProductRead.answer,getAllProducts,cached_empty]
    exact shown _ _ fun entry => productFields_id ..
  | vendor vendorId =>
    simp only [Listing.answer,Listing.read,ProductRead.answer,getVendorProducts]
    rw [fetch_opened opened]
    exact shown _ _ fun entry => productFields_id ..

theorem answer_refused (contains : Contains) (scan : Scan) (r : Records) (limit : Nat) (listing : Listing)
    (refused : ¬filter.Taken limit n) : ∃ e, listing.answer contains r filter limit scan n = .error e := by
  cases listing with
  | all =>
    simp only [Listing.answer,Listing.read,ProductRead.answer,getAllProducts,cached_empty,query,findAllProducts,
      findMany_refused refused]
    exact ⟨_,rfl⟩
  | vendor vendorId =>
    simp only [Listing.answer,Listing.read,ProductRead.answer,getVendorProducts,fetchProductsForVendor]
    split
    · exact ⟨_,rfl⟩
    · split
      · exact ⟨_,rfl⟩
      · simp only [cached_empty,query,findVendorProducts,findMany_refused refused]
        exact ⟨_,rfl⟩

-- Where the database takes the query for the last page it takes those before it.
theorem taken_before (taken : filter.Taken limit (count-1)) (early : n = 0 ∨ n < count) : filter.Taken limit n := by
  obtain ⟨accepted,short,reached⟩ := taken
  refine ⟨accepted,short,Nat.lt_of_le_of_lt (Nat.mul_le_mul_right limit ?_) reached⟩
  omega

-- Whatever sequences the database gives, the pages are a partition of the result if and
-- only if it takes the queries and no page ends between products that the order does not
-- tell apart.
theorem pages_partition (listing : Listing) (opened : listing.Opened r) (positive : 1 ≤ limit) :
    (∀ scans : Nat → Scan, Partitioned (listing.rows contains r filter) limit fun n =>
      listing.answer contains r filter limit (scans n) n) ↔
    filter.Taken limit (pages (listing.rows contains r filter).length limit - 1) ∧ listing.Apart contains r filter limit := by
  have total : ∀ a b, (listing.orderBy r a b || listing.orderBy r b a) = true := orderBy_total listing
  have seen : filter.Taken limit (pages (listing.rows contains r filter).length limit - 1) → ∀ scans : Nat → Scan,
      ((List.range (pages (listing.rows contains r filter).length limit)).flatMap fun n =>
        listedIds (listing.answer contains r filter limit (scans n) n)) =
      ((List.range (pages (listing.rows contains r filter).length limit)).flatMap fun n =>
        page limit (listing.sequence contains (scans n) r filter) n).map fun entry => some (.nat entry.1) := by
    intro taken scans
    rw [List.map_flatMap,List.flatMap_def,List.flatMap_def]
    refine congrArg List.flatten (List.map_congr_left fun n early => ?_)
    obtain ⟨json,answered,_,listed⟩ := answer_page (scans n) opened (taken_before taken (.inr (List.mem_range.mp early)))
    rw [answered,listed]
  constructor
  · intro partition
    have taken : filter.Taken limit (pages (listing.rows contains r filter).length limit - 1) := by
      by_contra refused
      obtain ⟨json,answered,_⟩ := (partition fun _ => ⟨fun rows => rows,fun rows => .refl rows⟩).counted
        (pages (listing.rows contains r filter).length limit - 1) (by omega)
      obtain ⟨e,failed⟩ := answer_refused contains _ r limit listing refused
      cases answered.symm.trans failed
    refine ⟨taken,?_⟩
    cases listing with
    | all => trivial
    | vendor vendorId =>
      by_contra split
      obtain ⟨c,permitted,repeats⟩ := split_repeats total (orderBy_trans _) positive split
      choose scans given using fun n => permitted_sequence (permitted n)
      have listed := (partition scans).listed
      rw [seen taken scans] at listed
      simp only [given] at listed
      exact repeats (List.Nodup.of_map _ (listed.nodup_iff.mpr (rows_ids_nodup contains r filter (.vendor vendorId))))
  · rintro ⟨taken,apart⟩ scans
    refine ⟨fun n early => ?_,?_⟩
    · obtain ⟨json,answered,count,_⟩ := answer_page (scans n) opened (taken_before taken early)
      exact ⟨json,answered,count⟩
    · rw [seen taken scans]
      exact (unsplit_partition total positive ((apart_unsplit listing).mp apart) _ fun n => sequence_permitted ..).map _

end Pages

def asStored : Scan := ⟨fun rows => rows,fun rows => .refl rows⟩

def backwards : Scan := ⟨List.reverse,List.reverse_perm⟩

def turning (n : Nat) : Scan := if n = 0 then asStored else backwards

theorem pages_partition_shelves :
    (Partitioned (Listing.all.rows sameText counter.1 whole) 1 fun n =>
      Listing.all.answer sameText counter.1 whole 1 (turning n) n) ∧
    Partitioned ((Listing.vendor 0).rows sameText counter.1 whole) 2 fun n =>
      (Listing.vendor 0).answer sameText counter.1 whole 2 (turning n) n := by
  have opened : (Listing.vendor 0).Opened counter.1 := show trades counter.1 0 = true by decide +kernel
  have together : (Listing.vendor 0).Apart sameText counter.1 whole 2 := by
    have ends : ∀ a ∈ (Listing.vendor 0).rows sameText counter.1 whole,
        upTo ((Listing.vendor 0).orderBy counter.1) ((Listing.vendor 0).rows sameText counter.1 whole) a = 2 := by decide +kernel
    rintro a member n ⟨low,high⟩
    rw [ends a member] at high
    omega
  refine ⟨?_,?_⟩
  · exact (pages_partition .all trivial (by omega)).mpr ⟨⟨by decide +kernel,by decide,by decide +kernel⟩,trivial⟩ turning
  · exact (pages_partition (.vendor 0) opened (by omega)).mpr ⟨⟨by decide +kernel,by decide,by decide +kernel⟩,together⟩ turning

def shownNumber : Option Json → Option Rat
  | some (.num n) => some n
  | _ => none

-- Two products of one time on two pages: the second page brings the first product again.
theorem pages_repeat : ¬∀ (contains : Contains) (r : Records) (filter : ProductFilterDto) (limit : Nat) (listing : Listing)
    (scans : Nat → Scan), listing.Opened r → 1 ≤ limit →
      Partitioned (listing.rows contains r filter) limit fun n => listing.answer contains r filter limit (scans n) n := by
  intro claim
  have opened : (Listing.vendor 0).Opened counter.1 := show trades counter.1 0 = true by decide +kernel
  have rows : (Listing.vendor 0).rows sameText counter.1 whole = [(0,⟨0,0⟩),(1,⟨0,1⟩)] := by decide +kernel
  -- The sort leaves products of one time as they come.
  have kept : ∀ (scan : Scan) l, scan.order [((0,⟨0,0⟩) : Nat × Product),(1,⟨0,1⟩)] = l →
      l.Pairwise (fun a b => (Listing.vendor 0).orderBy counter.1 a b = true) →
      (Listing.vendor 0).sequence sameText scan counter.1 whole = l := by
    intro scan l given tied
    unfold Listing.sequence
    dsimp only
    rw [rows,given]
    exact List.mergeSort_of_pairwise tied
  have first : (Listing.vendor 0).sequence sameText (turning 0) counter.1 whole = [(0,⟨0,0⟩),(1,⟨0,1⟩)] :=
    kept (turning 0) _ rfl (by decide +kernel)
  have second : (Listing.vendor 0).sequence sameText (turning 1) counter.1 whole = [(1,⟨0,1⟩),(0,⟨0,0⟩)] :=
    kept (turning 1) _ rfl (by decide +kernel)
  have taken : ∀ n < 2, whole.Taken 1 n := fun n early => ⟨rfl,by omega,by omega⟩
  have listed := (claim sameText counter.1 whole 1 (.vendor 0) turning opened (by omega)).listed
  obtain ⟨_,answered,_,shown⟩ := answer_page (turning 0) opened (taken 0 (by omega))
  obtain ⟨_,answered',_,shown'⟩ := answer_page (turning 1) opened (taken 1 (by omega))
  rw [first] at shown
  rw [second] at shown'
  have two : pages [((0,⟨0,0⟩) : Nat × Product),(1,⟨0,1⟩)].length 1 = 2 := rfl
  rw [rows,two] at listed
  simp only [List.range_succ,List.range_zero,List.nil_append,List.flatMap_append,List.flatMap_singleton,answered,answered',
    shown,shown'] at listed
  have distinct := (listed.map shownNumber).nodup_iff.mpr (by decide +kernel)
  revert distinct
  decide +kernel

end MesyafMarket
