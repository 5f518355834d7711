import MesyafMarket.BatchLimits
import MesyafMarket.Offers
import MesyafMarket.Relational.Listing

namespace MesyafMarket
open Relational VendorService ProductService

-- The product is among the rows of the key's query.
def CacheKey.Counts (contains : Contains) (r : Records) (key : CacheKey) (i : Nat) : Prop :=
  ∃ o, r.offer i = some o ∧ key.lists contains i o = true

section Queries
variable {contains : Contains} {scan : Scan} {r r' : Records} {key : CacheKey}

theorem hasTag_same (continues : Continues r r') (same : SameProduct r r' i) : r'.hasTag i = r.hasTag i := by
  funext id
  simp only [Records.hasTag,continues.tag,same.tagged]

theorem imagesOf_same (same : SameProduct r r' i) : r'.imagesOf scan i = r.imagesOf scan i := by
  have rows : r'.site.images.matching () (fun _ image => image.productId = i) =
      r.site.images.matching () (fun _ image => image.productId = i) :=
    Db.matching_congr fun k img => and_congr_left fun own => same.image k img (of_decide_eq_true own)
  simp only [Records.imagesOf,rows]

theorem tagsOf_same (continues : Continues r r') (same : SameProduct r r' i) : r'.tagsOf scan i = r.tagsOf scan i := by
  simp only [Records.tagsOf,continues.tagSeq,continues.tagName,hasTag_same continues same]

theorem categoryOf_same (continues : Continues r r') (p : Product) : r'.categoryOf p = r.categoryOf p := by
  simp only [Records.categoryOf,continues.category]

theorem productFields_same (continues : Continues r r') (same : SameProduct r r' i) (row : r.db.rows .product i = some p) :
    r'.productFields i p = r.productFields i p := by
  simp only [Records.productFields,same.item,continues.stamp i p row]

theorem pageOf_within {rows : List α} (paged : pageOf rows page limit = .ok products) : ∀ a ∈ products, a ∈ rows := by
  simp only [pageOf] at paged
  split at paged
  · cases paged
  split at paged <;> cases paged
  · exact fun a member => List.mem_of_mem_drop (List.mem_of_mem_take member)
  · intro a member
    exact List.mem_reverse.mp (List.mem_of_mem_drop (List.mem_of_mem_take (List.mem_reverse.mp member)))

theorem findMany_same {rows : List (Nat × Product)} {f g : Nat × Product → Json} (same : ∀ entry ∈ rows, g entry = f entry) :
    findMany rows filter g = findMany rows filter f := by
  unfold findMany
  split
  · rfl
  dsimp only
  cases paged : pageOf rows (filter.page.getD 1) (filter.limit.getD 10) with
  | error e => rfl
  | ok products =>
    have rendered : products.map g = products.map f :=
      List.map_congr_left fun entry member => same entry (pageOf_within paged entry member)
    simp only [bind,Except.bind,rendered]

-- What a list counts is the same, and so is what it shows.
theorem rows_same {listed : Records → Nat → Product → Bool}
    (counts : ∀ r i p, r.db.rows .product i = some p → (listed r i p = true ↔ key.Counts contains r i))
    (equal : ∀ i, key.Counts contains r' i ↔ key.Counts contains r i) (same : ∀ i, key.Counts contains r i → SameProduct r r' i) :
    r'.db.matching .product (listed r') = r.db.matching .product (listed r) := by
  refine Db.matching_congr fun i p => ?_
  constructor
  · rintro ⟨row,hit⟩
    have counted := (equal i).mp ((counts r' i p row).mp hit)
    have before := (same i counted).row.symm.trans row
    exact ⟨before,(counts r i p before).mpr counted⟩
  · rintro ⟨row,hit⟩
    have counted := (counts r i p row).mp hit
    have after := (same i counted).row.trans row
    exact ⟨after,(counts r' i p after).mpr ((equal i).mpr counted)⟩

theorem counts_iff (contains : Contains) (key : CacheKey) (row : r.db.rows .product i = some p) : key.Counts contains r i ↔ key.lists contains i
    ⟨p.vendorId,p.categoryId,(r.site.item i).name,(r.site.item i).isAvailable,r.hasTag i,r.db.rows .vendorProfile p.vendorId⟩ = true := by
  constructor
  · rintro ⟨o,found,listed⟩
    obtain ⟨q,again,rfl⟩ := offer_some.mp found
    cases row.symm.trans again
    exact listed
  · exact fun listed => ⟨_,offer_some.mpr ⟨p,row,rfl⟩,listed⟩

theorem findProduct_ok (found : findProduct scan r i = .ok v) : ∃ p vendor, r.db.rows .product i = some p ∧
    r.db.rows .vendorProfile p.vendorId = some vendor ∧ (r.site.item i).isAvailable = true ∧ vendor.isActive = true ∧
    vendor.isVerified = true := by
  simp only [findProduct] at found
  split at found
  · cases found
  rename_i p row
  split at found
  · cases found
  rename_i vendor profile
  split at found
  · cases found
  rename_i offered
  simp only [Bool.or_eq_true,Bool.not_eq_true',not_or,Bool.not_eq_false] at offered
  exact ⟨p,vendor,row,profile,offered.1.1,offered.1.2,offered.2⟩

theorem findProduct_same (continues : Continues r r') (equal : ∀ i, (CacheKey.product productId).Counts contains r' i ↔
      (CacheKey.product productId).Counts contains r i)
    (same : ∀ i, (CacheKey.product productId).Counts contains r i → SameProduct r r' i) (found : findProduct scan r productId = .ok v) :
    findProduct scan r' productId = .ok v := by
  obtain ⟨p,vendor,row,profile,available,active,verified⟩ := findProduct_ok found
  have counted : (CacheKey.product productId).Counts contains r productId := by
    rw [counts_iff contains _ row]
    simp [CacheKey.lists,Offer.trades,available,profile,active,verified]
  have kept := same productId counted
  have after := kept.row.trans row
  obtain ⟨vendor',profile',active',verified'⟩ : ∃ vendor', r'.db.rows .vendorProfile p.vendorId = some vendor' ∧
      vendor'.isActive = true ∧ vendor'.isVerified = true := by
    have still := (equal productId).mpr counted
    rw [counts_iff contains _ after] at still
    simpa [CacheKey.lists,Offer.trades,Option.any_eq_true] using (Bool.and_eq_true_iff.mp still).2
  rw [← found]
  simp only [findProduct,after,profile',row,profile,kept.item,available,active,verified,active',verified',
    productFields_same continues kept row,imagesOf_same kept,categoryOf_same continues,tagsOf_same continues kept,
    continues.shopName,continues.rating _ _ profile]

theorem findAllProducts_same (continues : Continues r r')
    (equal : ∀ i, (CacheKey.all filter).Counts contains r' i ↔ (CacheKey.all filter).Counts contains r i)
    (same : ∀ i, (CacheKey.all filter).Counts contains r i → SameProduct r r' i) :
    findAllProducts contains scan r' filter = findAllProducts contains scan r filter := by
  have counts : ∀ r i p, r.db.rows .product i = some p →
      (listedAnywhere contains r filter i p = true ↔ (CacheKey.all filter).Counts contains r i) :=
    fun r i p row => (counts_iff contains (.all filter) row).symm
  unfold findAllProducts
  rw [rows_same counts equal same]
  refine findMany_same fun entry member => ?_
  obtain ⟨row,hit⟩ := r.db.mem_matching.mp member
  have kept := same entry.1 ((counts r _ _ row).mp hit)
  rw [productFields_same continues kept row,imagesOf_same kept,tagsOf_same continues kept]

theorem findVendorProducts_same (continues : Continues r r')
    (equal : ∀ i, (CacheKey.vendor vendorId filter).Counts contains r' i ↔ (CacheKey.vendor vendorId filter).Counts contains r i)
    (same : ∀ i, (CacheKey.vendor vendorId filter).Counts contains r i → SameProduct r r' i) :
    findVendorProducts contains scan r' vendorId filter = findVendorProducts contains scan r vendorId filter := by
  have counts : ∀ r i p, r.db.rows .product i = some p →
      (listedAt contains r vendorId filter i p = true ↔ (CacheKey.vendor vendorId filter).Counts contains r i) :=
    fun r i p row => (counts_iff contains (.vendor vendorId filter) row).symm
  have found : ∀ entry ∈ scan.order (r.db.matching .product (listedAt contains r vendorId filter)),
      r.db.rows .product entry.1 = some entry.2 ∧ SameProduct r r' entry.1 := by
    intro entry member
    obtain ⟨row,hit⟩ := r.db.mem_matching.mp ((scan.perm _).mem_iff.mp member)
    exact ⟨row,same entry.1 ((counts r _ _ row).mp hit)⟩
  unfold findVendorProducts
  rw [rows_same counts equal same]
  dsimp only
  generalize scan.order (r.db.matching .product (listedAt contains r vendorId filter)) = rows at found
  have sorted : (rows.mergeSort fun a b => (r'.products b.1).createdAt ≤ (r'.products a.1).createdAt) =
      rows.mergeSort fun a b => (r.products b.1).createdAt ≤ (r.products a.1).createdAt := by
    rw [← List.map_id (rows.mergeSort _),List.map_mergeSort,List.map_id]
    intro a first b second
    simp only [id_eq,continues.stamp _ _ (found a first).1,continues.stamp _ _ (found b second).1]
  rw [sorted]
  refine findMany_same fun entry member => ?_
  obtain ⟨row,kept⟩ := found entry (List.mem_mergeSort.mp member)
  rw [productFields_same continues kept row,categoryOf_same continues,imagesOf_same kept,tagsOf_same continues kept]

theorem query_same (continues : Continues r r') (equal : ∀ i, key.Counts contains r' i ↔ key.Counts contains r i)
    (same : ∀ i, key.Counts contains r i → SameProduct r r' i) (found : query contains scan r key = .ok v) :
    query contains scan r' key = .ok v := by
  cases key with
  | product id => exact findProduct_same continues equal same found
  | all filter => exact (findAllProducts_same continues equal same).trans found
  | vendor vendorId filter => exact (findVendorProducts_same continues equal same).trans found

end Queries

-- A value that the database may answer; the lists of a shop matter as long as there
-- is the shop, for its profile is read first.
def Current (contains : Contains) (r : Records) (key : CacheKey) (value : Json) : Prop :=
  (∀ vendorId filter, key = .vendor vendorId filter → r.db.rows .vendorProfile vendorId ≠ none) →
    ∃ scan, query contains scan r key = .ok value

-- Of the entries that a change leaves in the cache, none counts a product that it
-- writes to, nor one that comes to be counted or not by it.
def Change.Spares (contains : Contains) (r : Records) (cache : ProductCache) (c : Change) : Prop :=
  ∀ key value, cache.get key = some value → c.drops key = false →
    (∀ vendorId filter, key = .vendor vendorId filter → c.closes vendorId = false) →
    ∀ i o, r.offer i = some o →
      ((c.offered i o).any fun o' => key.lists contains i o') = key.lists contains i o ∧
      (c.rewrites i = true → key.lists contains i o = false)

inductive ProductRead where
  | getProductById (productId : Nat)
  | getAllProducts (filter : ProductFilterDto)
  | getVendorProducts (vendorId : Nat) (filter : ProductFilterDto)
  | getVendorProductsByUser (userId : Nat) (filter : ProductFilterDto)

def ProductRead.answer (contains : Contains) (scan : Scan) (r : Records) (cache : ProductCache) :
    ProductRead → Except Failure Json × ProductCache
  | getProductById productId => ProductService.getProductById contains scan r cache productId
  | getAllProducts filter => ProductService.getAllProducts contains scan r cache filter
  | getVendorProducts vendorId filter => ProductService.getVendorProducts contains scan r cache vendorId filter
  | getVendorProductsByUser userId filter => ProductService.getVendorProductsByUser contains scan r cache userId filter

section Caching
variable {contains : Contains} {scan : Scan} {r r' : Records} {cache : ProductCache} {c : Change} {key : CacheKey}

theorem spares_idle : Change.idle.Spares contains r cache := fun _ _ _ _ _ _ _ _ => ⟨rfl,nofun⟩

theorem fresh_changed (changed : Changed c r r') (spares : c.Spares contains r cache) (live : cache.get key = some value)
    (stays : c.drops key = false) (fresh : Current contains r key value) : Current contains r' key value := by
  intro remains
  obtain ⟨scan,found⟩ := fresh fun vendorId filter same gone => remains vendorId filter same (changed.absent vendorId gone)
  have spared := spares key value live stays fun vendorId filter same => by
    by_contra closes
    exact remains vendorId filter same (changed.closed vendorId (Bool.not_eq_false _ ▸ closes))
  have later : ∀ i o, r.offer i = some o → key.lists contains i o = true → ∃ o', r'.offer i = some o' ∧ key.lists contains i o' = true := by
    intro i o known counted
    obtain ⟨same,_⟩ := spared i o known
    rw [counted] at same
    obtain ⟨o',after,counts⟩ := (Option.any_eq_true _ _).mp same
    exact ⟨o',(changed.offer i o known).trans after,counts⟩
  refine ⟨scan,query_same changed.toContinues (fun i => ⟨?_,fun ⟨o,known,counted⟩ => later i o known counted⟩) ?_ found⟩
  · rintro ⟨o',after,counts⟩
    cases known : r.offer i with
    | some o =>
      refine ⟨o,known,?_⟩
      rw [changed.offer i o known] at after
      obtain ⟨same,_⟩ := spared i o known
      rw [← same,after]
      exact counts
    | none =>
      -- A new product is in no entry that stays.
      cases key with
      | product productId =>
        obtain ⟨p,_,row,_⟩ := findProduct_ok found
        have same : productId = i := by
          simp only [CacheKey.lists,Bool.and_eq_true,decide_eq_true_eq] at counts
          exact counts.1.1
        rw [same] at row
        exact nomatch (offer_none.mp known).symm.trans row
      | all filter => exact nomatch stays.symm.trans (changed.created i o' known after filter).1
      | vendor vendorId filter =>
        have own : o'.vendorId = vendorId := by
          simp only [CacheKey.lists,Bool.and_eq_true,decide_eq_true_eq] at counts
          exact counts.1.1
        rw [← own] at stays
        exact nomatch stays.symm.trans (changed.created i o' known after filter).2
  · rintro i ⟨o,known,counted⟩
    obtain ⟨o',after,_⟩ := later i o known counted
    refine changed.kept i o known (by rw [after]; exact nofun) ?_
    rw [← Bool.not_eq_true]
    intro written
    exact nomatch counted.symm.trans ((spared i o known).2 written)

theorem coherent_changed (changed : Changed c r r') (spares : c.Spares contains r cache) (valid : cache.Coherent (Current contains r)) :
    (cache.drop c.drops).Coherent (Current contains r') :=
  Redis.Store.coherent_drop valid fun _ _ stays live fresh => fresh_changed changed spares live stays fresh

theorem coherent_cached (valid : cache.Coherent (Current contains r)) :
    (cached contains scan r cache key).2.Coherent (Current contains r) := by
  unfold cached
  split
  · exact valid
  split
  · rename_i value found
    exact Redis.Store.coherent_set valid fun _ => ⟨scan,found⟩
  · exact valid

theorem coherent_fetched (valid : cache.Coherent (Current contains r)) :
    (fetchProductsForVendor contains scan r cache vendorId filter).2.Coherent (Current contains r) := by
  unfold fetchProductsForVendor
  split
  · exact valid
  split
  · exact valid
  · exact coherent_cached valid

theorem coherent_read (read : ProductRead) (valid : cache.Coherent (Current contains r)) :
    (read.answer contains scan r cache).2.Coherent (Current contains r) := by
  cases read with
  | getProductById productId => exact coherent_cached valid
  | getAllProducts filter => exact coherent_cached valid
  | getVendorProducts vendorId filter => exact coherent_fetched valid
  | getVendorProductsByUser userId filter =>
    simp only [ProductRead.answer,getVendorProductsByUser]
    split
    · exact valid
    split
    · exact valid
    · exact coherent_fetched valid

theorem cached_empty : (cached contains scan r (.empty now) key).1 = query contains scan r key := by
  unfold cached
  have missed : (Redis.Store.empty now : ProductCache).get key = none := rfl
  rw [missed]
  cases query contains scan r key <;> rfl

-- A hit is what the database may answer, and a miss is what it answers.
theorem cached_fresh (scan : Scan) (key : CacheKey) (valid : cache.Coherent (Current contains r)) (now : Nat)
    (remains : ∀ vendorId filter, key = .vendor vendorId filter → r.db.rows .vendorProfile vendorId ≠ none) :
    ∃ other, (cached contains scan r cache key).1 = (cached contains other r (.empty now) key).1 := by
  simp only [cached_empty]
  unfold cached
  split
  · rename_i value live
    obtain ⟨other,found⟩ := valid key value live remains
    exact ⟨other,found.symm⟩
  · refine ⟨scan,?_⟩
    cases query contains scan r key <;> rfl

theorem fetched_fresh (scan : Scan) (valid : cache.Coherent (Current contains r)) (now : Nat) :
    ∃ other, (fetchProductsForVendor contains scan r cache vendorId filter).1 =
      (fetchProductsForVendor contains other r (.empty now) vendorId filter).1 := by
  unfold fetchProductsForVendor
  cases found : r.db.rows .vendorProfile vendorId with
  | none => exact ⟨scan,rfl⟩
  | some vendor =>
    dsimp only
    split
    · exact ⟨scan,rfl⟩
    · have remains : ∀ id listed, CacheKey.vendor vendorId filter = .vendor id listed → r.db.rows .vendorProfile id ≠ none := by
        rintro _ _ ⟨⟩
        rw [found]; exact nofun
      obtain ⟨other,same⟩ := cached_fresh scan _ valid now remains
      exact ⟨other,by rw [same]⟩

theorem read_fresh (scan : Scan) (read : ProductRead) (valid : cache.Coherent (Current contains r)) (now : Nat) :
    ∃ other, (read.answer contains scan r cache).1 = (read.answer contains other r (.empty now)).1 := by
  cases read with
  | getProductById productId =>
    obtain ⟨other,same⟩ := cached_fresh scan (.product productId) valid now nofun
    exact ⟨other,by simp only [ProductRead.answer,getProductById,same]⟩
  | getAllProducts filter =>
    obtain ⟨other,same⟩ := cached_fresh scan (.all filter) valid now nofun
    exact ⟨other,by simp only [ProductRead.answer,getAllProducts,same]⟩
  | getVendorProducts vendorId filter => exact fetched_fresh scan valid now
  | getVendorProductsByUser userId filter =>
    simp only [ProductRead.answer,getVendorProductsByUser]
    split
    · exact ⟨scan,rfl⟩
    split
    · exact ⟨scan,rfl⟩
    · exact fetched_fresh scan valid now

end Caching

-- The products that the answer of a read shows.
def Json.products (answer : Json) : List Json :=
  match answer.field "data" with
  | none => []
  | some data => match data.field "data" with
    | some (.arr products) => products
    | _ => [data]

-- A product that is there and available, in a shop that is active and verified.
def Sold (r : Records) (product : Json) : Prop :=
  ∃ i p vendor, product.field "id" = some (.nat i) ∧ r.db.rows .product i = some p ∧ (r.site.item i).isAvailable = true ∧
    r.db.rows .vendorProfile p.vendorId = some vendor ∧ vendor.isActive = true ∧ vendor.isVerified = true

section Sales
variable {contains : Contains} {scan : Scan} {r : Records} {cache : ProductCache}

theorem productFields_id (r : Records) (i : Nat) (p : Product) (more : List (String × Json)) :
    (Json.obj (r.productFields i p ++ more)).field "id" = some (.nat i) := rfl

theorem findMany_rows (found : findMany rows filter render = .ok value) :
    ∃ products : List (Nat × Product),
      (ResponseService.success message value).products = products.map render ∧ ∀ a ∈ products, a ∈ rows := by
  unfold findMany at found
  split at found
  · cases found
  dsimp only at found
  obtain ⟨products,paged,ended⟩ := handled_bind.mp found
  cases pure_handled.mp ended
  exact ⟨products,rfl,pageOf_within paged⟩

theorem findMany_sold {render : Nat × Product → Json} {more : Nat × Product → List (String × Json)}
    (fields : ∀ entry, render entry = .obj (r.productFields entry.1 entry.2 ++ more entry))
    (sold : ∀ entry ∈ rows, ∃ vendor, r.db.rows .product entry.1 = some entry.2 ∧ (r.site.item entry.1).isAvailable = true ∧
      r.db.rows .vendorProfile entry.2.vendorId = some vendor ∧ vendor.isActive = true ∧ vendor.isVerified = true)
    (found : findMany rows filter render = .ok value) :
    ∀ product ∈ (ResponseService.success message value).products, Sold r product := by
  obtain ⟨products,shown,within⟩ := findMany_rows found
  intro product member
  rw [shown] at member
  obtain ⟨entry,listed,rfl⟩ := List.mem_map.mp member
  obtain ⟨vendor,row,available,profile,active,verified⟩ := sold entry (within entry listed)
  refine ⟨entry.1,entry.2,vendor,?_,row,available,profile,active,verified⟩
  rw [fields]
  exact productFields_id ..

theorem findProduct_sold (found : findProduct scan r i = .ok value) :
    ∀ product ∈ (ResponseService.success message value).products, Sold r product := by
  obtain ⟨p,vendor,row,profile,available,active,verified⟩ := findProduct_ok found
  simp only [findProduct,row,profile,available,active,verified,Bool.not_true,Bool.or_self,Bool.false_eq_true,if_false,
    Except.ok.injEq] at found
  subst found
  intro product member
  cases List.mem_singleton.mp member
  exact ⟨i,p,vendor,productFields_id ..,row,available,profile,active,verified⟩

theorem findAllProducts_sold (found : findAllProducts contains scan r filter = .ok value) :
    ∀ product ∈ (ResponseService.success message value).products, Sold r product := by
  refine findMany_sold (fun _ => rfl) ?_ found
  intro entry member
  obtain ⟨row,hit⟩ := r.db.mem_matching.mp member
  simp only [listedAnywhere,trades,Bool.and_eq_true,Option.any_eq_true] at hit
  obtain ⟨⟨available,vendor,profile,active,verified⟩,_⟩ := hit
  exact ⟨vendor,row,available,profile,active,verified⟩

theorem fetched_sold (fetched : (fetchProductsForVendor contains scan r (.empty now) vendorId filter).1 = .ok answer) :
    ∀ product ∈ answer.products, Sold r product := by
  unfold fetchProductsForVendor at fetched
  split at fetched
  · cases fetched
  rename_i vendor profile
  split at fetched
  · cases fetched
  rename_i opened
  simp only [Bool.or_eq_true,Bool.not_eq_true',not_or,Bool.not_eq_false] at opened
  dsimp only at fetched
  rw [cached_empty] at fetched
  obtain ⟨value,found,rfl⟩ := map_handled fetched
  refine findMany_sold (fun _ => by rfl) ?_ found
  intro entry member
  obtain ⟨row,hit⟩ := r.db.mem_matching.mp ((scan.perm _).mem_iff.mp (List.mem_mergeSort.mp member))
  simp only [listedAt,Bool.and_eq_true,decide_eq_true_eq] at hit
  exact ⟨vendor,row,hit.1.2,by rw [hit.1.1]; exact profile,opened.1,opened.2⟩

theorem read_sold (read : ProductRead) (answered : (read.answer contains scan r (.empty now)).1 = .ok answer) :
    ∀ product ∈ answer.products, Sold r product := by
  cases read with
  | getProductById productId =>
    simp only [ProductRead.answer,getProductById,cached_empty] at answered
    obtain ⟨value,found,rfl⟩ := map_handled answered
    exact findProduct_sold found
  | getAllProducts filter =>
    simp only [ProductRead.answer,getAllProducts,cached_empty] at answered
    obtain ⟨value,found,rfl⟩ := map_handled answered
    exact findAllProducts_sold found
  | getVendorProducts vendorId filter => exact fetched_sold answered
  | getVendorProductsByUser userId filter =>
    simp only [ProductRead.answer,getVendorProductsByUser] at answered
    split at answered
    · cases answered
    split at answered
    · cases answered
    · exact fetched_sold answered

end Sales

inductive CatalogAct where
  | pass (ms : Nat)
  | serve (payload : JwtPayload) (request : HttpRequest)
  | administer (bearer : Option JwtPayload) (request : AdminRequest) (fault : Option Nat)
  | read (scan : Scan) (wanted : ProductRead)

section Serving
variable (env : Env) (compare : String → String → Bool) (contains : Contains)

-- The records with the cache, from one request to the next.
def CatalogAct.step (now : Records × ProductCache) : CatalogAct → Records × ProductCache
  | pass ms =>
    ({now.1 with site := {now.1.site with market := now.1.site.market.move (market env) (.tick ms)}},now.2.pass ms)
  | serve payload request => match request.handle compare now.1.site (.carrying payload) with
    | .ok (.left s) => (now.1.follow s,now.2.drop (request.drops now.1.db payload.sub))
    | _ => now
  | administer bearer request fault => ((AdminController.answer env ⟨bearer,none⟩ request).left fault now.1,now.2)
  | read scan wanted => (now.1,(wanted.answer contains scan now.1 now.2).2)

-- The requests that a run may make.
def CatalogAct.Listed : CatalogAct → Prop
  | serve _ request => request.mutates = true
  | administer _ request _ => request.mutates = true
  | pass _ | read .. => True

-- A request that writes anything spares the cache.
def CatalogAct.Spares (now : Records × ProductCache) : CatalogAct → Prop
  | serve payload request =>
    (∃ s, request.handle compare now.1.site (.carrying payload) = .ok (.left s)) →
      (request.change now.1 payload.sub).Spares contains now.1 now.2
  | administer bearer request fault =>
    0 < (AdminController.answer env ⟨bearer,none⟩ request).writes fault now.1 →
      (request.change now.1.db).Spares contains now.1 now.2
  | pass _ | read .. => True

variable {env compare contains}

theorem tick_untouched (env : Env) (r : Records) (ms : Nat) :
    Untouched r {r with site := {r.site with market := r.site.market.move (market env) (.tick ms)}} :=
  ⟨fun _ _ => rfl,rfl,rfl,rfl,rfl,rfl,rfl,rfl,rfl,rfl⟩

theorem coherent_still {r r' : Records} {cache : ProductCache} (changed : Changed c r r') (idle : ∀ key, c.drops key = false)
    (spares : c.Spares contains r cache) (valid : cache.Coherent (Current contains r)) : cache.Coherent (Current contains r') :=
  fun key value live => fresh_changed changed spares live (idle key) (valid key value live)

theorem coherent_step (now : Records × ProductCache) (act : CatalogAct) (valid : now.2.Coherent (Current contains now.1))
    (listed : act.Listed) (spares : act.Spares env compare contains now) :
    (act.step env compare contains now).2.Coherent (Current contains (act.step env compare contains now).1) := by
  obtain ⟨r,cache⟩ := now
  cases act with
  | pass ms =>
    have ticked := changed_untouched (changed_idle r) (tick_untouched env r ms)
    exact Redis.Store.coherent_pass (coherent_still ticked (fun _ => rfl) spares_idle valid)
  | serve payload request =>
    cases handled : request.handle compare r.site (.carrying payload) with
    | error e =>
      simp only [CatalogAct.step,handled]
      exact valid
    | ok outcome => cases outcome with
      | left s =>
        simp only [CatalogAct.step,handled]
        exact coherent_changed (request_changed listed handled) (spares ⟨s,handled⟩) valid
      | calls x =>
        simp only [CatalogAct.step,handled]
        exact valid
  | administer bearer request fault =>
    cases count : (AdminController.answer env ⟨bearer,none⟩ request).writes fault r with
    | zero =>
      simp only [CatalogAct.step,Script.left_unwritten count]
      exact valid
    | succ n =>
      rcases request_administered env r listed bearer fault with idle | changed
      · exact coherent_still idle (fun _ => rfl) spares_idle valid
      · have written : 0 < (AdminController.answer env ⟨bearer,none⟩ request).writes fault r := by omega
        exact coherent_still changed (fun _ => rfl) (spares written) valid
  | read scan wanted => exact coherent_read wanted valid

-- Every read gives what it would give with an empty cache, in some sequence of the rows.
theorem reads_coherent {start : Records} (path : Reaches (CatalogAct.step env compare contains)
      (fun now act => act.Listed ∧ act.Spares env compare contains now) (start,.empty opened) (r,cache))
    (scan : Scan) (read : ProductRead) (now : Nat) :
    (∃ other, (read.answer contains scan r cache).1 = (read.answer contains other r (.empty now)).1) ∧
    ∀ answer, (read.answer contains scan r cache).1 = .ok answer → ∀ product ∈ answer.products, Sold r product := by
  have valid : (r,cache).2.Coherent (Current contains (r,cache).1) :=
    reaches_keeps (P := fun now => now.2.Coherent (Current contains now.1)) Redis.Store.coherent_empty
      (fun now act valid allowed => coherent_step now act valid allowed.1 allowed.2) path
  obtain ⟨other,same⟩ := read_fresh scan read valid now
  refine ⟨⟨other,same⟩,fun answer answered => ?_⟩
  exact read_sold read (same.symm.trans answered)

end Serving

-- Without a filter.
def whole : ProductFilterDto := ⟨none,none,none,none,none⟩

def sameText : Contains := fun name text => name == text

-- The village with two products, before anything is in the cache.
def counter : Records × ProductCache := (recordsOf (premises shelves),.empty 0)

-- All products are listed, and then a request is served.
def listedThen (request : HttpRequest) : Records × ProductCache :=
  (CatalogAct.serve shopkeeper request).step village (· == ·) sameText <|
    (CatalogAct.read (village.scanning counter.1.db) (.getAllProducts whole)).step village (· == ·) sameText counter

def bread : HttpRequest := .createProduct ⟨"bread",0,none,.new,1,none,none,true⟩

theorem reads_coherent_bread : ((listedThen bread).1.offer 2).isSome = true ∧
    ((∃ other, ((ProductRead.getAllProducts whole).answer sameText (village.scanning counter.1.db) (listedThen bread).1
        (listedThen bread).2).1 = ((ProductRead.getAllProducts whole).answer sameText other (listedThen bread).1 (.empty 0)).1) ∧
      ∀ answer, ((ProductRead.getAllProducts whole).answer sameText (village.scanning counter.1.db) (listedThen bread).1
        (listedThen bread).2).1 = .ok answer → ∀ product ∈ answer.products, Sold (listedThen bread).1 product) := by
  have path : Reaches (CatalogAct.step village (· == ·) sameText)
      (fun now act => act.Listed ∧ act.Spares village (· == ·) sameText now) counter (listedThen bread) :=
    .next (.next .start ⟨trivial,trivial⟩) ⟨rfl,fun _ _ _ _ _ _ _ _ _ => ⟨rfl,nofun⟩⟩
  exact ⟨by decide +kernel,reads_coherent path (village.scanning counter.1.db) (.getAllProducts whole) 0⟩

-- A product that is deleted stays in the lists of all products that are in the cache.
theorem deleted_listed : ¬∀ (env : Env) (compare : String → String → Bool) (contains : Contains) (start r : Records)
    (opened now : Nat) (cache : ProductCache) (scan : Scan) (read : ProductRead),
    Reaches (CatalogAct.step env compare contains) (fun _ act => act.Listed) (start,.empty opened) (r,cache) →
    ∃ other, (read.answer contains scan r cache).1 = (read.answer contains other r (.empty now)).1 := by
  intro claim
  have path : Reaches (CatalogAct.step village (· == ·) sameText) (fun _ act => act.Listed) counter
      (listedThen (.deleteProduct 0)) := .next (.next .start trivial) rfl
  obtain ⟨other,same⟩ := claim village (· == ·) sameText counter.1 (listedThen (.deleteProduct 0)).1 0 0
    (listedThen (.deleteProduct 0)).2 (village.scanning counter.1.db) (.getAllProducts whole) path
  have shown := congrArg (fun answered => answered.toOption.map fun answer => answer.products.length) same
  have stale : (((ProductRead.getAllProducts whole).answer sameText (village.scanning counter.1.db)
      (listedThen (.deleteProduct 0)).1 (listedThen (.deleteProduct 0)).2).1.toOption.map
        fun answer => answer.products.length) = some 2 := by decide +kernel
  have left : (listedThen (.deleteProduct 0)).1.db.matching .product (listedAnywhere sameText (listedThen (.deleteProduct 0)).1 whole) =
      [(1,⟨0,1⟩)] := by decide +kernel
  rw [stale] at shown
  simp only [ProductRead.answer,getAllProducts,cached_empty,query,findAllProducts,left] at shown
  cases shown

end MesyafMarket
