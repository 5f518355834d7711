import Mathlib.Data.List.Perm.Basic
import Mathlib.Data.List.Sort

namespace Paging
variable {α : Type}

-- The sequences in which a query may give its rows: any that its order permits.
structure Permitted (le : α → α → Bool) (rows l : List α) : Prop where
  perm : l.Perm rows
  sorted : l.Pairwise fun a b => le a b = true

-- Pages are counted from 0.
def page (limit : Nat) (l : List α) (n : Nat) : List α := (l.drop (n*limit)).take limit

def pages (count limit : Nat) : Nat := (count+limit-1)/limit

-- The rows that come before `a` in every sequence, and those that can come up to it.
def before (le : α → α → Bool) (rows : List α) (a : α) : Nat := rows.countP fun b => !le a b

def upTo (le : α → α → Bool) (rows : List α) (a : α) : Nat := rows.countP fun b => le b a

-- No page ends among rows that the order does not tell apart.
def Unsplit (le : α → α → Bool) (limit : Nat) (rows : List α) : Prop :=
  ∀ a ∈ rows, ∀ n, ¬(before le rows a < n*limit ∧ n*limit < upTo le rows a)

theorem pages_cover (positive : 0 < limit) : count ≤ pages count limit*limit := by
  have step := Nat.div_add_mod (count+limit-1) limit
  have rest := Nat.mod_lt (count+limit-1) positive
  unfold pages
  rw [Nat.mul_comm] at step
  omega

theorem lt_pages (positive : 0 < limit) (reached : n*limit < count) : n < pages count limit := by
  have covered : count ≤ pages count limit*limit := pages_cover positive
  by_contra above
  have rows := Nat.mul_le_mul_right limit (Nat.not_lt.mp above)
  omega

-- The pages of one sequence follow one another.
theorem pages_take (l : List α) (m : Nat) : ((List.range m).flatMap (page limit l)) = l.take (m*limit) := by
  induction m with
  | zero => simp
  | succ m ih =>
    rw [List.range_succ,List.flatMap_append,ih,List.flatMap_singleton,page,Nat.succ_mul,List.take_add]

theorem mem_page (at_i : l[i]? = some a) (first : n*limit ≤ i) (last : i < (n+1)*limit) :
    a ∈ page limit l n := by
  rw [Nat.succ_mul] at last
  apply List.mem_of_getElem? (i := i-n*limit)
  unfold page
  rw [List.getElem?_take_of_lt (by omega),List.getElem?_drop,Nat.add_sub_cancel' first,at_i]

section Order
variable {le : α → α → Bool} {rows l : List α}

theorem permitted_mergeSort (total : ∀ a b, (le a b || le b a) = true) (trans : ∀ a b c, le a b = true → le b c = true → le a c = true)
    (perm : l.Perm rows) : Permitted le rows (l.mergeSort le) :=
  ⟨(List.mergeSort_perm l le).trans perm,List.pairwise_mergeSort trans total l⟩

variable (total : ∀ a b, (le a b || le b a) = true)
include total

theorem le_refl (a : α) : le a a = true := by simpa using total a a

-- Where a row can stand in a sequence.
theorem place_bounds (permitted : Permitted le rows (x ++ a::y)) :
    before le rows a ≤ x.length ∧ x.length < upTo le rows a := by
  have sorted := List.pairwise_append.mp permitted.sorted
  have self := le_refl total a
  unfold before upTo
  rw [← permitted.perm.countP_eq,← permitted.perm.countP_eq,List.countP_append,List.countP_append]
  have later : (a::y).countP (fun b => !le a b) = 0 := by
    rw [List.countP_eq_zero]
    intro b member
    rcases List.mem_cons.mp member with rfl | after
    · simp [self]
    · simp [(List.pairwise_cons.mp sorted.2.1).1 b after]
  have earlier : x.countP (fun b => le b a) = x.length :=
    List.countP_eq_length.mpr fun b member => sorted.2.2 b member a List.mem_cons_self
  have own : 0 < (a::y).countP (fun b => le b a) := List.countP_pos_iff.mpr ⟨a,List.mem_cons_self,self⟩
  have some : x.countP (fun b => !le a b) ≤ x.length := List.countP_le_length
  omega

-- An order that tells all rows apart splits none of them.
theorem unsplit_strict (distinct : rows.Nodup) (strict : ∀ a ∈ rows, ∀ b ∈ rows, le a b = true → le b a = true → a = b) :
    Unsplit le limit rows := by
  intro a member n
  have rest : ∀ l : List α, (∀ b ∈ l, b ∈ rows) → a ∉ l → l.countP (fun b => le b a) ≤ l.countP fun b => !le a b := by
    intro l within absent
    refine List.countP_mono_left fun b listed below => ?_
    by_contra above
    have same := strict a member b (within b listed) (by simpa using above) below
    exact absent (same ▸ listed)
  obtain ⟨x,y,rfl⟩ := List.append_of_mem member
  have others : a ∉ x ++ y := (List.nodup_middle.mp distinct |> List.nodup_cons.mp).1
  have apart := rest (x ++ y) (fun b listed => by
    rcases List.mem_append.mp listed with first | last
    · exact List.mem_append_left _ first
    · exact List.mem_append_right _ (List.mem_cons_of_mem _ last)) others
  have self := le_refl total a
  unfold before upTo
  simp only [List.countP_append,List.countP_cons,self,Bool.not_true,Bool.false_eq_true,if_false,if_true] at apart ⊢
  omega

theorem take_filter (unsplit : Unsplit le limit rows) (permitted : Permitted le rows l) (n : Nat) :
    l.take (n*limit) = l.filter fun a => upTo le rows a ≤ n*limit := by
  have known : ∀ x a y, l = x ++ a::y → (x.length < n*limit ↔ upTo le rows a ≤ n*limit) := by
    intro x a y same
    obtain ⟨first,last⟩ := place_bounds total (same ▸ permitted)
    have apart := unsplit a (permitted.perm.mem_iff.mp (by rw [same]; simp)) n
    omega
  conv_rhs => rw [← List.take_append_drop (n*limit) l,List.filter_append]
  have all : (l.take (n*limit)).filter (fun a => upTo le rows a ≤ n*limit) = l.take (n*limit) := by
    rw [List.filter_eq_self]
    intro a member
    obtain ⟨x,y,split⟩ := List.append_of_mem member
    have short := congrArg List.length split
    rw [List.length_append,List.length_cons,List.length_take] at short
    refine decide_eq_true ((known x a (y ++ l.drop (n*limit)) ?_).mp (by omega))
    conv_lhs => rw [← List.take_append_drop (n*limit) l,split]
    simp
  have none : (l.drop (n*limit)).filter (fun a => upTo le rows a ≤ n*limit) = [] := by
    rw [List.filter_eq_nil_iff]
    intro a member late
    obtain ⟨x,y,split⟩ := List.append_of_mem member
    have filled : n*limit ≤ l.length := by
      by_contra short
      rw [List.drop_eq_nil_of_le (by omega)] at member
      cases member
    have early := (known (l.take (n*limit) ++ x) a y (by
      conv_lhs => rw [← List.take_append_drop (n*limit) l,split]
      simp)).mpr (of_decide_eq_true late)
    rw [List.length_append,List.length_take] at early
    omega
  rw [all,none,List.append_nil]

-- Pages that end between distinguishable rows hold the same rows in every sequence.
theorem page_perm (unsplit : Unsplit le limit rows) (left : Permitted le rows l) (right : Permitted le rows s) (n : Nat) :
    (page limit l n).Perm (page limit s n) := by
  have firsts : ∀ m, (l.take (m*limit)).Perm (s.take (m*limit)) := by
    intro m
    rw [take_filter total unsplit left,take_filter total unsplit right]
    exact (left.perm.trans right.perm.symm).filter _
  have next := firsts (n+1)
  rw [Nat.succ_mul,List.take_add,List.take_add] at next
  exact (List.perm_append_left_iff _).mp ((firsts n).symm.append_right _ |>.trans next)

theorem unsplit_partition (positive : 0 < limit) (unsplit : Unsplit le limit rows) (c : Nat → List α)
    (permitted : ∀ n, Permitted le rows (c n)) :
    ((List.range (pages rows.length limit)).flatMap fun n => page limit (c n) n).Perm rows := by
  have each : ((List.range (pages rows.length limit)).flatMap fun n => page limit (c n) n).Perm
      ((List.range (pages rows.length limit)).flatMap fun n => page limit (c 0) n) :=
    List.Perm.flatMap_left _ fun n _ => page_perm total unsplit (permitted n) (permitted 0) n
  refine each.trans ?_
  rw [pages_take,List.take_of_length_le]
  · exact (permitted 0).perm
  · rw [(permitted 0).perm.length_eq]
    exact pages_cover positive

-- Where a page ends between two rows that may be exchanged, the sequence of the next
-- page can bring the one again that the page before ended with.
theorem split_repeats (trans : ∀ a b c, le a b = true → le b c = true → le a c = true) (positive : 0 < limit)
    (split : ¬Unsplit le limit rows) : ∃ c : Nat → List α, (∀ n, Permitted le rows (c n)) ∧
      ¬((List.range (pages rows.length limit)).flatMap fun n => page limit (c n) n).Nodup := by
  simp only [Unsplit,not_forall,Classical.not_not] at split
  obtain ⟨a,_,n,first,last⟩ := split
  have sorted := permitted_mergeSort total trans (List.Perm.refl rows)
  generalize rows.mergeSort le = s at sorted
  have short : upTo le rows a ≤ rows.length := List.countP_le_length
  have long := sorted.perm.length_eq
  -- The rows on both sides of the end of the page.
  obtain ⟨x,b,d,y,rfl,at_b⟩ : ∃ x b d y, s = x ++ b::d::y ∧ x.length+1 = n*limit := by
    have apart := List.take_append_drop (n*limit-1) s
    cases rest : s.drop (n*limit-1) with
    | nil =>
      have none := congrArg List.length rest
      rw [List.length_drop,List.length_nil] at none
      omega
    | cons b tail =>
      have size := congrArg List.length rest
      rw [List.length_drop,List.length_cons] at size
      cases tail with
      | nil => rw [List.length_nil] at size; omega
      | cons d y =>
        refine ⟨s.take (n*limit-1),b,d,y,?_,?_⟩
        · rw [← rest]; exact apart.symm
        · rw [List.length_take]; omega
  obtain ⟨_,_,cross⟩ := List.pairwise_append.mp sorted.sorted
  obtain ⟨after_b,after_d⟩ := List.pairwise_append.mp sorted.sorted |>.2.1 |> List.pairwise_cons.mp
  obtain ⟨below,_⟩ := List.pairwise_cons.mp after_d
  have tied_b : le a b = true := by
    by_contra earlier
    rw [before,← sorted.perm.countP_eq,List.countP_append,List.countP_cons] at first
    have all : x.countP (fun c => !le a c) = x.length := by
      rw [List.countP_eq_length]
      intro c member
      by_contra reached
      exact earlier (trans _ _ _ (by simpa using reached) (cross c member b List.mem_cons_self))
    simp only [all,Bool.not_eq_true] at first earlier
    simp only [earlier,Bool.not_false,if_true] at first
    omega
  have tied_d : le d a = true := by
    by_contra later
    rw [upTo,← sorted.perm.countP_eq,List.countP_append,List.countP_cons] at last
    have none : (d::y).countP (fun c => le c a) = 0 := by
      rw [List.countP_eq_zero]
      intro c member reached
      rcases List.mem_cons.mp member with rfl | behind
      · exact later reached
      · exact later (trans _ _ _ (below c behind) reached)
    have some : x.countP (fun c => le c a) ≤ x.length := List.countP_le_length
    rw [none] at last
    split at last <;> omega
  have swapped : Permitted le rows (x ++ d::b::y) := by
    refine ⟨((List.Perm.swap b d y).append_left x).trans sorted.perm,?_⟩
    refine List.pairwise_append.mpr ⟨(List.pairwise_append.mp sorted.sorted).1,?_,?_⟩
    · refine List.pairwise_cons.mpr ⟨?_,List.pairwise_cons.mpr ⟨fun c member => after_b c (List.mem_cons_of_mem _ member),
        (List.pairwise_cons.mp after_d).2⟩⟩
      intro c member
      rcases List.mem_cons.mp member with rfl | behind
      · exact trans _ _ _ tied_d tied_b
      · exact below c behind
    · intro c member e listed
      refine cross c member e ?_
      rcases List.mem_cons.mp listed with rfl | listed
      · exact List.mem_cons_of_mem _ List.mem_cons_self
      · rcases List.mem_cons.mp listed with rfl | listed
        · exact List.mem_cons_self
        · exact List.mem_cons_of_mem _ (List.mem_cons_of_mem _ listed)
  obtain ⟨m,rfl⟩ : ∃ m, n = m+1 := ⟨n-1,by cases n <;> omega⟩
  refine ⟨fun i => if i = m+1 then x ++ d::b::y else x ++ b::d::y,?_,?_⟩
  · intro i
    dsimp only
    split
    · exact swapped
    · exact sorted
  · intro distinct
    have disjoint := (List.nodup_flatMap.mp distinct).2
    have later : m+1 < pages rows.length limit := lt_pages positive (by omega)
    have apart := List.pairwise_iff_getElem.mp disjoint m (m+1) (by rw [List.length_range]; omega)
      (by rw [List.length_range]; omega) (by omega)
    simp only [List.getElem_range,Function.onFun,if_pos] at apart
    rw [Nat.succ_mul] at at_b
    have ended : b ∈ page limit (x ++ b::d::y) m :=
      mem_page (i := x.length) (by simp) (by omega) (by rw [Nat.succ_mul]; omega)
    have again : b ∈ page limit (x ++ d::b::y) (m+1) :=
      mem_page (i := x.length+1) (by simp) (by rw [Nat.succ_mul]; omega) (by rw [Nat.succ_mul,Nat.succ_mul]; omega)
    rw [if_neg (by omega)] at apart
    exact apart ended again

end Order
end Paging
