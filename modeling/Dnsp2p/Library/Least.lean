import Mathlib.Data.Finset.Card
import Mathlib.Data.List.Sort

/-!
# The least elements of a sequence

A list of bounded length to which elements are offered one after another.  It is
kept in increasing order and without repetition, and what does not fit is dropped
from its end.  After any sequence of offers it holds the least elements of all that
were offered.
-/

namespace Dnsp2p

universe u

variable {κ : Type u} [LinearOrder κ]

/-- Offer an element to a list that keeps at most `most` elements. -/
def offer (most : Nat) (kept : List κ) (element : κ) : List κ :=
  if element ∈ kept then kept else (kept.orderedInsert (· ≤ ·) element).take most

/-- The kept elements are the least of those seen, as many as there may be. -/
structure LeastOf (most : Nat) (seen : Finset κ) (kept : List κ) : Prop where
  increasing : kept.Pairwise (· < ·)
  length : kept.length = min most seen.card
  subset : ∀ element ∈ kept, element ∈ seen
  least : ∀ element ∈ seen, element ∉ kept → ∀ other ∈ kept, other < element

/-- An element goes between those that are less and those that are greater. -/
theorem orderedInsert_between {front back : List κ} {element : κ}
    (less : ∀ other ∈ front, other < element) (greater : ∀ other ∈ back, element < other) :
    (front ++ back).orderedInsert (· ≤ ·) element = front ++ element :: back := by
  induction front with
  | nil =>
      cases back with
      | nil => rfl
      | cons first rest =>
          exact List.orderedInsert_cons_of_le _ rest (greater first List.mem_cons_self).le
  | cons first front ih =>
      rw [List.forall_mem_cons] at less
      rw [List.cons_append, List.orderedInsert_of_not_le _ _ (not_le.mpr less.1), ih less.2,
        List.cons_append]

theorem offer_of_mem (most : Nat) {kept : List κ} {element : κ} (held : element ∈ kept) :
    offer most kept element = kept :=
  if_pos held

theorem offer_between (most : Nat) {front back : List κ} {element : κ}
    (less : ∀ other ∈ front, other < element) (greater : ∀ other ∈ back, element < other) :
    offer most (front ++ back) element = (front ++ element :: back).take most := by
  have new : element ∉ front ++ back := by
    intro mem
    rcases List.mem_append.mp mem with inFront | inBack
    · exact lt_irrefl _ (less element inFront)
    · exact lt_irrefl _ (greater element inBack)
  rw [offer, if_neg new, orderedInsert_between less greater]

/-- Inserting a new element keeps a list increasing. -/
theorem pairwise_orderedInsert {kept : List κ} {element : κ}
    (increasing : kept.Pairwise (· < ·)) (new : element ∉ kept) :
    (kept.orderedInsert (· ≤ ·) element).Pairwise (· < ·) := by
  have sorted := (increasing.imp le_of_lt).orderedInsert element kept
  have distinct : (kept.orderedInsert (· ≤ ·) element).Nodup := by
    rw [(List.perm_orderedInsert _ element kept).nodup_iff, List.nodup_cons]
    exact ⟨new, increasing.imp ne_of_lt⟩
  exact sorted.imp₂ (fun _ _ le ne => lt_of_le_of_ne le ne) distinct

namespace LeastOf

variable {most : Nat} {seen : Finset κ} {kept : List κ}

theorem empty (most : Nat) : LeastOf most (∅ : Finset κ) [] where
  increasing := .nil
  length := by simp
  subset := by simp
  least := by simp

/-- An increasing list that fits keeps the least of its own elements. -/
theorem self {kept : List κ} (increasing : kept.Pairwise (· < ·)) (fits : kept.length ≤ most) :
    LeastOf most kept.toFinset kept where
  increasing := increasing
  length := by
    rw [List.toFinset_card_of_nodup (increasing.imp ne_of_lt)]
    omega
  subset := fun element mem => List.mem_toFinset.mpr mem
  least := fun element mem dropped => absurd (List.mem_toFinset.mp mem) dropped

theorem nodup (leastOf : LeastOf most seen kept) : kept.Nodup :=
  leastOf.increasing.imp ne_of_lt

/-- A list that does not keep all elements is full. -/
theorem full (leastOf : LeastOf most seen kept) {element : κ} (known : element ∈ seen)
    (dropped : element ∉ kept) : kept.length = most := by
  have fewer : (insert element kept.toFinset).card ≤ seen.card := by
    apply Finset.card_le_card
    intro other mem
    rcases Finset.mem_insert.mp mem with rfl | held
    · exact known
    · exact leastOf.subset other (List.mem_toFinset.mp held)
  rw [Finset.card_insert_of_notMem (by simpa using dropped),
    List.toFinset_card_of_nodup leastOf.nodup] at fewer
  have length := leastOf.length
  omega

/-- The kept elements are the least ones after another offer too. -/
theorem offer (leastOf : LeastOf most seen kept) (element : κ) :
    LeastOf most (insert element seen) (offer most kept element) := by
  by_cases held : element ∈ kept
  · rw [offer_of_mem most held, Finset.insert_eq_of_mem (leastOf.subset element held)]
    exact leastOf
  · rw [Dnsp2p.offer, if_neg held]
    have increasing := pairwise_orderedInsert leastOf.increasing held
    have cut := List.take_append_drop most (kept.orderedInsert (· ≤ ·) element)
    have ordered := increasing
    rw [← cut, List.pairwise_append] at ordered
    constructor
    · exact ordered.1
    · rw [List.length_take, List.orderedInsert_length]
      by_cases known : element ∈ seen
      · have length := leastOf.full known held
        have counted := leastOf.length
        rw [Finset.insert_eq_of_mem known]
        omega
      · have counted := leastOf.length
        rw [Finset.card_insert_of_notMem known]
        omega
    · intro other mem
      rcases (List.mem_orderedInsert _).mp (List.mem_of_mem_take mem) with rfl | old
      · exact Finset.mem_insert_self _ _
      · exact Finset.mem_insert_of_mem (leastOf.subset other old)
    · intro other known dropped less mem
      by_cases inserted : other ∈ kept.orderedInsert (· ≤ ·) element
      · rw [← cut, List.mem_append] at inserted
        exact ordered.2.2 less mem other (inserted.resolve_left dropped)
      · rw [List.mem_orderedInsert, not_or] at inserted
        have old := Finset.mem_of_mem_insert_of_ne known inserted.1
        have below := leastOf.least other old inserted.2
        rcases (List.mem_orderedInsert _).mp (List.mem_of_mem_take mem) with rfl | kept_
        · -- the list was full, so that an old element made room
          have length := leastOf.full old inserted.2
          have moved : 0 < ((kept.orderedInsert (· ≤ ·) less).drop most).length := by
            rw [List.length_drop, List.orderedInsert_length]
            omega
          rcases List.length_pos_iff_exists_mem.mp moved with ⟨last, inRest⟩
          have greater := ordered.2.2 less mem last inRest
          have lastOld := (List.mem_orderedInsert _).mp (List.mem_of_mem_drop inRest)
          exact greater.trans (below last (lastOld.resolve_left greater.ne'))
        · exact below less kept_

/-- The elements kept of a sequence of offers are the least of the sequence. -/
theorem foldl (most : Nat) (elements : List κ) :
    LeastOf most elements.toFinset (elements.foldl (Dnsp2p.offer most) []) := by
  induction elements using List.reverseRecOn with
  | nil => exact empty most
  | append_singleton elements element ih =>
      rw [List.foldl_append, List.toFinset_append, Finset.union_comm]
      exact ih.offer element

end LeastOf

end Dnsp2p
