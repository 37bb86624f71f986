import Mathlib.Data.List.Nodup
import Mathlib.Order.Lattice

/-!
# One place of a list

Lists that are changed in one place, as a program changes an entry of an array or
a linked list: what of the list a view sees, and when its entries stay different.
-/

namespace Dnsp2p

/-- A list is cut where a search from its start ends. -/
theorem findIdx_cut {α : Type} (p : α → Bool) (l : List α) :
    ∃ front back, l = front ++ back ∧ l.findIdx p = front.length ∧
      (∀ item ∈ front, p item = false) ∧ ∀ first ∈ back.head?, p first = true := by
  induction l with
  | nil => exact ⟨[], [], rfl, rfl, by simp, by simp⟩
  | cons first rest ih =>
      cases holds : p first with
      | true =>
          exact ⟨[], first :: rest, rfl, by simp [List.findIdx_cons, holds], by simp,
            by simp [holds]⟩
      | false =>
          rcases ih with ⟨front, back, rfl, place, before, stop⟩
          refine ⟨first :: front, back, rfl, ?_, ?_, stop⟩
          · simp [List.findIdx_cons, holds, place]
          · exact List.forall_mem_cons.mpr ⟨holds, before⟩

/-- A change in one place that a view does not see. -/
theorem map_set_same {α β : Type} {view : α → β} {items : List α} {i : Nat} {old new : α}
    (found : items[i]? = some old) (same : view new = view old) :
    (items.set i new).map view = items.map view := by
  apply List.ext_getElem?
  intro n
  rw [List.getElem?_map, List.getElem?_map, List.getElem?_set]
  split
  · next here =>
    subst here
    rcases List.getElem?_eq_some_iff.mp found with ⟨inside, rfl⟩
    simp [inside, same]
  · rfl

theorem map_modify_same {α β : Type} {view : α → β} {change : α → α}
    (same : ∀ item, view (change item) = view item) (items : List α) (i : Nat) :
    (items.modify i change).map view = items.map view := by
  apply List.ext_getElem?
  intro n
  rw [List.getElem?_map, List.getElem?_map, List.getElem?_modify]
  split <;> cases items[n]? <;> simp [same]

/-- A change in one place after which a view sees a given value there. -/
theorem map_modify_const {α β : Type} (view : α → β) {change : α → α} {value : β}
    (seen : ∀ item, view (change item) = value) (items : List α) (i : Nat) :
    (items.modify i change).map view = (items.map view).set i value := by
  apply List.ext_getElem?
  intro n
  rw [List.getElem?_map, List.getElem?_modify, List.getElem?_set]
  split
  · next here =>
    subst here
    rw [List.length_map]
    split
    · next inside => simp [List.getElem?_eq_getElem inside, seen]
    · next outside => simp [List.getElem?_eq_none (not_lt.mp outside)]
  · simp

/-- A change of the entry behind a front. -/
@[simp]
theorem modify_append_cons {α : Type} (front back : List α) (item : α) (change : α → α) :
    (front ++ item :: back).modify front.length change = front ++ change item :: back := by
  induction front with
  | nil => rfl
  | cons first front ih => simp [ih]

/-- A new entry behind a front. -/
theorem insertIdx_append {α : Type} (front back : List α) (new : α) :
    (front ++ back).insertIdx front.length new = front ++ new :: back := by
  induction front with
  | nil => rfl
  | cons first front ih => simp [ih]

/-- A new entry behind a given one. -/
theorem insert_behind {α : Type} (front back : List α) (item new : α) :
    (front ++ item :: back).take (front.length + 1) ++ [new] ++
      (front ++ item :: back).drop (front.length + 1) = front ++ item :: new :: back := by
  induction front with
  | nil => rfl
  | cons first front ih => simpa using ih

/-- A list has no duplicates when no entry stands at two places. -/
theorem nodup_iff_place_unique {α : Type} {items : List α} :
    items.Nodup ↔
      ∀ (i j : Nat) (item : α), items[i]? = some item → items[j]? = some item → i = j := by
  rw [List.nodup_iff_getElem?_ne_getElem?]
  constructor
  · intro apart i j item here there
    rcases lt_trichotomy i j with before | same | after
    · exact absurd (here.trans there.symm) (apart i j before (List.getElem?_eq_some_iff.mp there).1)
    · exact same
    · exact absurd (there.trans here.symm) (apart j i after (List.getElem?_eq_some_iff.mp here).1)
  · intro unique i j less inside equal
    have there := List.getElem?_eq_getElem inside
    have same := unique i j _ (equal.trans there) there
    omega

/-- A new entry at a place brings no duplicate when it stands at no other place. -/
theorem nodup_set_iff {α : Type} {items : List α} {place : Nat} {new : α} (apart : items.Nodup)
    (inside : place < items.length) :
    (items.set place new).Nodup ↔ ∀ i, items[i]? = some new → i = place := by
  rw [nodup_iff_place_unique] at apart ⊢
  have here : (items.set place new)[place]? = some new := by
    rw [List.getElem?_set_self inside]
  constructor
  · intro unique i listed
    by_contra other
    have kept : (items.set place new)[i]? = some new := by
      rw [List.getElem?_set_ne (Ne.symm other), listed]
    exact other (unique i place new kept here)
  · intro alone i j item first second
    by_cases atFirst : i = place
    · by_cases atSecond : j = place
      · omega
      · subst atFirst
        rw [List.getElem?_set_ne (Ne.symm atSecond)] at second
        cases here.symm.trans first
        exact (alone j second).symm
    · by_cases atSecond : j = place
      · subst atSecond
        rw [List.getElem?_set_ne (Ne.symm atFirst)] at first
        cases here.symm.trans second
        exact alone i first
      · rw [List.getElem?_set_ne (Ne.symm atFirst)] at first
        rw [List.getElem?_set_ne (Ne.symm atSecond)] at second
        exact apart i j item first second

end Dnsp2p
