import Dnsp2p.Library.Place
import Mathlib.Data.List.Perm.Basic

/-!
# Lists with a key

A list in which no two entries have the same key, as a program keeps an array or a
linked list of records: searching it from its start, changing the record that is
found, and taking records out by overwriting them with the last one.
-/

namespace Dnsp2p

variable {α κ : Type} {key : α → κ}

/-- No two entries have the same key. -/
def Keyed (key : α → κ) (items : List α) : Prop :=
  (items.map key).Nodup

theorem Keyed.nil : Keyed key [] :=
  List.nodup_nil

theorem Keyed.eq_of_key {items : List α} (keyed : Keyed key items) {left right : α}
    (member : left ∈ items) (member' : right ∈ items) (same : key left = key right) :
    left = right :=
  List.inj_on_of_nodup_map keyed member member' same

theorem Keyed.perm {items items' : List α} (keyed : Keyed key items) (perm : items.Perm items') :
    Keyed key items' :=
  (perm.map key).nodup_iff.mp keyed

theorem Keyed.sublist {items items' : List α} (keyed : Keyed key items)
    (sublist : items'.Sublist items) : Keyed key items' :=
  List.Nodup.sublist (sublist.map key) keyed

theorem Keyed.cons {items : List α} (keyed : Keyed key items) {new : α}
    (fresh : ∀ item ∈ items, key item ≠ key new) : Keyed key (new :: items) := by
  apply List.nodup_cons.mpr
  constructor
  · intro member
    rcases List.mem_map.mp member with ⟨item, listed, same⟩
    exact fresh item listed same
  · exact keyed

theorem Keyed.append {items : List α} (keyed : Keyed key items) {new : α}
    (fresh : ∀ item ∈ items, key item ≠ key new) : Keyed key (items ++ [new]) :=
  (keyed.cons fresh).perm (List.perm_append_singleton new items).symm

/-! ## Search -/

section Search

variable {items : List α} {wanted : κ} {p : α → Bool}
variable (finds : ∀ item ∈ items, p item = true ↔ key item = wanted)
include finds

/-- A search that ends at the end has seen no entry with the key. -/
theorem key_of_findIdx_none (missing : items[items.findIdx p]? = none) :
    ∀ item ∈ items, key item ≠ wanted := by
  intro item member same
  have inside : items.findIdx p < items.length :=
    List.findIdx_lt_length_of_exists ⟨item, member, (finds item member).mpr same⟩
  rw [List.getElem?_eq_getElem inside] at missing
  cases missing

/-- A search that ends earlier has found an entry with the key. -/
theorem key_of_findIdx_some {found : α} (here : items[items.findIdx p]? = some found) :
    found ∈ items ∧ key found = wanted := by
  rcases List.getElem?_eq_some_iff.mp here with ⟨inside, rfl⟩
  have member := List.getElem_mem inside
  exact ⟨member, (finds _ member).mp (List.findIdx_getElem (w := inside))⟩

end Search

/-! ## A changed entry -/

/-- A change that keeps the key. -/
theorem Keyed.set {items : List α} (keyed : Keyed key items) {place : Nat} {old new : α}
    (here : items[place]? = some old) (same : key new = key old) :
    Keyed key (items.set place new) := by
  rw [Keyed, map_set_same here same]
  exact keyed

/-- A list is cut at each of its entries. -/
theorem cut_at {items : List α} {place : Nat} {item : α} (here : items[place]? = some item) :
    ∃ front back, items = front ++ item :: back ∧ front.length = place := by
  rcases List.getElem?_eq_some_iff.mp here with ⟨inside, rfl⟩
  refine ⟨items.take place, items.drop (place + 1), ?_, ?_⟩
  · rw [List.getElem_cons_drop, List.take_append_drop]
  · exact List.length_take_of_le inside.le

/-- What the changed list holds. -/
theorem Keyed.mem_set {items : List α} (keyed : Keyed key items) {place : Nat} {old new item : α}
    (here : items[place]? = some old) :
    item ∈ items.set place new ↔ item = new ∨ item ∈ items ∧ key item ≠ key old := by
  rcases cut_at here with ⟨front, back, rfl, rfl⟩
  rw [List.set_append_right _ _ le_rfl, Nat.sub_self, List.set_cons_zero]
  have apart : ∀ other ∈ front ++ back, key other ≠ key old := by
    intro other member same
    have moved : Keyed key (old :: (front ++ back)) := keyed.perm List.perm_middle
    exact (List.nodup_cons.mp moved).1 (List.mem_map.mpr ⟨other, member, same⟩)
  constructor
  · intro member
    rcases List.mem_append.mp member with before | behind
    · exact .inr ⟨List.mem_append_left _ before, apart item (List.mem_append_left _ before)⟩
    · rcases List.mem_cons.mp behind with same | after
      · exact .inl same
      · exact .inr ⟨List.mem_append_right _ (List.mem_cons_of_mem _ after),
          apart item (List.mem_append_right _ after)⟩
  · rintro (rfl | ⟨member, differ⟩)
    · simp
    · rcases List.mem_append.mp member with before | behind
      · exact List.mem_append_left _ before
      · rcases List.mem_cons.mp behind with same | after
        · exact absurd (congrArg key same) differ
        · exact List.mem_append_right _ (List.mem_cons_of_mem _ after)

/-! ## An entry overwritten with the last one -/

/-- One that is not the last itself. -/
theorem overwrite_last (front rest : List α) (gone last : α) :
    ((front ++ gone :: (rest ++ [last])).set front.length last).dropLast =
      front ++ last :: rest := by
  rw [List.set_append_right _ _ le_rfl, Nat.sub_self, List.set_cons_zero, ← List.cons_append,
    ← List.append_assoc, List.dropLast_concat]

end Dnsp2p
