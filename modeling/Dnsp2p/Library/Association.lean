import Mathlib

/-!
# Sorted lists of pairs

A list of pairs whose keys ascend strictly in a linear order that is read off
the keys by an injective view.  Inserting a key stops at the first greater one
and refuses a key that is there; erasing takes the first pair with the key.  On
ascending lists both do to the lookups what they should, they keep the order,
and the lookups determine the list.
-/

namespace Dnsp2p.Association

universe u v w

variable {κ : Type u} {ν : Type v} {ρ : Type w} [LinearOrder ρ] (view : κ → ρ)

/-- The keys ascend strictly. -/
def Ascending (pairs : List (κ × ν)) : Prop :=
  pairs.Pairwise fun left right => view left.1 < view right.1

/-- The pair before the first greater key, or nothing when the key is there. -/
def insert [DecidableEq κ] (key : κ) (value : ν) : List (κ × ν) → Option (List (κ × ν))
  | [] => some [(key, value)]
  | pair :: rest =>
      if view key < view pair.1 then some ((key, value) :: pair :: rest)
      else if key = pair.1 then none
      else (insert key value rest).map (pair :: ·)

/-- The list without the first pair that has the key. -/
def erase [DecidableEq κ] (key : κ) : List (κ × ν) → List (κ × ν)
  | [] => []
  | pair :: rest => if key = pair.1 then rest else pair :: erase key rest

variable {view}

theorem Ascending.tail {pair : κ × ν} {rest : List (κ × ν)}
    (ascending : Ascending view (pair :: rest)) : Ascending view rest :=
  (List.pairwise_cons.mp ascending).2

theorem Ascending.head_lt {pair other : κ × ν} {rest : List (κ × ν)}
    (ascending : Ascending view (pair :: rest)) (member : other ∈ rest) :
    view pair.1 < view other.1 :=
  (List.pairwise_cons.mp ascending).1 other member

/-! ## Lookups -/

variable [BEq κ] [LawfulBEq κ]

@[simp]
theorem lookup_cons [DecidableEq κ] (key : κ) (pair : κ × ν) (rest : List (κ × ν)) :
    (pair :: rest).lookup key = if key = pair.1 then some pair.2 else rest.lookup key := by
  rcases pair with ⟨name, value⟩
  rw [List.lookup_cons]
  by_cases same : key = name
  · simp [same]
  · have differ : (key == name) = false := beq_false_of_ne same
    simp [same, differ]

/-- A key below all that are there is not found. -/
theorem lookup_of_below {key : κ} {pairs : List (κ × ν)}
    (below : ∀ pair ∈ pairs, view key < view pair.1) : pairs.lookup key = none := by
  rw [List.lookup_eq_none_iff]
  intro pair member
  have differ : key ≠ pair.1 := fun same => (below pair member).ne (congrArg view same)
  simpa using differ

/-- A key below the first one is not found. -/
theorem Ascending.lookup_of_lt {key : κ} {pair : κ × ν} {rest : List (κ × ν)}
    (ascending : Ascending view (pair :: rest)) (less : view key < view pair.1) :
    (pair :: rest).lookup key = none := by
  have below : ∀ other ∈ pair :: rest, view key < view other.1 := by
    intro other member
    rcases List.mem_cons.mp member with first | later
    · rw [first]
      exact less
    · exact less.trans (ascending.head_lt later)
  exact lookup_of_below below

/-- The first key is not found again after it. -/
theorem Ascending.lookup_tail {key : κ} {pair : κ × ν} {rest : List (κ × ν)}
    (ascending : Ascending view (pair :: rest)) (same : view key = view pair.1) :
    rest.lookup key = none := by
  have below : ∀ other ∈ rest, view key < view other.1 := by
    intro other member
    rw [same]
    exact ascending.head_lt member
  exact lookup_of_below below

/-! ## Insertion -/

variable [DecidableEq κ]

/-- An insertion is refused exactly when the key is there. -/
theorem insert_eq_none_iff {key : κ} {value : ν} {pairs : List (κ × ν)}
    (ascending : Ascending view pairs) :
    insert view key value pairs = none ↔ pairs.lookup key ≠ none := by
  induction pairs with
  | nil => simp [insert]
  | cons pair rest ih =>
      by_cases less : view key < view pair.1
      · have absent := ascending.lookup_of_lt less
        rw [insert, if_pos less, absent]
        simp
      · by_cases same : key = pair.1
        · simp [insert, same]
        · rw [insert, if_neg less, if_neg same, lookup_cons, if_neg same, ← ih ascending.tail]
          simp

omit [BEq κ] [LawfulBEq κ] in
/-- What an inserted list holds. -/
theorem mem_insert {key : κ} {value : ν} {pairs pairs' : List (κ × ν)} {pair : κ × ν}
    (inserted : insert view key value pairs = some pairs') :
    pair ∈ pairs' ↔ pair = (key, value) ∨ pair ∈ pairs := by
  induction pairs generalizing pairs' with
  | nil =>
      cases inserted
      simp
  | cons first rest ih =>
      rw [insert] at inserted
      split at inserted
      · cases inserted
        simp
      · split at inserted
        · cases inserted
        · rcases Option.map_eq_some_iff.mp inserted with ⟨rest', inserted', rfl⟩
          rw [List.mem_cons, ih inserted', List.mem_cons, or_left_comm]

/-- The inserted key is found and all others are as before. -/
theorem lookup_insert {key : κ} {value : ν} {pairs pairs' : List (κ × ν)}
    (ascending : Ascending view pairs) (inserted : insert view key value pairs = some pairs') :
    (pairs'.lookup ·) = Function.update (pairs.lookup ·) key (some value) := by
  funext other
  induction pairs generalizing pairs' with
  | nil =>
      cases inserted
      simp [Function.update_apply]
  | cons first rest ih =>
      rw [insert] at inserted
      split at inserted
      · cases inserted
        rw [lookup_cons]
        simp only [Function.update_apply]
      · split at inserted
        · cases inserted
        · rename_i differ
          rcases Option.map_eq_some_iff.mp inserted with ⟨rest', inserted', rfl⟩
          have later := ih ascending.tail inserted'
          simp only [Function.update_apply] at later ⊢
          rw [lookup_cons, lookup_cons, later]
          by_cases same : other = key
          · rw [same, if_neg differ]
            simp
          · simp [same]

omit [BEq κ] [LawfulBEq κ] in
/-- An insertion keeps the order. -/
theorem Ascending.insert {key : κ} {value : ν} {pairs pairs' : List (κ × ν)}
    (injective : Function.Injective view) (ascending : Ascending view pairs)
    (inserted : insert view key value pairs = some pairs') : Ascending view pairs' := by
  induction pairs generalizing pairs' with
  | nil =>
      cases inserted
      exact List.pairwise_singleton _ _
  | cons first rest ih =>
      rw [Association.insert] at inserted
      split at inserted
      · rename_i less
        cases inserted
        apply List.pairwise_cons.mpr
        constructor
        · intro other member
          rcases List.mem_cons.mp member with same | later
          · rw [same]
            exact less
          · exact less.trans (ascending.head_lt later)
        · exact ascending
      · split at inserted
        · cases inserted
        · rename_i notLess differ
          rcases Option.map_eq_some_iff.mp inserted with ⟨rest', inserted', rfl⟩
          have greater : view first.1 < view key := by
            apply lt_of_le_of_ne (not_lt.mp notLess)
            intro same
            exact differ (injective same.symm)
          apply List.pairwise_cons.mpr
          constructor
          · intro other member
            rcases (mem_insert inserted').mp member with same | later
            · rw [same]
              exact greater
            · exact ascending.head_lt later
          · exact ih ascending.tail inserted'

/-! ## Erasure -/

omit [BEq κ] [LawfulBEq κ] in
theorem erase_sublist (key : κ) (pairs : List (κ × ν)) : (erase key pairs).Sublist pairs := by
  induction pairs with
  | nil => exact List.Sublist.refl _
  | cons pair rest ih =>
      rw [erase]
      split
      · exact List.sublist_cons_self _ _
      · exact ih.cons_cons _

omit [BEq κ] [LawfulBEq κ] in
/-- An erasure keeps the order. -/
theorem Ascending.erase {pairs : List (κ × ν)} (ascending : Ascending view pairs) (key : κ) :
    Ascending view (erase key pairs) :=
  List.Pairwise.sublist (erase_sublist key pairs) ascending

/-- The erased key is not found and all others are as before. -/
theorem lookup_erase {pairs : List (κ × ν)} (ascending : Ascending view pairs) (key : κ) :
    ((erase key pairs).lookup ·) = Function.update (pairs.lookup ·) key none := by
  funext other
  induction pairs with
  | nil => simp [erase, Function.update_apply]
  | cons pair rest ih =>
      have later := ih ascending.tail
      simp only [Function.update_apply] at later ⊢
      rw [erase, lookup_cons]
      by_cases same : key = pair.1
      · have absent := ascending.lookup_tail (congrArg view same)
        by_cases equal : other = key
        · rw [if_pos same, if_pos equal, equal, absent]
        · have differ : other ≠ pair.1 := same ▸ equal
          rw [if_pos same, if_neg equal, if_neg differ]
      · rw [if_neg same, lookup_cons, later]
        by_cases equal : other = key
        · rw [if_pos equal, if_pos equal, equal, if_neg same]
        · rw [if_neg equal, if_neg equal]

/-! ## Contents -/

/-- Two ascending lists in which the same is found are the same list. -/
theorem Ascending.eq_of_lookup {left right : List (κ × ν)} (ascending : Ascending view left)
    (ascending' : Ascending view right) (agree : ∀ key, left.lookup key = right.lookup key) :
    left = right := by
  induction left generalizing right with
  | nil =>
      cases right with
      | nil => rfl
      | cons pair rest => simpa using agree pair.1
  | cons pair rest ih =>
      cases right with
      | nil => simpa using agree pair.1
      | cons pair' rest' =>
          have keys : pair.1 = pair'.1 := by
            rcases lt_trichotomy (view pair.1) (view pair'.1) with less | same | greater
            · have found := agree pair.1
              rw [ascending'.lookup_of_lt less, lookup_cons, if_pos rfl] at found
              cases found
            · by_contra differ
              have found := agree pair.1
              rw [lookup_cons, if_pos rfl, lookup_cons, if_neg differ] at found
              rw [ascending'.lookup_tail same] at found
              cases found
            · have found := agree pair'.1
              rw [ascending.lookup_of_lt greater, lookup_cons, if_pos rfl] at found
              cases found
          have values : pair.2 = pair'.2 := by
            have found := agree pair.1
            rw [lookup_cons, lookup_cons, if_pos rfl, if_pos keys] at found
            exact Option.some.inj found
          have rests : rest = rest' := by
            apply ih ascending.tail ascending'.tail
            intro key
            by_cases same : key = pair.1
            · rw [ascending.lookup_tail (congrArg view same),
                ascending'.lookup_tail (congrArg view (same.trans keys))]
            · have found := agree key
              rwa [lookup_cons, lookup_cons, if_neg same, if_neg (keys ▸ same)] at found
          rw [Prod.ext keys values, rests]

end Dnsp2p.Association
