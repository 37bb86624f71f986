import Mathlib.Data.List.Nodup
import Mathlib.Data.Nat.Bitwise
import Mathlib.Order.Basic
import Mathlib.Order.Interval.Finset.Nat
import Mathlib.Tactic.Ring

/-!
# Cells that tile an interval

A list of cells that lie end to end between two bounds, each on a half-open
interval of its own.  What a cell on an interval looks like is a parameter.  The
last part is about the intervals that repeated halving makes.
-/

namespace Dnsp2p.Tiling

universe u v

variable {ι : Type u} {β : Type v}

/-- The cells lie end to end from `lo` to `hi`. -/
inductive Tiles [LT ι] (fits : ι → ι → β → Prop) : ι → ι → List β → Prop
  | nil (bound : ι) : Tiles fits bound bound []
  | cons {lo mid hi : ι} {cell : β} {cells : List β} (wide : lo < mid) (fit : fits lo mid cell)
      (rest : Tiles fits mid hi cells) : Tiles fits lo hi (cell :: cells)

/-- One cell between its bounds, and what lies around it. -/
structure Around [LT ι] (fits : ι → ι → β → Prop) (lo hi : ι) (before : List β) (lower : ι)
    (cell : β) (upper : ι) (after : List β) : Prop where
  front : Tiles fits lo lower before
  wide : lower < upper
  fit : fits lower upper cell
  back : Tiles fits upper hi after

section Preorder

variable [Preorder ι] {fits : ι → ι → β → Prop} {lo mid hi : ι} {cells : List β}

theorem Tiles.le (tiles : Tiles fits lo hi cells) : lo ≤ hi := by
  induction tiles with
  | nil => exact le_rfl
  | cons wide _ _ ih => exact wide.le.trans ih

theorem Tiles.append {cells' : List β} (front : Tiles fits lo mid cells)
    (back : Tiles fits mid hi cells') : Tiles fits lo hi (cells ++ cells') := by
  induction front with
  | nil => exact back
  | cons wide fit _ ih => exact .cons wide fit (ih back)

theorem Tiles.singleton {cell : β} (wide : lo < hi) (fit : fits lo hi cell) :
    Tiles fits lo hi [cell] :=
  .cons wide fit (.nil hi)

theorem Tiles.mono {fits' : ι → ι → β → Prop}
    (weaker : ∀ {lower upper cell}, fits lower upper cell → fits' lower upper cell)
    (tiles : Tiles fits lo hi cells) : Tiles fits' lo hi cells := by
  induction tiles with
  | nil => exact .nil _
  | cons wide fit _ ih => exact .cons wide (weaker fit) ih

/-- The cells may be changed as long as a view that decides what fits is not. -/
theorem Tiles.of_map_eq {γ : Type*} (view : β → γ)
    (respects : ∀ {lower upper cell cell'}, view cell' = view cell → fits lower upper cell →
      fits lower upper cell')
    (tiles : Tiles fits lo hi cells) {cells' : List β} (same : cells'.map view = cells.map view) :
    Tiles fits lo hi cells' := by
  induction tiles generalizing cells' with
  | nil =>
      rw [List.map_nil, List.map_eq_nil_iff] at same
      subst same
      exact .nil _
  | cons wide fit _ ih =>
      rcases List.map_eq_cons_iff.mp same with ⟨cell', rest', rfl, head, tail⟩
      exact .cons wide (respects head fit) (ih tail)

/-! ## One cell among the others -/

variable {before after : List β} {lower upper : ι} {cell : β}

theorem Around.tiles (around : Around fits lo hi before lower cell upper after) :
    Tiles fits lo hi (before ++ cell :: after) :=
  around.front.append (.cons around.wide around.fit around.back)

/-- A cell may be replaced by cells that tile its interval. -/
theorem Around.replace (around : Around fits lo hi before lower cell upper after)
    {new : List β} (tiles : Tiles fits lower upper new) :
    Tiles fits lo hi (before ++ (new ++ after)) :=
  around.front.append (tiles.append around.back)

theorem Around.set (around : Around fits lo hi before lower cell upper after) {new : β}
    (fit : fits lower upper new) : Tiles fits lo hi (before ++ new :: after) :=
  around.replace (.singleton around.wide fit)

/-- The cell at the front of what lies behind. -/
theorem Around.extend (around : Around fits lo hi before lower cell upper after)
    {lower' upper' : ι} {cell' : β} {before' after' : List β}
    (inner : Around fits upper hi before' lower' cell' upper' after') :
    Around fits lo hi (before ++ cell :: before') lower' cell' upper' after' where
  front := around.front.append (.cons around.wide around.fit inner.front)
  wide := inner.wide
  fit := inner.fit
  back := inner.back

/-- Each cell has its place. -/
theorem Tiles.around_of_append (tiles : Tiles fits lo hi (before ++ cell :: after)) :
    ∃ lower upper, Around fits lo hi before lower cell upper after := by
  induction before generalizing lo with
  | nil =>
      rcases tiles with _ | ⟨wide, fit, rest⟩
      exact ⟨lo, _, .nil lo, wide, fit, rest⟩
  | cons first before ih =>
      rcases tiles with _ | ⟨wide, fit, rest⟩
      rcases ih rest with ⟨lower, upper, inner⟩
      exact ⟨lower, upper, .cons wide fit inner.front, inner.wide, inner.fit, inner.back⟩

theorem Tiles.around_of_getElem? {i : Nat} (tiles : Tiles fits lo hi cells)
    (found : cells[i]? = some cell) :
    ∃ before lower upper after, cells = before ++ cell :: after ∧ before.length = i ∧
      Around fits lo hi before lower cell upper after := by
  rcases List.getElem?_eq_some_iff.mp found with ⟨inside, rfl⟩
  have split : cells = cells.take i ++ cells[i] :: cells.drop (i + 1) := by simp
  rw [split] at tiles
  rcases tiles.around_of_append with ⟨lower, upper, around⟩
  exact ⟨_, lower, upper, _, split, by simp [inside.le], around⟩

/-- Cells are related when cells on intervals that follow each other are. -/
theorem Tiles.pairwise {relation : β → β → Prop}
    (apart : ∀ {lower upper lower' upper' cell cell'}, fits lower upper cell →
      fits lower' upper' cell' → lower < upper → upper ≤ lower' → relation cell cell')
    (tiles : Tiles fits lo hi cells) : cells.Pairwise relation := by
  induction tiles with
  | nil => exact .nil
  | cons wide fit rest ih =>
      refine .cons (fun cell' mem => ?_) ih
      rcases List.mem_iff_getElem.mp mem with ⟨i, inside, rfl⟩
      obtain ⟨_, _, _, _, _, _, around⟩ := rest.around_of_getElem? (List.getElem?_eq_getElem inside)
      exact apart fit around.fit wide around.front.le

end Preorder

/-- Each point of the interval lies in a cell. -/
theorem Tiles.around_of_mem [LinearOrder ι] {fits : ι → ι → β → Prop} {lo hi point : ι}
    {cells : List β} (tiles : Tiles fits lo hi cells) (above : lo ≤ point) (below : point < hi) :
    ∃ before lower cell upper after, cells = before ++ cell :: after ∧
      Around fits lo hi before lower cell upper after ∧ lower ≤ point ∧ point < upper := by
  induction tiles with
  | nil => exact absurd below above.not_gt
  | @cons lo mid hi cell cells wide fit rest ih =>
      by_cases here : point < mid
      · exact ⟨[], lo, cell, mid, cells, rfl, ⟨.nil lo, wide, fit, rest⟩, above, here⟩
      · obtain ⟨before, lower, cell', upper, after, rfl, inner, low, high⟩ :=
          ih (not_lt.mp here) below
        have outer : Around fits lo hi [] lo cell mid (before ++ cell' :: after) :=
          ⟨.nil lo, wide, fit, rest⟩
        exact ⟨cell :: before, lower, cell', upper, after, rfl, outer.extend inner, low, high⟩

/-! ## Halving -/

/-- The interval from `lo` to `hi` is as long as a power of two, and starts at a
multiple of its length. -/
structure Dyadic (exponent lo hi : Nat) : Prop where
  aligned : 2 ^ exponent ∣ lo
  length : hi = lo + 2 ^ exponent

namespace Dyadic

variable {exponent lo hi : Nat}

theorem lower_half (dyadic : Dyadic (exponent + 1) lo hi) :
    Dyadic exponent lo (lo + 2 ^ exponent) :=
  ⟨(pow_dvd_pow 2 (Nat.le_succ exponent)).trans dyadic.aligned, rfl⟩

theorem upper_half (dyadic : Dyadic (exponent + 1) lo hi) :
    Dyadic exponent (lo + 2 ^ exponent) hi where
  aligned := Nat.dvd_add dyadic.lower_half.aligned dvd_rfl
  length := by rw [dyadic.length, pow_succ]; ring

/-- The powers of two that both ends are multiples of. -/
theorem dvd_both_iff (dyadic : Dyadic exponent lo hi) {other : Nat} :
    2 ^ other ∣ lo ∧ 2 ^ other ∣ hi ↔ other ≤ exponent := by
  constructor
  · rintro ⟨low, high⟩
    rw [dyadic.length, Nat.dvd_add_right low] at high
    exact (Nat.pow_dvd_pow_iff_le_right (by decide)).mp high
  · intro le
    have divides := pow_dvd_pow 2 le
    have low : 2 ^ other ∣ lo := divides.trans dyadic.aligned
    rw [dyadic.length]
    exact ⟨low, Nat.dvd_add low divides⟩

end Dyadic

/-- So many different numbers do not fit in a shorter interval. -/
theorem length_le_of_nodup {lo hi : Nat} {numbers : List Nat} (distinct : numbers.Nodup)
    (inside : ∀ n ∈ numbers, lo ≤ n ∧ n < hi) : numbers.length ≤ hi - lo := by
  rw [← List.toFinset_card_of_nodup distinct, ← Nat.card_Ico]
  apply Finset.card_le_card
  intro n mem
  rw [Finset.mem_Ico]
  exact inside n (List.mem_toFinset.mp mem)

end Dnsp2p.Tiling
