import Mathlib.Data.List.Perm.Subperm
import Mathlib.Order.Basic

/-!
# Memory cells

A heap of cells of one type.  An address is a natural number, a pointer is an
optional address, and NULL is `none`.  All live cells lie below a bound, which
serves as the fuel of loops that follow pointers.
-/

namespace Dnsp2p

universe u

/-- Cells at finitely many addresses. -/
structure Memory (Cell : Type u) where
  cell : Nat → Option Cell
  bound : Nat
  lt_bound : ∀ address, (cell address).isSome → address < bound

namespace Memory

variable {Cell : Type u} (memory : Memory Cell) (address : Nat) (content : Cell)

/-- No cell is live. -/
def empty : Memory Cell where
  cell := fun _ => none
  bound := 0
  lt_bound := by simp

/-- Put a content at an address, which becomes live. -/
def write : Memory Cell where
  cell := fun other => if other = address then some content else memory.cell other
  bound := max memory.bound (address + 1)
  lt_bound := by
    intro other live
    by_cases same : other = address
    · omega
    · have := memory.lt_bound other (by simpa [same] using live)
      omega

/-- The address is live no more. -/
def free : Memory Cell where
  cell := fun other => if other = address then none else memory.cell other
  bound := memory.bound
  lt_bound := by
    intro other live
    by_cases same : other = address
    · simp [same] at live
    · exact memory.lt_bound other (by simpa [same] using live)

@[simp]
theorem empty_cell : (empty : Memory Cell).cell address = none :=
  rfl

@[simp]
theorem write_cell_self : (memory.write address content).cell address = some content := by
  simp [write]

theorem write_cell (other : Nat) :
    (memory.write address content).cell other =
      if other = address then some content else memory.cell other :=
  rfl

theorem write_cell_of_ne {address other : Nat} (differ : other ≠ address) :
    (memory.write address content).cell other = memory.cell other :=
  if_neg differ

@[simp]
theorem write_write (again : Cell) :
    (memory.write address content).write address again = memory.write address again := by
  simp only [write, mk.injEq]
  refine ⟨funext fun other => ?_, by omega⟩
  split <;> rfl

theorem free_cell (other : Nat) :
    (memory.free address).cell other = if other = address then none else memory.cell other :=
  rfl

@[simp]
theorem free_cell_self : (memory.free address).cell address = none := by
  simp [free]

theorem free_cell_of_ne {address other : Nat} (differ : other ≠ address) :
    (memory.free address).cell other = memory.cell other :=
  if_neg differ

/-! ## Another view of the cells -/

section Map

universe v

variable {Other : Type v} (f : Cell → Other)

/-- The memory with each content seen another way. -/
def map : Memory Other where
  cell := fun address => (memory.cell address).map f
  bound := memory.bound
  lt_bound := by
    intro address live
    rw [Option.isSome_map] at live
    exact memory.lt_bound address live

@[simp]
theorem map_cell : (memory.map f).cell address = (memory.cell address).map f :=
  rfl

@[simp]
theorem bound_map : (memory.map f).bound = memory.bound :=
  rfl

theorem map_write : (memory.write address content).map f =
    (memory.map f).write address (f content) := by
  simp only [map, write, mk.injEq, and_true]
  funext other
  split <;> rfl

end Map

/-- The address at the bound is free. -/
theorem cell_bound : memory.cell memory.bound = none := by
  by_contra live
  exact absurd (memory.lt_bound _ (Option.isSome_iff_ne_none.mpr live)) (Nat.lt_irrefl _)

variable {memory}

/-- Distinct live addresses are at most as many as the bound. -/
theorem length_le_bound {addresses : List Nat} (distinct : addresses.Nodup)
    (live : ∀ address ∈ addresses, (memory.cell address).isSome) :
    addresses.length ≤ memory.bound := by
  have contained : addresses ⊆ List.range memory.bound := by
    intro address mem
    exact List.mem_range.mpr (memory.lt_bound address (live address mem))
  simpa using (List.subperm_of_subset distinct contained).length_le

end Memory

end Dnsp2p
