import Mathlib.Data.List.Nodup
import Mathlib.Order.Lattice

/-!
# Binary trees with a hole

Binary trees, the surroundings of a subtree as a list of frames, and the search
for a key in a tree whose in-order traversal is increasing.  Nothing here is
about balance.
-/

namespace Dnsp2p

universe u v

/-- A binary tree with labels at its inner nodes. -/
inductive BinTree (α : Type u) where
  | nil
  | node (left : BinTree α) (label : α) (right : BinTree α)

/-- One step up from a subtree: the label above it and the subtree beside it.
The name says on which side the hole is. -/
inductive BinTree.Frame (α : Type u) where
  | left (label : α) (right : BinTree α)
  | right (left : BinTree α) (label : α)

namespace BinTree

variable {α : Type u}

/-- The label at the root. -/
def root : BinTree α → Option α
  | nil => none
  | node _ label _ => some label

/-- The labels from left to right. -/
def inorder : BinTree α → List α
  | nil => []
  | node left label right => left.inorder ++ label :: right.inorder

@[simp]
theorem root_nil : (nil : BinTree α).root = none :=
  rfl

@[simp]
theorem root_node (left : BinTree α) (label : α) (right : BinTree α) :
    (node left label right).root = some label :=
  rfl

@[simp]
theorem inorder_nil : (nil : BinTree α).inorder = [] :=
  rfl

@[simp]
theorem inorder_node (left : BinTree α) (label : α) (right : BinTree α) :
    (node left label right).inorder = left.inorder ++ label :: right.inorder :=
  rfl

theorem root_eq_none_iff {tree : BinTree α} : tree.root = none ↔ tree = nil := by
  cases tree <;> simp

theorem mem_of_root {tree : BinTree α} {label : α} (root : tree.root = some label) :
    label ∈ tree.inorder := by
  cases tree with
  | nil => simp at root
  | node left top right =>
      obtain rfl : top = label := by simpa using root
      simp

/-! ## Surroundings -/

/-- The tree around a hole, once the hole is filled. -/
def plug : List (Frame α) → BinTree α → BinTree α
  | [], tree => tree
  | .left label right :: up, tree => plug up (node tree label right)
  | .right left label :: up, tree => plug up (node left label tree)

/-- The label above the hole. -/
def parentOf : List (Frame α) → Option α
  | [] => none
  | .left label _ :: _ => some label
  | .right _ label :: _ => some label

/-- The labels left of the hole. -/
def before : List (Frame α) → List α
  | [] => []
  | .left _ _ :: up => before up
  | .right left label :: up => before up ++ left.inorder ++ [label]

/-- The labels right of the hole. -/
def after : List (Frame α) → List α
  | [] => []
  | .left label right :: up => label :: right.inorder ++ after up
  | .right _ _ :: up => after up

@[simp]
theorem plug_nil (tree : BinTree α) : plug [] tree = tree :=
  rfl

@[simp]
theorem inorder_plug (context : List (Frame α)) (tree : BinTree α) :
    (plug context tree).inorder = before context ++ tree.inorder ++ after context := by
  induction context generalizing tree with
  | nil => simp [plug, before, after]
  | cons frame up ih => cases frame <;> simp [plug, before, after, ih]

theorem plug_append (inner outer : List (Frame α)) (tree : BinTree α) :
    plug (inner ++ outer) tree = plug outer (plug inner tree) := by
  induction inner generalizing tree with
  | nil => rfl
  | cons frame up ih => cases frame <;> exact ih _

theorem before_append (inner outer : List (Frame α)) :
    before (inner ++ outer) = before outer ++ before inner := by
  induction inner with
  | nil => simp [before]
  | cons frame up ih => cases frame <;> simp [before, ih]

theorem after_append (inner outer : List (Frame α)) :
    after (inner ++ outer) = after inner ++ after outer := by
  induction inner with
  | nil => rfl
  | cons frame up ih => cases frame <;> simp [after, ih]

/-- Every label of a tree is the root of a subtree. -/
theorem exists_plug {tree : BinTree α} {label : α} (mem : label ∈ tree.inorder) :
    ∃ context left right, tree = plug context (node left label right) := by
  induction tree with
  | nil => simp at mem
  | node left top right leftIh rightIh =>
      rcases List.mem_append.mp mem with inLeft | inRest
      · rcases leftIh inLeft with ⟨context, inner, outer, rfl⟩
        exact ⟨context ++ [.left top right], inner, outer, by rw [plug_append]; rfl⟩
      · rcases List.mem_cons.mp inRest with rfl | inRight
        · exact ⟨[], left, right, rfl⟩
        · rcases rightIh inRight with ⟨context, inner, outer, rfl⟩
          exact ⟨context ++ [.right left top], inner, outer, by rw [plug_append]; rfl⟩

/-! ## Searching -/

section Search

variable {κ : Type v} [LinearOrder κ] (key : α → κ) (target : κ)

/-- Where the search for a key ends: at a node with the key, or at a leaf. -/
def locate : BinTree α → List (Frame α) → List (Frame α) × BinTree α
  | nil, context => (context, nil)
  | node left label right, context =>
      if target < key label then locate left (.left label right :: context)
      else if key label < target then locate right (.right left label :: context)
      else (context, node left label right)

/-- The in-order traversal has increasing keys. -/
def Ordered (tree : BinTree α) : Prop :=
  tree.inorder.Pairwise fun first second => key first < key second

/-- A search does not change the tree. -/
@[simp]
theorem plug_locate (tree : BinTree α) (context : List (Frame α)) :
    plug (tree.locate key target context).1 (tree.locate key target context).2 =
      plug context tree := by
  fun_induction locate key target tree context with
  | case1 => rfl
  | case2 left label right context less ih => exact ih
  | case3 left label right context notLess greater ih => exact ih
  | case4 => rfl

/-- A search that does not end at a leaf ends at the key. -/
theorem key_locate {tree : BinTree α} {context : List (Frame α)} {label : α}
    (found : (tree.locate key target context).2.root = some label) : key label = target := by
  fun_induction locate key target tree context with
  | case1 => simp at found
  | case2 left top right context less ih => exact ih found
  | case3 left top right context notLess greater ih => exact ih found
  | case4 left top right context notLess notGreater =>
      obtain rfl : top = label := by simpa using found
      exact le_antisymm (not_lt.mp notLess) (not_lt.mp notGreater)

variable {key} {target}

/-- Labels of an ordered tree are told apart by their keys. -/
theorem Ordered.key_injOn {tree : BinTree α} (ordered : tree.Ordered key) {first second : α}
    (firstMem : first ∈ tree.inorder) (secondMem : second ∈ tree.inorder)
    (same : key first = key second) : first = second := by
  have increasing : (tree.inorder.map key).Pairwise (· < ·) := List.pairwise_map.mpr ordered
  exact List.inj_on_of_nodup_map (increasing.imp ne_of_lt) firstMem secondMem same

theorem Ordered.nodup {tree : BinTree α} (ordered : tree.Ordered key) : tree.inorder.Nodup :=
  ordered.imp fun less same => (ne_of_lt less) (congrArg key same)

/-- In an ordered tree the keys left and right of a label are less and greater. -/
theorem Ordered.around {context : List (Frame α)} {left right : BinTree α} {label : α}
    (ordered : (plug context (node left label right)).Ordered key) :
    (∀ other ∈ before context ++ left.inorder, key other < key label) ∧
      ∀ other ∈ right.inorder ++ after context, key label < key other := by
  have split : (plug context (node left label right)).inorder =
      (before context ++ left.inorder) ++ label :: (right.inorder ++ after context) := by simp
  rw [Ordered, split, List.pairwise_append, List.pairwise_cons] at ordered
  rcases ordered with ⟨_, ⟨greater, _⟩, less⟩
  exact ⟨fun other mem => less other mem label List.mem_cons_self, greater⟩

/-- The keys around the place where a search ends lie on the proper sides. -/
theorem locate_bounds {tree : BinTree α} {context : List (Frame α)}
    (ordered : (plug context tree).Ordered key)
    (below : ∀ label ∈ before context, key label < target)
    (above : ∀ label ∈ after context, target < key label) :
    (∀ label ∈ before (tree.locate key target context).1, key label < target) ∧
      ∀ label ∈ after (tree.locate key target context).1, target < key label := by
  fun_induction locate key target tree context with
  | case1 => exact ⟨below, above⟩
  | case2 left top right context less ih =>
      apply ih ordered below
      intro label mem
      rcases List.mem_cons.mp mem with rfl | mem
      · exact less
      · exact less.trans (ordered.around.2 label mem)
  | case3 left top right context notLess greater ih =>
      refine ih ordered ?_ above
      intro label mem
      rcases List.mem_append.mp mem with mem | mem
      · exact (ordered.around.1 label mem).trans greater
      · rw [List.mem_singleton.mp mem]
        exact greater
  | case4 => exact ⟨below, above⟩

/-- The keys around the place where a search of a whole tree ends. -/
theorem Ordered.locate_bounds {tree : BinTree α} (ordered : tree.Ordered key) (target : κ) :
    (∀ label ∈ before (tree.locate key target []).1, key label < target) ∧
      ∀ label ∈ after (tree.locate key target []).1, target < key label :=
  BinTree.locate_bounds ordered (by simp [before]) (by simp [after])

/-- In an ordered tree the search finds the label with the key, if there is one. -/
theorem locate_root_iff {tree : BinTree α} (ordered : tree.Ordered key) (label : α) :
    (tree.locate key target []).2.root = some label ↔
      label ∈ tree.inorder ∧ key label = target := by
  have whole := congrArg inorder (plug_locate key target tree [])
  rcases ordered.locate_bounds target with ⟨below, above⟩
  rw [inorder_plug, plug_nil] at whole
  constructor
  · intro found
    have mem := mem_of_root found
    exact ⟨by rw [← whole]; simp [mem], key_locate key target found⟩
  · rintro ⟨mem, same⟩
    cases found : (tree.locate key target []).2.root with
    | none =>
        rw [root_eq_none_iff.mp found, inorder_nil, List.append_nil] at whole
        rw [← whole] at mem
        rcases List.mem_append.mp mem with left | right
        · exact absurd same (below label left).ne
        · exact absurd same (above label right).ne'
    | some top =>
        have topMem : top ∈ tree.inorder := by
          rw [← whole]
          simp [mem_of_root found]
        have topKey := key_locate key target found
        rw [ordered.key_injOn topMem mem (topKey.trans same.symm)]

/-- A search that ends at a leaf shows where a label with the key belongs. -/
theorem Ordered.plug_leaf {tree : BinTree α} (ordered : tree.Ordered key) {label : α}
    (absent : (tree.locate key (key label) []).2 = nil) :
    (plug (tree.locate key (key label) []).1 (node nil label nil)).Ordered key := by
  have whole := congrArg inorder (plug_locate key (key label) tree [])
  rcases ordered.locate_bounds (key label) with ⟨below, above⟩
  rw [inorder_plug, plug_nil, absent, inorder_nil, List.append_nil] at whole
  have parts := ordered
  rw [Ordered, ← whole, List.pairwise_append] at parts
  rw [Ordered, inorder_plug, inorder_node, inorder_nil, List.nil_append, List.append_assoc,
    List.singleton_append, List.pairwise_append, List.pairwise_cons]
  refine ⟨parts.1, ⟨above, parts.2.1⟩, ?_⟩
  intro other otherMem last lastMem
  rcases List.mem_cons.mp lastMem with rfl | lastMem
  · exact below other otherMem
  · exact parts.2.2 other otherMem last lastMem

end Search

end BinTree

end Dnsp2p
