import Dnsp2p.Library.BinaryTree
import Mathlib.Tactic.Tauto

/-!
# Red-black trees with a hole

Which trees fit into which surroundings, when the labels of a tree are red or black.  An
insertion and a removal walk up a tree: each has a state that says how far the invariant
holds, one lemma for each case of its steps, and one for each way to end.

A side is a truth value, and children are near or far from it, so that a case and its mirror
image are one.
-/

namespace Dnsp2p.BinTree

universe u v

variable {α : Type u} {β : Type v}

/-! ## Sides -/

/-- The node with a child near to a side and one far from it. -/
def join (mirrored : Bool) (near : BinTree α) (label : α) (far : BinTree α) : BinTree α :=
  match mirrored with
  | false => node near label far
  | true => node far label near

namespace Frame

/-- The frame of a hole on a side. -/
def on (mirrored : Bool) (label : α) (beside : BinTree α) : Frame α :=
  match mirrored with
  | false => left label beside
  | true => right beside label

/-- The label above the hole. -/
def label : Frame α → α
  | .left label _ => label
  | .right _ label => label

/-- The subtree beside the hole. -/
def beside : Frame α → BinTree α
  | .left _ tree => tree
  | .right tree _ => tree

@[simp]
theorem label_on (mirrored : Bool) (label : α) (beside : BinTree α) :
    (on mirrored label beside).label = label := by
  cases mirrored <;> rfl

@[simp]
theorem beside_on (mirrored : Bool) (label : α) (beside : BinTree α) :
    (on mirrored label beside).beside = beside := by
  cases mirrored <;> rfl

/-- Every frame is one on a side. -/
theorem exists_on (frame : Frame α) : ∃ mirrored, frame = on mirrored frame.label frame.beside := by
  cases frame with
  | left => exact ⟨false, rfl⟩
  | right => exact ⟨true, rfl⟩

end Frame

theorem plug_on (mirrored : Bool) (label : α) (beside : BinTree α) (up : List (Frame α))
    (tree : BinTree α) :
    plug (.on mirrored label beside :: up) tree = plug up (join mirrored tree label beside) := by
  cases mirrored <;> rfl

@[simp]
theorem parentOf_cons (frame : Frame α) (up : List (Frame α)) :
    parentOf (frame :: up) = some frame.label := by
  cases frame <;> rfl

theorem join_not (mirrored : Bool) (near : BinTree α) (label : α) (far : BinTree α) :
    join (!mirrored) near label far = join mirrored far label near := by
  cases mirrored <;> rfl

/-- The subtree far from a side as the one in the hole. -/
theorem plug_on_not (mirrored : Bool) (label : α) (near : BinTree α) (up : List (Frame α))
    (far : BinTree α) :
    plug (.on (!mirrored) label near :: up) far = plug up (join mirrored near label far) := by
  rw [plug_on, join_not]

/-- A tree with a root has children on either side. -/
theorem exists_join (mirrored : Bool) (left : BinTree α) (label : α) (right : BinTree α) :
    ∃ near far, node left label right = join mirrored near label far := by
  cases mirrored with
  | false => exact ⟨left, right, rfl⟩
  | true => exact ⟨right, left, rfl⟩

@[simp]
theorem root_join (mirrored : Bool) (near : BinTree α) (label : α) (far : BinTree α) :
    (join mirrored near label far).root = some label := by
  cases mirrored <;> rfl

/-- A rotation does not change the traversal. -/
theorem inorder_rotation (mirrored : Bool) (near inner outer : BinTree α) (label top : α) :
    (join mirrored (join mirrored near label inner) top outer).inorder =
      (join mirrored near label (join mirrored inner top outer)).inorder := by
  cases mirrored <;> simp [join]

/-- The labels of a node, its own in front. -/
theorem inorder_join_perm (mirrored : Bool) (near : BinTree α) (label : α) (far : BinTree α) :
    (join mirrored near label far).inorder.Perm (label :: (near.inorder ++ far.inorder)) := by
  cases mirrored with
  | false => exact List.perm_middle
  | true => exact List.perm_middle.trans (.cons _ List.perm_append_comm)

/-- The labels of a tree with a hole, those of what is in the hole in front. -/
theorem inorder_plug_perm (context : List (Frame α)) (tree : BinTree α) :
    (plug context tree).inorder.Perm (tree.inorder ++ (before context ++ after context)) := by
  rw [inorder_plug, ← List.append_assoc]
  exact .append_right _ List.perm_append_comm

/-- The labels of a tree around one of its nodes, that of the node in front. -/
theorem inorder_around_perm (context : List (Frame α)) (mirrored : Bool) (near : BinTree α)
    (label : α) (far : BinTree α) :
    (plug context (join mirrored near label far)).inorder.Perm
      (label :: (near.inorder ++ far.inorder ++ (before context ++ after context))) :=
  (inorder_plug_perm _ _).trans (.append_right _ (inorder_join_perm _ _ _ _))

/-- Each frame around a hole has a label of its own. -/
theorem length_add_le_plug (context : List (Frame α)) (tree : BinTree α) :
    context.length + tree.inorder.length ≤ (plug context tree).inorder.length := by
  induction context generalizing tree with
  | nil => simp
  | cons frame up ih =>
      have outer := ih (plug [frame] tree)
      cases frame <;>
        simp only [plug, inorder_node, List.length_append, List.length_cons] at outer ⊢ <;> omega

/-- The label above a hole is around it. -/
theorem label_mem (frame : Frame α) (up : List (Frame α)) :
    frame.label ∈ before (frame :: up) ++ after (frame :: up) := by
  cases frame <;> simp [before, after, Frame.label]

/-- What is in a hole is part of the tree. -/
theorem plug_ne_nil {tree : BinTree α} (inner : tree ≠ nil) (context : List (Frame α)) :
    plug context tree ≠ nil := by
  induction context generalizing tree with
  | nil => exact inner
  | cons frame up ih => cases frame <;> exact ih nofun

/-- The root of a tree with a hole below it is none of the labels in the hole. -/
theorem exists_root_plug (frame : Frame α) (up : List (Frame α)) (tree : BinTree α) :
    ∃ label ∈ before (frame :: up) ++ after (frame :: up),
      (plug (frame :: up) tree).root = some label := by
  induction up generalizing frame tree with
  | nil => cases frame <;> exact ⟨_, by simp [before, after], rfl⟩
  | cons next up ih =>
      rcases ih next (plug [frame] tree) with ⟨label, mem, root⟩
      refine ⟨label, ?_, by cases frame <;> exact root⟩
      have outer : before (frame :: next :: up) ++ after (frame :: next :: up) =
          before (next :: up) ++ before [frame] ++ (after [frame] ++ after (next :: up)) := by
        rw [← before_append, ← after_append, List.singleton_append]
      rw [outer]
      rcases List.mem_append.mp mem with left | right
      · simp [left]
      · simp [right]

/-- The leftmost label of a tree has no left child. -/
theorem exists_leftmost {tree : BinTree α} (inner : tree ≠ nil) :
    ∃ context label right, tree = plug context (node nil label right) ∧ before context = [] := by
  induction tree with
  | nil => exact absurd rfl inner
  | node left label right leftIh =>
      by_cases empty : left = nil
      · exact ⟨[], label, right, by rw [empty]; rfl, rfl⟩
      · rcases leftIh empty with ⟨context, first, child, rfl, none⟩
        refine ⟨context ++ [.left label right], first, child, ?_, ?_⟩
        · rw [plug_append]
          rfl
        · rw [before_append, none]
          rfl

/-! ## Relabelling -/

/-- The tree with other labels. -/
def map (f : α → β) : BinTree α → BinTree β
  | nil => nil
  | node left label right => node (left.map f) (f label) (right.map f)

/-- The frame with other labels. -/
def Frame.map (f : α → β) : Frame α → Frame β
  | .left label beside => .left (f label) (beside.map f)
  | .right beside label => .right (beside.map f) (f label)

section Map

variable (f : α → β)

@[simp]
theorem root_map (tree : BinTree α) : (tree.map f).root = tree.root.map f := by
  cases tree <;> rfl

@[simp]
theorem inorder_map (tree : BinTree α) : (tree.map f).inorder = tree.inorder.map f := by
  induction tree with
  | nil => rfl
  | node left label right leftIh rightIh => simp [map, leftIh, rightIh]

theorem map_plug (context : List (Frame α)) (tree : BinTree α) :
    (plug context tree).map f = plug (context.map (Frame.map f)) (tree.map f) := by
  induction context generalizing tree with
  | nil => rfl
  | cons frame up ih => cases frame <;> exact ih _

@[simp]
theorem parentOf_map (context : List (Frame α)) :
    parentOf (context.map (Frame.map f)) = (parentOf context).map f := by
  cases context with
  | nil => rfl
  | cons frame up => cases frame <;> rfl

@[simp]
theorem before_map (context : List (Frame α)) :
    before (context.map (Frame.map f)) = (before context).map f := by
  induction context with
  | nil => rfl
  | cons frame up ih => cases frame <;> simp [Frame.map, before, ih]

@[simp]
theorem after_map (context : List (Frame α)) :
    after (context.map (Frame.map f)) = (after context).map f := by
  induction context with
  | nil => rfl
  | cons frame up ih => cases frame <;> simp [Frame.map, after, ih]

theorem map_join (mirrored : Bool) (near : BinTree α) (label : α) (far : BinTree α) :
    (join mirrored near label far).map f =
      join mirrored (near.map f) (f label) (far.map f) := by
  cases mirrored <;> rfl

end Map

/-! ## The invariant -/

section Red

variable (red : α → Prop)

/-- The root is not red. -/
def RootBlack : BinTree α → Prop
  | nil => True
  | node _ label _ => ¬ red label

instance [DecidablePred red] : DecidablePred (RootBlack red)
  | nil => isTrue trivial
  | node _ label _ => inferInstanceAs (Decidable (¬ red label))

/-- No red label has a red child, and there are `n` black ones on every way down. -/
def RedBlack : BinTree α → Nat → Prop
  | nil, n => n = 0
  | node left label right, n =>
      red label ∧ RootBlack red left ∧ RootBlack red right ∧ left.RedBlack n ∧ right.RedBlack n ∨
        ¬ red label ∧ ∃ k, n = k + 1 ∧ left.RedBlack k ∧ right.RedBlack k

/-- The label above a hole is black. -/
def BlackAbove (context : List (Frame α)) : Prop :=
  ∃ label, parentOf context = some label ∧ ¬ red label

/-- A hole for a tree with `n` black labels on every way down, and with a black root unless the
label above is black. -/
def Fits : List (Frame α) → Nat → Prop
  | [], _ => True
  | frame :: up, n =>
      frame.beside.RedBlack red n ∧
        (red frame.label ∧ RootBlack red frame.beside ∧ BlackAbove red up ∧ Fits up n ∨
          ¬ red frame.label ∧ Fits up (n + 1))

/-- The invariant of a whole tree. -/
def IsRedBlack (tree : BinTree α) : Prop :=
  RootBlack red tree ∧ ∃ n, tree.RedBlack red n

variable {red}

theorem rootBlack_join (mirrored : Bool) (near : BinTree α) (label : α) (far : BinTree α) :
    RootBlack red (join mirrored near label far) ↔ ¬ red label := by
  cases mirrored <;> rfl

/-- The root of a tree is red only if the tree has one. -/
theorem exists_red_root (mirrored : Bool) {tree : BinTree α} (not_black : ¬ RootBlack red tree) :
    ∃ near label far, tree = join mirrored near label far ∧ red label := by
  cases tree with
  | nil => exact absurd trivial not_black
  | node left label right =>
      rcases exists_join mirrored left label right with ⟨near, far, same⟩
      exact ⟨near, label, far, same, not_not.mp not_black⟩

theorem redBlack_red (mirrored : Bool) {near far : BinTree α} {label : α} (isRed : red label)
    {n : Nat} :
    (join mirrored near label far).RedBlack red n ↔
      (RootBlack red near ∧ RootBlack red far) ∧ near.RedBlack red n ∧ far.RedBlack red n := by
  cases mirrored <;> simp only [join, RedBlack, isRed, true_and, not_true, false_and, or_false] <;>
    tauto

theorem redBlack_black (mirrored : Bool) {near far : BinTree α} {label : α}
    (isBlack : ¬ red label) {n : Nat} :
    (join mirrored near label far).RedBlack red n ↔
      ∃ k, n = k + 1 ∧ near.RedBlack red k ∧ far.RedBlack red k := by
  cases mirrored <;>
    simp only [join, RedBlack, isBlack, not_false_eq_true, true_and, false_and, false_or,
      and_comm (a := BinTree.RedBlack red near _)]

theorem redBlack_black_succ (mirrored : Bool) {near far : BinTree α} {label : α}
    (isBlack : ¬ red label) {n : Nat} :
    (join mirrored near label far).RedBlack red (n + 1) ↔
      near.RedBlack red n ∧ far.RedBlack red n := by
  rw [redBlack_black mirrored isBlack]
  constructor
  · rintro ⟨k, same, balanced⟩
    rwa [Nat.succ.inj same]
  · exact fun balanced => ⟨n, rfl, balanced⟩

theorem blackAbove_cons {frame : Frame α} {up : List (Frame α)} :
    BlackAbove red (frame :: up) ↔ ¬ red frame.label := by
  simp [BlackAbove]

theorem fits_on {mirrored : Bool} {label : α} {beside : BinTree α} {up : List (Frame α)} {n : Nat} :
    Fits red (.on mirrored label beside :: up) n ↔
      beside.RedBlack red n ∧
        (red label ∧ RootBlack red beside ∧ BlackAbove red up ∧ Fits red up n ∨
          ¬ red label ∧ Fits red up (n + 1)) := by
  simp only [Fits, Frame.label_on, Frame.beside_on]

/-- A tree with a hole has the invariant when the tree in the hole has its part and fits. -/
theorem isRedBlack_plug_iff {context : List (Frame α)} {tree : BinTree α} :
    IsRedBlack red (plug context tree) ↔
      ∃ n, tree.RedBlack red n ∧ Fits red context n ∧
        (RootBlack red tree ∨ BlackAbove red context) := by
  induction context generalizing tree with
  | nil =>
      simp only [plug_nil, IsRedBlack, Fits, BlackAbove, parentOf, reduceCtorEq, false_and,
        exists_false, or_false, true_and]
      tauto
  | cons frame up ih =>
      rcases frame.exists_on with ⟨mirrored, same⟩
      generalize frame.label = label, frame.beside = beside at same
      subst same
      rw [plug_on, ih]
      simp only [fits_on, blackAbove_cons, Frame.label_on, rootBlack_join]
      by_cases isRed : red label
      · simp only [redBlack_red mirrored isRed, isRed, not_true, or_false, false_or, false_and,
          true_and]
        constructor
        · rintro ⟨n, ⟨⟨rootBlack, besideBlack⟩, balanced, beside⟩, fits, above⟩
          exact ⟨n, balanced, ⟨beside, besideBlack, above, fits⟩, rootBlack⟩
        · rintro ⟨n, balanced, ⟨beside, besideBlack, above, fits⟩, rootBlack⟩
          exact ⟨n, ⟨⟨rootBlack, besideBlack⟩, balanced, beside⟩, fits, above⟩
      · simp only [redBlack_black mirrored isRed, isRed, not_false_eq_true, true_or, or_true,
          false_and, false_or, true_and, and_true]
        constructor
        · rintro ⟨_, ⟨n, rfl, balanced, beside⟩, fits⟩
          exact ⟨n, balanced, beside, fits⟩
        · rintro ⟨n, balanced, beside, fits⟩
          exact ⟨n + 1, ⟨n, rfl, balanced, beside⟩, fits⟩

section Relabel

variable {mirrored : Bool} {inner up : List (Frame α)} {first second : α} {beside tree : BinTree α}
  (same : red first ↔ red second)

include same

theorem blackAbove_relabel (above : BlackAbove red (inner ++ .on mirrored first beside :: up)) :
    BlackAbove red (inner ++ .on mirrored second beside :: up) := by
  cases inner with
  | nil => simpa [blackAbove_cons, same] using above
  | cons frame inner => simpa [blackAbove_cons] using above

/-- A label around a hole gives way to another one of its colour. -/
theorem fits_relabel {n : Nat} (fits : Fits red (inner ++ .on mirrored first beside :: up) n) :
    Fits red (inner ++ .on mirrored second beside :: up) n := by
  induction inner generalizing n with
  | nil => simpa only [List.nil_append, fits_on, same] using fits
  | cons frame inner ih =>
      rcases fits with ⟨balanced, ⟨isRed, besideBlack, above, fits⟩ | ⟨isBlack, fits⟩⟩
      · exact ⟨balanced, .inl ⟨isRed, besideBlack, blackAbove_relabel same above, ih fits⟩⟩
      · exact ⟨balanced, .inr ⟨isBlack, ih fits⟩⟩

theorem IsRedBlack.relabel
    (whole : IsRedBlack red (plug (inner ++ .on mirrored first beside :: up) tree)) :
    IsRedBlack red (plug (inner ++ .on mirrored second beside :: up) tree) := by
  rcases isRedBlack_plug_iff.mp whole with ⟨n, balanced, fits, place⟩
  exact isRedBlack_plug_iff.mpr
    ⟨n, balanced, fits_relabel same fits, place.imp_right (blackAbove_relabel same)⟩

end Relabel

/-! ## Insertion -/

variable (red) in
/-- An insertion has come up to a tree, which has the invariant and would fit if the label above
were black. -/
def Raised (context : List (Frame α)) (tree : BinTree α) : Prop :=
  ∃ n, tree.RedBlack red n ∧ Fits red context n

/-- A root that becomes black. -/
theorem RedBlack.blacken {left right : BinTree α} {label : α} {n : Nat}
    (balanced : (node left label right).RedBlack red n) {next : α} (isBlack : ¬ red next) :
    IsRedBlack red (node left next right) := by
  refine ⟨isBlack, ?_⟩
  rcases balanced with ⟨_, _, _, leftBalanced, rightBalanced⟩ |
    ⟨_, k, rfl, leftBalanced, rightBalanced⟩
  · exact ⟨n + 1, .inr ⟨isBlack, n, rfl, leftBalanced, rightBalanced⟩⟩
  · exact ⟨k + 1, .inr ⟨isBlack, k, rfl, leftBalanced, rightBalanced⟩⟩

namespace Raised

variable {mirrored side : Bool} {up context : List (Frame α)}
  {tree beside uncle near far : BinTree α} {parent parent' gparent gparent' label : α}

/-- A red leaf comes into a hole. -/
theorem leaf (whole : IsRedBlack red (plug context nil)) (isRed : red label) :
    Raised red context (node nil label nil) := by
  rcases isRedBlack_plug_iff.mp whole with ⟨n, empty, fits, _⟩
  obtain rfl : n = 0 := empty
  exact ⟨0, .inl ⟨isRed, trivial, trivial, rfl, rfl⟩, fits⟩

/-- Below a black label the insertion ends. -/
theorem done (raised : Raised red context tree) (above : BlackAbove red context) :
    IsRedBlack red (plug context tree) := by
  rcases raised with ⟨n, balanced, fits⟩
  exact isRedBlack_plug_iff.mpr ⟨n, balanced, fits, .inr above⟩

/-- A red label has a black one above it. -/
theorem gparent_black (raised : Raised red (.on mirrored parent beside :: up) tree)
    (isRed : red parent) : BlackAbove red up := by
  rcases raised with ⟨n, _, fits⟩
  rcases (fits_on.mp fits).2 with ⟨_, _, above, _⟩ | ⟨isBlack, _⟩
  · exact above
  · exact absurd isRed isBlack

/-- The subtrees around a red label above the tree and a black one above it. -/
theorem around
    (raised : Raised red (.on mirrored parent beside :: .on side gparent uncle :: up) tree)
    (isRed : red parent) :
    ∃ n, tree.RedBlack red n ∧ beside.RedBlack red n ∧ RootBlack red beside ∧
      uncle.RedBlack red n ∧ Fits red up (n + 1) ∧ ¬ red gparent := by
  have isBlack := blackAbove_cons.mp (raised.gparent_black isRed)
  rw [Frame.label_on] at isBlack
  rcases raised with ⟨n, balanced, fits⟩
  rcases fits_on.mp fits with ⟨besideBalanced, ⟨_, besideBlack, _, fits⟩ | ⟨parentBlack, _⟩⟩
  · rcases fits_on.mp fits with ⟨uncleBalanced, ⟨gparentRed, _⟩ | ⟨_, outer⟩⟩
    · exact absurd gparentRed isBlack
    · exact ⟨n, balanced, besideBalanced, besideBlack, uncleBalanced, outer, isBlack⟩
  · exact absurd isRed parentBlack

/-- With a red uncle the colours change, and the insertion goes on two labels above. -/
theorem recolor {place : Bool} {other other' : α}
    (raised : Raised red (.on mirrored parent beside ::
      .on side gparent (join place near other far) :: up) tree)
    (isRed : red parent) (otherRed : red other) (otherBlack : ¬ red other')
    (parentBlack : ¬ red parent') (gparentRed : red gparent') :
    Raised red up (join side (join mirrored tree parent' beside) gparent'
      (join place near other' far)) := by
  rcases raised.around isRed with ⟨n, balanced, besideBalanced, _, uncleBalanced, outer, _⟩
  rw [redBlack_red place otherRed] at uncleBalanced
  refine ⟨n + 1, ?_, outer⟩
  rw [redBlack_red side gparentRed, redBlack_black_succ mirrored parentBlack,
    redBlack_black_succ place otherBlack, rootBlack_join, rootBlack_join]
  exact ⟨⟨parentBlack, otherBlack⟩, ⟨balanced, besideBalanced⟩, uncleBalanced.2⟩

/-- A tree on the inner side is rotated to the outer side. -/
theorem inner
    (raised : Raised red (.on (!mirrored) parent beside :: .on mirrored gparent uncle :: up)
      (join mirrored near label far))
    (isRed : red parent) (labelRed : red label) :
    Raised red (.on mirrored label far :: .on mirrored gparent uncle :: up)
      (join mirrored beside parent near) := by
  rcases raised.around isRed with
    ⟨n, balanced, besideBalanced, besideBlack, uncleBalanced, outer, isBlack⟩
  rcases (redBlack_red mirrored labelRed).mp balanced with
    ⟨⟨nearBlack, farBlack⟩, nearBalanced, farBalanced⟩
  refine ⟨n, ?_, ?_⟩
  · rw [redBlack_red mirrored isRed]
    exact ⟨⟨besideBlack, nearBlack⟩, besideBalanced, nearBalanced⟩
  · rw [fits_on, fits_on, blackAbove_cons, Frame.label_on]
    exact ⟨farBalanced, .inl ⟨labelRed, farBlack, isBlack, uncleBalanced, .inr ⟨isBlack, outer⟩⟩⟩

/-- A rotation puts a black label above a tree on the outer side. -/
theorem outer
    (raised : Raised red (.on mirrored parent beside :: .on mirrored gparent uncle :: up) tree)
    (isRed : red parent) (uncleBlack : RootBlack red uncle) (parentBlack : ¬ red parent')
    (gparentRed : red gparent') :
    Raised red (.on mirrored parent' (join mirrored beside gparent' uncle) :: up) tree := by
  rcases raised.around isRed with
    ⟨n, balanced, besideBalanced, besideBlack, uncleBalanced, outer, _⟩
  refine ⟨n, balanced, ?_⟩
  rw [fits_on, redBlack_red mirrored gparentRed]
  exact ⟨⟨⟨besideBlack, uncleBlack⟩, besideBalanced, uncleBalanced⟩, .inr ⟨parentBlack, outer⟩⟩

end Raised

/-! ## Removal -/

variable (red) in
/-- A removal has come up to a tree, in which each way down is one black label short: the root
is red and may become black, or the tree has the invariant with a black root. -/
def Lowered (context : List (Frame α)) (tree : BinTree α) : Prop :=
  ∃ n, Fits red context (n + 1) ∧
    (RootBlack red tree ∧ tree.RedBlack red n ∨
      ∃ left label right, tree = node left label right ∧ red label ∧
        left.RedBlack red n ∧ right.RedBlack red n)

namespace Lowered

variable {mirrored side : Bool} {up context : List (Frame α)} {tree near far child : BinTree α}
  {parent parent' other other' label : α}

/-- A black label without one of its children leaves the other child behind. -/
theorem start (whole : IsRedBlack red (plug context (join mirrored nil label child)))
    (isBlack : ¬ red label) : Lowered red context child := by
  rcases isRedBlack_plug_iff.mp whole with ⟨_, balanced, fits, _⟩
  rcases (redBlack_black mirrored isBlack).mp balanced with ⟨n, rfl, _, childBalanced⟩
  refine ⟨n, fits, ?_⟩
  by_cases childBlack : RootBlack red child
  · exact .inl ⟨childBlack, childBalanced⟩
  · rcases exists_red_root false childBlack with ⟨left, top, right, rfl, topRed⟩
    exact .inr ⟨left, top, right, rfl, topRed, ((redBlack_red false topRed).mp childBalanced).2⟩

/-- A red label without one of its children is not missed. -/
theorem unneeded (whole : IsRedBlack red (plug context (join mirrored nil label child)))
    (isRed : red label) : IsRedBlack red (plug context child) := by
  rcases isRedBlack_plug_iff.mp whole with ⟨n, balanced, fits, _⟩
  rcases (redBlack_red mirrored isRed).mp balanced with ⟨⟨_, childBlack⟩, _, childBalanced⟩
  exact isRedBlack_plug_iff.mpr ⟨n, childBalanced, fits, .inl childBlack⟩

/-- A red root becomes black. -/
theorem repaint {left right : BinTree α} (lowered : Lowered red context (node left label right))
    (isRed : red label) {next : α} (isBlack : ¬ red next) :
    IsRedBlack red (plug context (node left next right)) := by
  rcases lowered with ⟨n, fits, ⟨rootBlack, _⟩ | ⟨_, _, _, ⟨rfl⟩, _, balanced⟩⟩
  · exact absurd isRed rootBlack
  · exact isRedBlack_plug_iff.mpr
      ⟨n + 1, .inr ⟨isBlack, n, rfl, balanced⟩, fits, .inl isBlack⟩

/-- A black root leaves the whole tree with the invariant. -/
theorem whole (lowered : Lowered red [] tree) (rootBlack : RootBlack red tree) :
    IsRedBlack red tree := by
  rcases lowered with ⟨n, _, ⟨_, balanced⟩ | ⟨_, _, _, rfl, isRed, _⟩⟩
  · exact ⟨rootBlack, n, balanced⟩
  · exact absurd isRed rootBlack

/-- What is beside a tree with a black root is higher by one black label. -/
theorem around {beside : BinTree α} (lowered : Lowered red (.on mirrored parent beside :: up) tree)
    (rootBlack : RootBlack red tree) :
    ∃ n, tree.RedBlack red n ∧ beside.RedBlack red (n + 1) ∧
      (red parent ∧ RootBlack red beside ∧ BlackAbove red up ∧ Fits red up (n + 1) ∨
        ¬ red parent ∧ Fits red up (n + 2)) := by
  rcases lowered with ⟨n, fits, ⟨_, balanced⟩ | ⟨_, _, _, rfl, isRed, _⟩⟩
  · exact ⟨n, balanced, fits_on.mp fits⟩
  · exact absurd isRed rootBlack

/-- There is something beside a tree with a black root. -/
theorem sibling {beside : BinTree α} (lowered : Lowered red (.on mirrored parent beside :: up) tree)
    (rootBlack : RootBlack red tree) :
    ∃ near other far, beside = join mirrored near other far := by
  rcases lowered.around rootBlack with ⟨n, _, balanced, _⟩
  cases beside with
  | nil => cases balanced
  | node left other right =>
      rcases exists_join mirrored left other right with ⟨near, far, same⟩
      exact ⟨near, other, far, same⟩

/-- A red sibling is rotated above the parent, and a black one takes its place. -/
theorem redSibling
    (lowered : Lowered red (.on mirrored parent (join mirrored near other far) :: up) tree)
    (rootBlack : RootBlack red tree) (otherRed : red other) (parentRed : red parent')
    (otherBlack : ¬ red other') :
    Lowered red (.on mirrored parent' near :: .on mirrored other' far :: up) tree ∧
      RootBlack red near := by
  rcases lowered.around rootBlack with ⟨n, balanced, besideBalanced, fits⟩
  rcases (redBlack_red mirrored otherRed).mp besideBalanced with
    ⟨⟨nearBlack, farBlack⟩, nearBalanced, farBalanced⟩
  rw [rootBlack_join] at fits
  rcases fits with ⟨_, isBlack, _⟩ | ⟨_, fits⟩
  · exact absurd otherRed isBlack
  · refine ⟨⟨n, ?_, .inl ⟨rootBlack, balanced⟩⟩, nearBlack⟩
    rw [fits_on, fits_on, blackAbove_cons, Frame.label_on]
    exact ⟨nearBalanced, .inl ⟨parentRed, nearBlack, otherBlack, farBalanced,
      .inr ⟨otherBlack, fits⟩⟩⟩

/-- A black sibling with no red child becomes red, and the removal goes on at the parent. -/
theorem higher
    (lowered : Lowered red (.on mirrored parent (join mirrored near other far) :: up) tree)
    (rootBlack : RootBlack red tree) (isBlack : ¬ red other) (nearBlack : RootBlack red near)
    (farBlack : RootBlack red far) (otherRed : red other') :
    Lowered red up (join mirrored tree parent (join mirrored near other' far)) := by
  rcases lowered.around rootBlack with ⟨n, balanced, besideBalanced, fits⟩
  rw [redBlack_black_succ mirrored isBlack] at besideBalanced
  have painted : (join mirrored near other' far).RedBlack red n :=
    (redBlack_red mirrored otherRed).mpr ⟨⟨nearBlack, farBlack⟩, besideBalanced⟩
  rcases fits with ⟨parentRed, _, _, fits⟩ | ⟨parentBlack, fits⟩
  · refine ⟨n, fits, .inr ?_⟩
    cases mirrored with
    | false => exact ⟨_, _, _, rfl, parentRed, balanced, painted⟩
    | true => exact ⟨_, _, _, rfl, parentRed, painted, balanced⟩
  · refine ⟨n + 1, fits, .inl ⟨(rootBlack_join _ _ _ _).mpr parentBlack, ?_⟩⟩
    exact (redBlack_black_succ mirrored parentBlack).mpr ⟨balanced, painted⟩

/-- A red near child of a black sibling is rotated into the place of the sibling. -/
theorem inner {first second : BinTree α} {inner inner' : α}
    (lowered : Lowered red
      (.on mirrored parent (join mirrored (join mirrored first inner second) other far) :: up) tree)
    (rootBlack : RootBlack red tree) (isBlack : ¬ red other) (innerRed : red inner)
    (farBlack : RootBlack red far) (innerBlack : ¬ red inner') (otherRed : red other') :
    Lowered red
      (.on mirrored parent (join mirrored first inner' (join mirrored second other' far)) :: up)
      tree := by
  rcases lowered.around rootBlack with ⟨n, balanced, besideBalanced, fits⟩
  rw [redBlack_black_succ mirrored isBlack, redBlack_red mirrored innerRed] at besideBalanced
  rcases besideBalanced with ⟨⟨⟨_, secondBlack⟩, firstBalanced, secondBalanced⟩, farBalanced⟩
  refine ⟨n, ?_, .inl ⟨rootBlack, balanced⟩⟩
  rw [fits_on, redBlack_black_succ mirrored innerBlack, redBlack_red mirrored otherRed,
    rootBlack_join]
  rw [rootBlack_join] at fits
  refine ⟨⟨firstBalanced, ⟨secondBlack, farBlack⟩, secondBalanced, farBalanced⟩, ?_⟩
  simpa only [isBlack, innerBlack, not_false_eq_true] using fits

/-- With a red far child the sibling is rotated above the parent, and the removal ends. -/
theorem outer {first second : BinTree α} {outer outer' : α}
    (lowered : Lowered red
      (.on mirrored parent (join mirrored near other (join mirrored first outer second)) :: up)
      tree)
    (rootBlack : RootBlack red tree) (isBlack : ¬ red other) (outerRed : red outer)
    (parentBlack : ¬ red parent') (outerBlack : ¬ red outer') (same : red other' ↔ red parent) :
    IsRedBlack red (plug up (join mirrored (join mirrored tree parent' near) other'
      (join mirrored first outer' second))) := by
  rcases lowered.around rootBlack with ⟨n, balanced, besideBalanced, fits⟩
  rw [redBlack_black_succ mirrored isBlack, redBlack_red mirrored outerRed] at besideBalanced
  rcases besideBalanced with ⟨nearBalanced, _, outerBalanced⟩
  have parentBalanced : (join mirrored tree parent' near).RedBlack red (n + 1) :=
    (redBlack_black_succ mirrored parentBlack).mpr ⟨balanced, nearBalanced⟩
  have painted : (join mirrored first outer' second).RedBlack red (n + 1) :=
    (redBlack_black_succ mirrored outerBlack).mpr outerBalanced
  rw [isRedBlack_plug_iff, rootBlack_join]
  rcases fits with ⟨parentRed, _, above, fits⟩ | ⟨wasBlack, fits⟩
  · refine ⟨n + 1, ?_, fits, .inr above⟩
    rw [redBlack_red mirrored (same.mpr parentRed), rootBlack_join, rootBlack_join]
    exact ⟨⟨parentBlack, outerBlack⟩, parentBalanced, painted⟩
  · refine ⟨n + 2, ?_, fits, .inl (mt same.mp wasBlack)⟩
    rw [redBlack_black_succ mirrored (mt same.mp wasBlack)]
    exact ⟨parentBalanced, painted⟩

/-- A label around the hole gives way to another one of its colour. -/
theorem relabel {inner : List (Frame α)} {first second : α} (same : red first ↔ red second)
    (lowered : Lowered red (inner ++ .on mirrored first near :: up) tree) :
    Lowered red (inner ++ .on mirrored second near :: up) tree := by
  rcases lowered with ⟨n, fits, balanced⟩
  exact ⟨n, fits_relabel same fits, balanced⟩

end Lowered

end Red

end Dnsp2p.BinTree
