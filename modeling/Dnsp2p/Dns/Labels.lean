import Dnsp2p.Dns.Name

/-!
# The grammar of names

A name that holds a key has the top level `key`, and in the label before it, apart from
dashes, the 32 characters of the key.  `f4dns_is_valid` decides this, except that it
stores the number of dashes in an `int`.
-/

namespace Dnsp2p.Dns

/-! ## Cutting at dots -/

/-- A string is cut at its first dot. -/
theorem strchr_dot_eq (label rest : Bytes) (plain : dot ∉ label) :
    strchr dot (label ++ dot :: rest) = some (dot :: rest) := by
  induction label with
  | nil => simp [strchr]
  | cons byte label ih =>
      rw [List.mem_cons, not_or] at plain
      rw [List.cons_append, strchr, if_neg (Ne.symm plain.1)]
      exact ih plain.2

theorem strchr_dot_eq_none {label : Bytes} (plain : dot ∉ label) : strchr dot label = none := by
  induction label with
  | nil => rfl
  | cons byte label ih =>
      rw [List.mem_cons, not_or] at plain
      rw [strchr, if_neg (Ne.symm plain.1)]
      exact ih plain.2

/-- The loop goes on from label to label. -/
theorem lastLabels_step {label : Bytes} (plain : dot ∉ label) (fuel : Nat) (a : Option Bytes)
    (rest : Bytes) :
    lastLabels (fuel + 1) a (label ++ dot :: rest) =
      lastLabels fuel (some (label ++ dot :: rest)) rest := by
  rw [lastLabels, strchr_dot_eq label rest plain]
  rfl

/-- At the last label the loop has the label before it. -/
theorem lastLabels_eq {fuel : Nat} {a : Option Bytes} {b : Bytes} (enough : b.length < fuel) :
    (dot ∉ b ∧ lastLabels fuel a b = .ok (a, b)) ∨
      ∃ earlier label last, b.splitOn dot = earlier ++ [label, last] ∧ dot ∉ label ∧
        lastLabels fuel a b = .ok (some (label ++ dot :: last), last) := by
  induction fuel generalizing a b with
  | zero => omega
  | succ fuel ih =>
      by_cases plain : dot ∉ b
      · left
        rw [lastLabels, strchr_dot_eq_none plain]
        exact ⟨plain, rfl⟩
      · right
        rcases List.eq_append_cons_of_mem (not_not.mp plain) with ⟨label, rest, rfl, first⟩
        rw [List.length_append, List.length_cons] at enough
        have shorter : rest.length < fuel := by omega
        rw [lastLabels_step first, List.splitOn_append_cons_self_of_not_mem first]
        rcases ih (a := some (label ++ dot :: rest)) shorter with ⟨last, loop⟩ |
          ⟨earlier, label', last, labels, plain', loop⟩
        · exact ⟨[], label, rest, by rw [List.splitOn_eq_singleton last]; rfl, first, loop⟩
        · exact ⟨label :: earlier, label', last, by rw [labels]; rfl, plain', loop⟩

/-! ## Deciding the grammar -/

/-- A name does not begin with a dot, its last label is `key`, and the label before it
has 32 characters that are no dashes. -/
structure IsKeyName (fqdn label : Bytes) : Prop where
  start : fqdn.head? ≠ some dot
  labels : ∃ earlier, fqdn.splitOn dot = earlier ++ [label, ascii "key"]
  size : label.countP (· ≠ dash) = 32

/-- `f4dns_is_valid` returns, and returns true exactly for the names of the grammar. -/
def Decides (fqdn : Bytes) : Prop :=
  ∃ valid, f4dnsIsValid fqdn = .ok valid ∧ (valid = true ↔ ∃ label, IsKeyName fqdn label)

/-- The subtraction of the dashes, of which an `int` holds the number. -/
theorem sub_bmod_eq_iff (others dashes : Nat) :
    ((others + dashes : Nat) : Int) - Int.bmod dashes (2 ^ 32) = 32 ↔
      others = 32 ∧ dashes < 2 ^ 31 := by
  simp only [Int.bmod]
  split <;> omega

theorem length_eq_others_add_dashes (label : Bytes) :
    label.length = label.countP (· ≠ dash) + label.count dash := by
  rw [List.length_eq_countP_add_countP (· == dash), Nat.add_comm, List.count]
  congr 2
  funext c
  simp

/-- The last two labels of a name are determined. -/
theorem last_two_inj {earlier earlier' : List Bytes} {label label' last last' : Bytes}
    (same : earlier ++ [label, last] = earlier' ++ [label', last']) :
    label = label' ∧ last = last' := by
  have ends := (List.append_inj' same rfl).2
  simpa using ends

theorem IsKeyName.unique {fqdn label label' : Bytes} (name : IsKeyName fqdn label)
    (name' : IsKeyName fqdn label') : label = label' := by
  rcases name.labels with ⟨earlier, labels⟩
  rcases name'.labels with ⟨earlier', labels'⟩
  exact (last_two_inj (labels.symm.trans labels')).1

/-- What `f4dns_is_valid` returns, by the labels of the name. -/
theorem f4dnsIsValid_eq {fqdn : Bytes} (long : 3 < fqdn.length) :
    ∃ valid, f4dnsIsValid fqdn = .ok valid ∧
      (valid = true ↔ ∃ label, IsKeyName fqdn label ∧ label.count dash < 2 ^ 31) := by
  rw [f4dnsIsValid, if_neg (not_le.mpr long)]
  by_cases dotted : fqdn.head? = some dot
  · rw [if_pos dotted]
    refine ⟨false, rfl, ?_⟩
    simp only [Bool.false_eq_true, false_iff]
    rintro ⟨label, name, _⟩
    exact name.start dotted
  · rw [if_neg dotted]
    have enough : fqdn.length < fqdn.length + 1 := Nat.lt_succ_self _
    rcases lastLabels_eq (a := none) enough with ⟨plain, loop⟩ |
      ⟨earlier, label, last, labels, plain, loop⟩
    · rw [loop]
      refine ⟨false, rfl, ?_⟩
      simp only [Bool.false_eq_true, false_iff]
      rintro ⟨label, name, _⟩
      rcases name.labels with ⟨earlier, labels⟩
      have lengths := congrArg List.length labels
      simp [List.splitOn_eq_singleton plain] at lengths
    · rw [loop, ok_bind]
      by_cases key : last = ascii "key"
      · subst key
        have dashes : countChar (label ++ dot :: ascii "key") dash = label.count dash := by
          rw [countChar, List.count_append]
          rfl
        have length : ((label ++ dot :: ascii "key").length : Int) - (dot :: ascii "key").length =
            ((label.countP (· ≠ dash) + label.count dash : Nat) : Int) := by
          rw [← length_eq_others_add_dashes, List.length_append]
          omega
        refine ⟨decide (label.countP (· ≠ dash) = 32 ∧ label.count dash < 2 ^ 31), ?_, ?_⟩
        · simp only [ne_eq, not_true_eq_false, if_false, strchr_dot_eq label _ plain, dashes,
            length, sub_bmod_eq_iff]
          rfl
        · rw [decide_eq_true_iff]
          constructor
          · rintro ⟨size, few⟩
            exact ⟨label, ⟨dotted, ⟨earlier, labels⟩, size⟩, few⟩
          · rintro ⟨label', name, few⟩
            rcases name.labels with ⟨earlier', labels'⟩
            obtain rfl := (last_two_inj (labels.symm.trans labels')).1
            exact ⟨name.size, few⟩
      · refine ⟨false, by simp [key], ?_⟩
        simp only [Bool.false_eq_true, false_iff]
        rintro ⟨label', name, _⟩
        rcases name.labels with ⟨earlier', labels'⟩
        exact key (last_two_inj (labels.symm.trans labels')).2

/-- `f4dns_is_valid` decides the grammar of a name exactly when the label before the last
one of a name of the grammar has no more dashes than an `int` counts. -/
theorem decides_iff {fqdn : Bytes} (long : 3 < fqdn.length) :
    Decides fqdn ↔ ∀ label, IsKeyName fqdn label → label.count dash < 2 ^ 31 := by
  rcases f4dnsIsValid_eq long with ⟨valid, returned, accepted⟩
  constructor
  · rintro ⟨valid', returned', decided⟩ label name
    cases returned.symm.trans returned'
    rcases accepted.mp (decided.mpr ⟨label, name⟩) with ⟨label', name', few⟩
    rwa [name.unique name']
  · intro few
    refine ⟨valid, returned, accepted.trans ⟨?_, ?_⟩⟩
    · rintro ⟨label, name, _⟩
      exact ⟨label, name⟩
    · rintro ⟨label, name⟩
      exact ⟨label, name, few label name⟩

/-- A name of four labels. -/
theorem decides_iff_name :
    Decides (ascii "a..0-123456789abcdefghijklmnopqrstu-v.key") ↔
      ∀ label, IsKeyName (ascii "a..0-123456789abcdefghijklmnopqrstu-v.key") label →
        label.count dash < 2 ^ 31 :=
  decides_iff (by decide)

/-- A label of 32 characters and some dashes. -/
def dashedLabel (dashes : Nat) : Bytes :=
  List.replicate 32 97 ++ List.replicate dashes dash

theorem dashedLabel_isKeyName (dashes : Nat) :
    IsKeyName (dashedLabel dashes ++ dot :: ascii "key") (dashedLabel dashes) where
  start := by
    rw [dashedLabel, List.append_assoc, List.replicate_succ, List.cons_append, List.head?_cons]
    decide
  labels := by
    have plain : dot ∉ dashedLabel dashes := by
      rw [dashedLabel, List.mem_append, List.mem_replicate, List.mem_replicate]
      rintro (⟨_, same⟩ | ⟨_, same⟩)
      · exact absurd same (by decide)
      · exact absurd same (by decide)
    have last : (ascii "key").splitOn dot = [ascii "key"] := by decide
    exact ⟨[], by rw [List.splitOn_append_cons_self_of_not_mem plain, last]; rfl⟩
  size := by
    rw [dashedLabel, List.countP_append, List.countP_replicate, List.countP_replicate]
    rfl

theorem count_dashedLabel (dashes : Nat) : (dashedLabel dashes).count dash = dashes := by
  rw [dashedLabel, List.count_append, List.count_replicate, List.count_replicate_self]
  exact Nat.zero_add dashes

/-- With 2147483648 dashes their number becomes negative, and a name of the grammar is
refused. -/
theorem dashedLabel_refused :
    f4dnsIsValid (dashedLabel (2 ^ 31) ++ dot :: ascii "key") = .ok false ∧
      ¬ Decides (dashedLabel (2 ^ 31) ++ dot :: ascii "key") := by
  have name := dashedLabel_isKeyName (2 ^ 31)
  have long : 3 < (dashedLabel (2 ^ 31) ++ dot :: ascii "key").length := by
    rw [List.length_append]
    exact Nat.lt_add_left _ (by decide)
  rcases f4dnsIsValid_eq long with ⟨valid, returned, accepted⟩
  have refused : valid ≠ true := by
    intro holds
    rcases accepted.mp holds with ⟨label, name', few⟩
    rw [name'.unique name, count_dashedLabel] at few
    exact lt_irrefl _ few
  obtain rfl : valid = false := Bool.eq_false_of_not_eq_true refused
  refine ⟨returned, ?_⟩
  rintro ⟨valid, returned', decided⟩
  cases returned.symm.trans returned'
  exact absurd (decided.mpr ⟨_, name⟩) (by decide)

end Dnsp2p.Dns
