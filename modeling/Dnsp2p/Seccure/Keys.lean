import Dnsp2p.Dns.Name
import Dnsp2p.Seccure.Curves

/-!
# Names and ids of keys

The text form of a key is a label that `f4dns_is_valid` counts as one; the binary form
is what `f4_init_crypto` stores and `f4_init_p2p` passes on as the id of the node.
-/

namespace Dnsp2p.Seccure

/-! ## The curve of the program -/

/-- The curve that `f4_init_crypto` loads, with the lengths of a serialized point. -/
theorem curveByName_p160 :
    (curveByName (ascii "p160") .base36).map (Option.map fun cp =>
      (cp.pkLenBin, cp.pkLenCompact, cp.dp.m)) =
        .ok (some (21, 32, 0xffffffffffffffffffffffffffffffff7fffffff)) := by
  decide +kernel

section P160

variable {cp : CurveParams}

theorem p160_lengths (named : curveByName (ascii "p160") .base36 = .ok (some cp)) :
    cp.pkLenBin = 21 ∧ cp.pkLenCompact = 32 ∧
      cp.dp.m = 0xffffffffffffffffffffffffffffffff7fffffff := by
  have lengths := curveByName_p160
  rw [named] at lengths
  have lengths := Option.some.inj (Except.ok.inj lengths)
  simpa only [Prod.mk.injEq] using lengths

theorem p160_loaded : ∃ cp, curveByName (ascii "p160") .base36 = .ok (some cp) := by
  have lengths := curveByName_p160
  cases loaded : curveByName (ascii "p160") .base36 with
  | error fault =>
      rw [loaded] at lengths
      cases lengths
  | ok cp? =>
      cases cp? with
      | none =>
          rw [loaded] at lengths
          cases lengths
      | some cp => exact ⟨cp, rfl⟩

theorem loadCurve_of_named {name : Bytes} {df : DispFormat}
    (named : curveByName name df = .ok (some cp)) : ∃ c ∈ curves, loadCurve c df = .ok cp := by
  unfold curveByName at named
  cases found : curves.find? fun c => strstr name c.name with
  | none =>
      rw [found] at named
      cases named
  | some c =>
      rw [found] at named
      rcases bind_eq_ok_iff.mp named with ⟨cp', loaded, same⟩
      cases same
      exact ⟨c, List.mem_of_find?_eq_some found, loaded⟩

end P160

/-! ## Names -/

open Dnsp2p.Dns

theorem strchr_append {c : UInt8} {label : Bytes} (absent : c ∉ label) (rest : Bytes) :
    strchr c (label ++ c :: rest) = some (c :: rest) := by
  induction label with
  | nil => simp [strchr]
  | cons byte label ih =>
      have differ : byte ≠ c := fun same => absent (same ▸ List.mem_cons_self)
      rw [List.cons_append, strchr, if_neg differ]
      exact ih fun mem => absent (List.mem_cons_of_mem _ mem)

theorem strchr_absent {c : UInt8} {label : Bytes} (absent : c ∉ label) : strchr c label = none := by
  induction label with
  | nil => rfl
  | cons byte label ih =>
      have differ : byte ≠ c := fun same => absent (same ▸ List.mem_cons_self)
      rw [strchr, if_neg differ]
      exact ih fun mem => absent (List.mem_cons_of_mem _ mem)

/-- The loop of `f4dns_is_valid` ends at the last two labels, whatever labels stand in
front of them. -/
theorem lastLabels_append {label last : Bytes} (single : dot ∉ label) (final : dot ∉ last)
    {labels : Bytes} (ended : labels = [] ∨ labels.getLast? = some dot) {fuel : Nat}
    (enough : (labels ++ (label ++ dot :: last)).length < fuel) (a : Option Bytes) :
    lastLabels fuel a (labels ++ (label ++ dot :: last)) =
      .ok (some (label ++ dot :: last), last) := by
  induction fuel generalizing labels a with
  | zero => omega
  | succ fuel ih =>
      by_cases dotted : dot ∈ labels
      · rcases List.eq_append_cons_of_mem dotted with ⟨first, others, rfl, clean⟩
        have whole : first ++ dot :: others ++ (label ++ dot :: last) =
            first ++ dot :: (others ++ (label ++ dot :: last)) := by simp
        rw [whole] at enough ⊢
        rw [lastLabels, strchr_append clean]
        apply ih
        · cases others with
          | nil => exact .inl rfl
          | cons c others =>
              right
              rcases ended with nil | ends
              · simp at nil
              · simpa [List.getLast?_append, List.getLast?_cons_cons] using ends
        · simp only [List.length_append, List.length_cons] at enough ⊢
          omega
      · have none : labels = [] := by
          rcases ended with nil | ends
          · exact nil
          · exact absurd (List.mem_of_getLast? ends) dotted
        subst none
        rw [List.nil_append] at enough ⊢
        cases fuel with
        | zero => simp at enough
        | succ fuel =>
            rw [lastLabels, strchr_append single]
            dsimp only
            rw [lastLabels, List.drop_one, List.tail_cons, strchr_absent final]

/-- A name of 32 characters in front of `.key` is accepted, whatever labels stand in
front of it. -/
theorem isValid_label {label labels : Bytes} (length : label.length = 32) (single : dot ∉ label)
    (plain : dash ∉ label)
    (ended : labels = [] ∨ labels.head? ≠ some dot ∧ labels.getLast? = some dot) :
    IsValid (labels ++ label ++ ascii ".key") := by
  have key : ascii ".key" = dot :: ascii "key" := by decide
  have final : dot ∉ ascii "key" := by decide
  have tail : dash ∉ dot :: ascii "key" := by decide
  rw [IsValid, key, List.append_assoc]
  have starts : (labels ++ (label ++ dot :: ascii "key")).head? ≠ some dot := by
    rcases ended with rfl | ⟨other, ends⟩
    · cases label with
      | nil => cases length
      | cons c label =>
          intro first
          exact single (Option.some.inj first ▸ List.mem_cons_self)
    · cases labels with
      | nil => cases ends
      | cons c labels => exact other
  have loop := lastLabels_append single final (ended.imp_right And.right)
    (Nat.lt_succ_self (labels ++ (label ++ dot :: ascii "key")).length) none
  have long : ¬ (labels ++ (label ++ dot :: ascii "key")).length ≤ 3 := by
    simp only [List.length_append, length]
    omega
  have dashes : countChar (label ++ dot :: ascii "key") dash = 0 := by
    apply List.count_eq_zero_of_not_mem
    intro mem
    rcases List.mem_append.mp mem with front | back
    · exact plain front
    · exact tail back
  rw [f4dnsIsValid, if_neg long, if_neg starts, loop, ok_bind]
  simp only [ne_eq, not_true_eq_false, if_false, strchr_append single, dashes]
  simp [length]

/-! ## The text form -/

/-- The text form of a key has 32 digits, is accepted as a name behind any labels, and
gives back the coordinate and the parity of the point. -/
theorem keyName_accepted {p : AffinePoint} {cp : CurveParams}
    (named : curveByName (ascii "p160") .base36 = .ok (some cp)) (reduced : p.x < cp.dp.m) :
    ∃ name, compressToString .base36 p cp = .ok name ∧ name.length = 32 ∧
      dot ∉ name ∧ dash ∉ name ∧
      (∀ labels, labels = [] ∨ labels.head? ≠ some dot ∧ labels.getLast? = some dot →
        IsValid (labels ++ name ++ ascii ".key")) ∧
      deserializeMpi .base36 name 32 = .ok (some (cp.compressed p)) ∧
      ∀ pointDecompress, decompressFromString pointDecompress (name ++ [0]) .base36 cp =
        pointDecompress p.x (p.y.testBit 0) cp.dp := by
  rcases p160_lengths named with ⟨_, width, _⟩
  rcases loadCurve_of_named named with ⟨c, _, loaded⟩
  have tabled : table .base36 = some base36Digits := rfl
  rcases compress_decompress tabled loaded reduced with
    ⟨name, written, length, known, read, decompressed⟩
  rw [width] at length read
  have single : dot ∉ name := fun mem => absurd (known dot mem) (by decide +kernel)
  have plain : dash ∉ name := fun mem => absurd (known dash mem) (by decide +kernel)
  refine ⟨name, written, length, single, plain, ?_, read, decompressed⟩
  intro labels ended
  exact isValid_label length single plain ended

/-- The base point of the curve. -/
def basePoint : AffinePoint where
  x := 0x4a96b5688ef573284664698968c38bb913cbfc82
  y := 0x23a628553168947d59dcc912042351377ac5fb32

theorem keyName_accepted_basePoint :
    ∃ cp, curveByName (ascii "p160") .base36 = .ok (some cp) ∧
      ∃ name, compressToString .base36 basePoint cp = .ok name ∧ name.length = 32 ∧
        dot ∉ name ∧ dash ∉ name ∧
        (∀ labels, labels = [] ∨ labels.head? ≠ some dot ∧ labels.getLast? = some dot →
          IsValid (labels ++ name ++ ascii ".key")) ∧
        deserializeMpi .base36 name 32 = .ok (some (cp.compressed basePoint)) ∧
        ∀ pointDecompress, decompressFromString pointDecompress (name ++ [0]) .base36 cp =
          pointDecompress basePoint.x (basePoint.y.testBit 0) cp.dp := by
  rcases p160_loaded with ⟨cp, named⟩
  refine ⟨cp, named, keyName_accepted named ?_⟩
  rw [(p160_lengths named).2.2]
  decide

/-! ## Node ids -/

section NodeId

-- the public point of a private key: `pointmul` of the base point of a curve and the
-- exponent that `hash_to_exponent` makes of the key
variable (publicPoint : Field 32 → CurveParams → AffinePoint)

/-- The bytes that `f4_init_crypto` stores from `ctx->public_key` on. -/
def f4InitCrypto (privateKey : Field 32) : Except Fault Bytes := do
  match ← curveByName (ascii "p160") .base36 with
  | none => .error .assertion
  | some cp => compressToString .bin (publicPoint privateKey cp) cp

/-- The id that `f4_init_p2p` passes to `dht_init`: 20 bytes from `ctx->public_key` on. -/
def nodeId (privateKey : Field 32) : Except Fault (Option (Field 20)) := do
  let stored ← f4InitCrypto publicPoint privateKey
  .ok (Field.read 20 stored)

/-- The public points of two keys differ in the coordinate or the parity. -/
def Differ (cp : CurveParams) (privateKey privateKey' : Field 32) : Prop :=
  (publicPoint privateKey cp).x ≠ (publicPoint privateKey' cp).x ∨
    pointCompress (publicPoint privateKey cp) ≠ pointCompress (publicPoint privateKey' cp)

/-- The node id identifies a key: what is stored fits into `char public_key[20]`, and keys
with other public points have other ids. -/
structure Identified (privateKey : Field 32) : Prop where
  fits : ∃ stored, f4InitCrypto publicPoint privateKey = .ok stored ∧ stored.length ≤ 20
  distinct : ∀ cp, curveByName (ascii "p160") .base36 = .ok (some cp) →
    ∀ privateKey', Differ publicPoint cp privateKey privateKey' →
      nodeId publicPoint privateKey ≠ nodeId publicPoint privateKey'

variable {publicPoint}

theorem length_f4InitCrypto {privateKey : Field 32} {stored : Bytes}
    (written : f4InitCrypto publicPoint privateKey = .ok stored) : stored.length = 21 := by
  rcases p160_loaded with ⟨cp, named⟩
  rw [f4InitCrypto, named, ok_bind] at written
  dsimp only at written
  rw [compressToString, serializeMpi, CurveParams.pkLen, (p160_lengths named).1] at written
  split at written
  · rename_i short
    cases written
    simp only [List.length_append, List.length_replicate, List.length_map, Numeral.length_digits]
    omega
  · cases written

/-- The key whose point is the base point is not identified. -/
theorem basePoint_not_identified : ¬ Identified (fun _ _ => basePoint) (Field.zero 32) := by
  rintro ⟨⟨stored, written, short⟩, _⟩
  rw [length_f4InitCrypto written] at short
  exact absurd short (by decide)

/-- The compressed point takes 21 bytes for every key. -/
theorem not_identified (publicPoint : Field 32 → CurveParams → AffinePoint)
    (privateKey : Field 32) : ¬ Identified publicPoint privateKey := by
  intro identified
  rcases identified.fits with ⟨stored, written, short⟩
  rw [length_f4InitCrypto written] at short
  omega

/-- The id of a key is the integer of its point without the last byte. -/
theorem nodeId_eq {cp : CurveParams} (named : curveByName (ascii "p160") .base36 = .ok (some cp))
    {privateKey : Field 32} (reduced : (publicPoint privateKey cp).x < cp.dp.m) :
    nodeId publicPoint privateKey = .ok (some
      ⟨(Numeral.digits 256 20 (cp.compressed (publicPoint privateKey cp) / 256)).map UInt8.ofNat,
        by simp⟩) := by
  rcases p160_lengths named with ⟨width, _, modulus⟩
  have bound := compressed_lt reduced
  have fits : cp.compressed (publicPoint privateKey cp) < 256 ^ 21 := by
    rw [modulus] at bound
    omega
  have cut := Numeral.digits_add 256 20 1 (cp.compressed (publicPoint privateKey cp))
  rw [nodeId, f4InitCrypto, named, ok_bind]
  dsimp only
  rw [compressToString, CurveParams.pkLen, width, serializeMpi_bin fits, ok_bind, cut, pow_one]
  simp [Field.read]

/-- The ids of two keys are the same when the integers of their points differ in the
last byte only. -/
theorem nodeId_eq_iff {cp : CurveParams}
    (named : curveByName (ascii "p160") .base36 = .ok (some cp))
    {privateKey privateKey' : Field 32} (reduced : (publicPoint privateKey cp).x < cp.dp.m)
    (reduced' : (publicPoint privateKey' cp).x < cp.dp.m) :
    nodeId publicPoint privateKey = nodeId publicPoint privateKey' ↔
      cp.compressed (publicPoint privateKey cp) / 256 =
        cp.compressed (publicPoint privateKey' cp) / 256 := by
  have modulus := (p160_lengths named).2.2
  have bound := compressed_lt reduced
  have bound' := compressed_lt reduced'
  rw [nodeId_eq named reduced, nodeId_eq named reduced']
  generalize cp.compressed (publicPoint privateKey cp) = n at *
  generalize cp.compressed (publicPoint privateKey' cp) = n' at *
  constructor
  · intro same
    simp only [Except.ok.injEq, Option.some.injEq, Field.mk.injEq] at same
    have numerals := congrArg (List.map UInt8.toNat) same
    rw [toNat_digits, toNat_digits, Numeral.digits_eq_iff (by decide)] at numerals
    have room : n / 256 < 256 ^ 20 := by omega
    have room' : n' / 256 < 256 ^ 20 := by omega
    rwa [Nat.mod_eq_of_lt room, Nat.mod_eq_of_lt room'] at numerals
  · intro same
    simp only [same]

end NodeId

end Dnsp2p.Seccure
