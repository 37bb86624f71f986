import Dnsp2p.Benc.Text
import Dnsp2p.Library.Association
import Dnsp2p.Library.Run
import Mathlib.Data.List.Lex
import Mathlib.Order.Interval.Set.Defs

/-!
# Dictionaries under insertion and removal

`bobj_dict_insert` keeps the entries sorted by `benc_bstr_compare` and stops at
the first greater key, so it finds a key that is there only in a sorted
dictionary.  A dictionary that starts with `bobj_dict_new` answers every series
of calls as a map from keys to objects does, and the map alone decides in which
order its entries stand.
-/

namespace Dnsp2p.Benc

/-- `bobj_dict_new`. -/
def bobjDictNew : Bobj :=
  .dict .null

/-- The loop of `bobj_dict_insert` from one entry on: what it returns, and the
entries after it. -/
def bencDictInsert (key : Bytes) (val : Bobj) : BencDict → Except Fault (Bool × BencDict)
  | .unassigned => .error .unassigned
  | .null => .ok (true, .entry key val .null)
  | .entry key' val' next =>
      if bencBstrCompare key key' < 0 then .ok (true, .entry key val (.entry key' val' next))
      else if bencBstrCompare key key' = 0 then .ok (false, .entry key' val' next)
      else do
        let rest ← bencDictInsert key val next
        .ok (rest.1, .entry key' val' rest.2)

/-- `bobj_dict_insert`. -/
def bobjDictInsert (obj : Bobj) (key : Bytes) (val : Bobj) : Except Fault (Bool × Bobj) :=
  match obj with
  | .dict head => do
      let entries ← bencDictInsert key val head
      .ok (entries.1, .dict entries.2)
  | _ => .error .nullPointer

/-- The loop of `bobj_dict_remove` from one entry on: the removed value, and the
entries after it. -/
def bencDictRemove (key : Bytes) : BencDict → Except Fault (Option Bobj × BencDict)
  | .unassigned => .error .unassigned
  | .null => .ok (none, .null)
  | .entry key' val' next =>
      if bencBstrCompare key key' = 0 then .ok (some val', next)
      else do
        let rest ← bencDictRemove key next
        .ok (rest.1, .entry key' val' rest.2)

/-- `bobj_dict_remove`. -/
def bobjDictRemove (obj : Bobj) (key : Bytes) : Except Fault (Option Bobj × Bobj) :=
  match obj with
  | .dict head => do
      let entries ← bencDictRemove key head
      .ok (entries.1, .dict entries.2)
  | _ => .error .nullPointer

/-! ## The order of the keys -/

/-- A string as the comparison sees it. -/
def signedChars (bytes : Bytes) : List Int :=
  bytes.map fun char => char.toInt8.toInt

theorem signedChars_injective : Function.Injective signedChars := by
  apply List.map_injective_iff.mpr
  intro left right equal
  have bits : left.toInt8 = right.toInt8 := Int8.toInt_inj.mp equal
  simpa using congrArg Int8.toUInt8 bits

private theorem compare_go_neg_iff (total total' left right : Bytes)
    (prefixLength : (total.length : Int) - total'.length = (left.length : Int) - right.length)
    (bound : left.length < 2 ^ 31) (bound' : right.length < 2 ^ 31) :
    bencBstrCompare.go total total' left right < 0 ↔ signedChars left < signedChars right := by
  induction left generalizing right with
  | nil =>
      cases right with
      | nil =>
          simp only [bencBstrCompare.go, prefixLength]
          simp
      | cons char' rest' =>
          simp only [bencBstrCompare.go, prefixLength, signedChars, List.map_nil, List.map_cons]
          rw [Int.bmod_eq_of_le_mul_two] <;>
            simp only [List.length_nil, List.length_cons, List.nil_lt_cons, iff_true] at * <;> omega
  | cons char rest ih =>
      cases right with
      | nil =>
          simp only [bencBstrCompare.go, prefixLength, signedChars, List.map_nil, List.map_cons]
          rw [Int.bmod_eq_of_le_mul_two] <;>
            simp only [List.length_nil, List.length_cons, List.not_lt_nil, iff_false] at * <;> omega
      | cons char' rest' =>
          simp only [signedChars, List.map_cons, List.cons_lt_cons_iff]
          by_cases same : char = char'
          · simp only [List.length_cons] at *
            have later := ih rest' (by omega) (by omega) (by omega)
            simpa [bencBstrCompare.go, same, signedChars] using later
          · have differ : char.toInt8.toInt ≠ char'.toInt8.toInt := by
              intro equal
              have heads : signedChars [char] = signedChars [char'] := by
                simp [signedChars, equal]
              exact same (List.singleton_inj.mp (signedChars_injective heads))
            simp only [bencBstrCompare.go, same, if_false, differ, false_and, or_false]
            omega

/-- Below two gigabytes the comparison is the order of the signed characters. -/
theorem bencBstrCompare_neg_iff {left right : Bytes} (bound : left.length < 2 ^ 31)
    (bound' : right.length < 2 ^ 31) :
    bencBstrCompare left right < 0 ↔ signedChars left < signedChars right :=
  compare_go_neg_iff left right left right rfl bound bound'

private theorem toInt8_toInt_of_lt {char : UInt8} (plain : char < 128) :
    char.toInt8.toInt = char.toNat := by
  have small : char.toNat < 128 := UInt8.lt_iff_toNat_lt.mp plain
  have bits : char.toInt8.toInt = char.toBitVec.toInt := rfl
  rw [bits, BitVec.toInt_eq_toNat_of_lt]
  · simp
  · simp only [UInt8.toNat_toBitVec]
    omega

/-- On seven-bit characters this is the order of the bytes. -/
theorem signedChars_lt_iff {left right : Bytes} (plain : ∀ char ∈ left, char < 128)
    (plain' : ∀ char ∈ right, char < 128) :
    signedChars left < signedChars right ↔ left < right := by
  induction left generalizing right with
  | nil => cases right <;> simp [signedChars]
  | cons char rest ih =>
      cases right with
      | nil => simp [signedChars]
      | cons char' rest' =>
          have first := toInt8_toInt_of_lt (plain char List.mem_cons_self)
          have first' := toInt8_toInt_of_lt (plain' char' List.mem_cons_self)
          have later : signedChars rest < signedChars rest' ↔ rest < rest' :=
            ih (fun other member => plain other (List.mem_cons_of_mem _ member))
              (fun other member => plain' other (List.mem_cons_of_mem _ member))
          simp only [signedChars] at later
          simp only [signedChars, List.map_cons, List.cons_lt_cons_iff, first, first', later,
            UInt8.lt_iff_toNat_lt, Nat.cast_lt, Nat.cast_inj, UInt8.toNat_inj]

/-! ## Single calls -/

/-- An insertion into a dictionary of short keys is refused or is that of the
sorted list. -/
theorem bencDictInsert_ofList {key : Bytes} (val : Bobj) {pairs : List (Bytes × Bobj)}
    (short : key.length < 2 ^ 31) (shortKeys : ∀ pair ∈ pairs, pair.1.length < 2 ^ 31) :
    bencDictInsert key val (BencDict.ofList pairs) =
      .ok ((Association.insert signedChars key val pairs).isSome,
        BencDict.ofList ((Association.insert signedChars key val pairs).getD pairs)) := by
  induction pairs with
  | nil => rfl
  | cons pair rest ih =>
      have shortFirst := shortKeys pair List.mem_cons_self
      have less := bencBstrCompare_neg_iff short shortFirst
      have equal := bencBstrCompare_eq_zero_iff short shortFirst
      have later := ih fun other member => shortKeys other (List.mem_cons_of_mem _ member)
      rw [BencDict.ofList, bencDictInsert, Association.insert]
      by_cases before : signedChars key < signedChars pair.1
      · rw [if_pos (less.mpr before), if_pos before]
        rfl
      · rw [if_neg (mt less.mp before), if_neg before]
        by_cases same : key = pair.1
        · rw [if_pos (equal.mpr same), if_pos same]
          rfl
        · rw [if_neg (mt equal.mp same), if_neg same, later, ok_bind]
          cases Association.insert signedChars key val rest with
          | none => rfl
          | some rest' => rfl

/-- A removal from a dictionary of short keys returns what is found and takes it
out. -/
theorem bencDictRemove_ofList {key : Bytes} {pairs : List (Bytes × Bobj)}
    (short : key.length < 2 ^ 31) (shortKeys : ∀ pair ∈ pairs, pair.1.length < 2 ^ 31) :
    bencDictRemove key (BencDict.ofList pairs) =
      .ok (pairs.lookup key, BencDict.ofList (Association.erase key pairs)) := by
  induction pairs with
  | nil => rfl
  | cons pair rest ih =>
      have equal := bencBstrCompare_eq_zero_iff short (shortKeys pair List.mem_cons_self)
      have later := ih fun other member => shortKeys other (List.mem_cons_of_mem _ member)
      rw [BencDict.ofList, bencDictRemove, Association.erase, Association.lookup_cons]
      by_cases same : key = pair.1
      · rw [if_pos (equal.mpr same), if_pos same, if_pos same]
      · rw [if_neg (mt equal.mp same), if_neg same, if_neg same, later, ok_bind, BencDict.ofList]

/-! ## Series of calls -/

/-- The calls on a dictionary. -/
inductive DictCall where
  | insert (key : Bytes) (val : Bobj)
  | remove (key : Bytes)
  | lookup (key : Bytes)

/-- What a call returns. -/
inductive DictAnswer where
  | inserted (done : Bool)
  | found (val : Option Bobj)
deriving DecidableEq

namespace DictCall

/-- The key of a call. -/
def key : DictCall → Bytes
  | insert key _ => key
  | remove key => key
  | lookup key => key

/-- One call: what it returns, and the dictionary after it. -/
def run (obj : Bobj) : DictCall → Except Fault (DictAnswer × Bobj)
  | insert key val => do
      let result ← bobjDictInsert obj key val
      .ok (.inserted result.1, result.2)
  | remove key => do
      let result ← bobjDictRemove obj key
      .ok (.found result.1, result.2)
  | lookup key => do
      let result ← bobjDictLookup obj key
      .ok (.found result, obj)

/-- A call on the dictionary, with what all calls returned so far. -/
def step (state : Bobj × List DictAnswer) (call : DictCall) :
    Except Fault (Bobj × List DictAnswer) := do
  let result ← call.run state.1
  .ok (result.2, state.2 ++ [result.1])

/-- What a call does to a map from keys to objects. -/
def effect (map : Bytes → Option Bobj) : DictCall → DictAnswer × (Bytes → Option Bobj)
  | insert key val =>
      if (map key).isSome then (.inserted false, map)
      else (.inserted true, Function.update map key (some val))
  | remove key => (.found (map key), Function.update map key none)
  | lookup key => (.found (map key), map)

/-- A call on the map, with what all calls returned so far. -/
def next (state : (Bytes → Option Bobj) × List DictAnswer) (call : DictCall) :
    (Bytes → Option Bobj) × List DictAnswer :=
  ((call.effect state.1).2, state.2 ++ [(call.effect state.1).1])

end DictCall

/-- All calls on a new dictionary. -/
def dictCalls (calls : List DictCall) : Except Fault (Bobj × List DictAnswer) :=
  Run.run DictCall.step (bobjDictNew, []) calls

/-- All calls on the empty map. -/
def mapCalls (calls : List DictCall) : (Bytes → Option Bobj) × List DictAnswer :=
  calls.foldl DictCall.next (fun _ => none, [])

/-- The dictionary of pairs whose short keys ascend and are those of the map. -/
structure Holds (good : Bytes → Prop) (obj : Bobj) (pairs : List (Bytes × Bobj))
    (map : Bytes → Option Bobj) : Prop where
  object : obj = .dict (BencDict.ofList pairs)
  ascending : Association.Ascending signedChars pairs
  keys : ∀ pair ∈ pairs, good pair.1
  contents : (pairs.lookup ·) = map

section

variable {good : Bytes → Prop} (short : ∀ key, good key → key.length < 2 ^ 31)
include short

/-- Each call answers as the map does and keeps the dictionary sorted. -/
theorem Holds.call {obj : Bobj} {pairs : List (Bytes × Bobj)} {map : Bytes → Option Bobj}
    (holds : Holds good obj pairs map) (call : DictCall) (fits : good call.key) :
    ∃ obj' pairs', call.run obj = .ok ((call.effect map).1, obj') ∧
      Holds good obj' pairs' (call.effect map).2 := by
  rcases holds with ⟨rfl, ascending, keys, rfl⟩
  have shortKeys : ∀ pair ∈ pairs, pair.1.length < 2 ^ 31 :=
    fun pair member => short _ (keys pair member)
  cases call with
  | insert key val =>
      have inserts := bencDictInsert_ofList val (short key fits) shortKeys
      have refused : Association.insert signedChars key val pairs = none ↔
          pairs.lookup key ≠ none := Association.insert_eq_none_iff ascending
      cases result : Association.insert signedChars key val pairs with
      | none =>
          have present : (pairs.lookup key).isSome = true :=
            Option.isSome_iff_ne_none.mpr (refused.mp result)
          rw [result] at inserts
          refine ⟨.dict (BencDict.ofList pairs), pairs, ?_, ?_⟩
          · rw [DictCall.run, bobjDictInsert, inserts, DictCall.effect, if_pos present]
            rfl
          · rw [DictCall.effect, if_pos present]
            exact ⟨rfl, ascending, keys, rfl⟩
      | some pairs' =>
          have absent : ¬(pairs.lookup key).isSome = true := by
            intro present
            rw [refused.mpr (Option.isSome_iff_ne_none.mp present)] at result
            cases result
          rw [result] at inserts
          refine ⟨.dict (BencDict.ofList pairs'), pairs', ?_, ?_⟩
          · rw [DictCall.run, bobjDictInsert, inserts, DictCall.effect, if_neg absent]
            rfl
          · rw [DictCall.effect, if_neg absent]
            refine ⟨rfl, ascending.insert signedChars_injective result, ?_,
              Association.lookup_insert ascending result⟩
            intro pair member
            rcases (Association.mem_insert result).mp member with same | before
            · rw [same]
              exact fits
            · exact keys pair before
  | remove key =>
      refine ⟨.dict (BencDict.ofList (Association.erase key pairs)), Association.erase key pairs,
        ?_, ?_⟩
      · rw [DictCall.run, bobjDictRemove, bencDictRemove_ofList (short key fits) shortKeys]
        rfl
      · refine ⟨rfl, ascending.erase key, ?_, Association.lookup_erase ascending key⟩
        intro pair member
        exact keys pair ((Association.erase_sublist key pairs).subset member)
  | lookup key =>
      refine ⟨.dict (BencDict.ofList pairs), pairs, ?_, rfl, ascending, keys, rfl⟩
      rw [DictCall.run, bobjDictLookup, bencDictLookup_ofList (short key fits) shortKeys]
      rfl

/-- The calls of a series one after another. -/
theorem dictCalls_holds {calls : List DictCall} (fit : ∀ call ∈ calls, good call.key) :
    ∃ obj pairs, dictCalls calls = .ok (obj, (mapCalls calls).2) ∧
      Holds good obj pairs (mapCalls calls).1 := by
  let relation (state : Bobj × List DictAnswer) (map : (Bytes → Option Bobj) × List DictAnswer) :=
    (∃ pairs, Holds good state.1 pairs map.1) ∧ state.2 = map.2
  have keeps : ∀ {state map call}, relation state map → good (DictCall.key call) →
      ∃ state', DictCall.step state call = .ok state' ∧ relation state' (call.next map) := by
    rintro state map call ⟨⟨pairs, holds⟩, answers⟩ fits
    rcases holds.call short call fits with ⟨obj', pairs', ran, holds'⟩
    refine ⟨(obj', state.2 ++ [(call.effect map.1).1]), ?_, ⟨pairs', holds'⟩, ?_⟩
    · rw [DictCall.step, ran]
      rfl
    · rw [answers]
      rfl
  have begins : relation (bobjDictNew, []) (fun _ => none, []) :=
    ⟨⟨[], rfl, List.Pairwise.nil, by simp, rfl⟩, rfl⟩
  have ends : ∃ last, dictCalls calls = .ok last ∧ relation last (mapCalls calls) := by
    refine Run.run_simulates relation ?_ begins
      (Run.legal_of_forall (fun call member => fit call member) (fun _ => none, []))
    exact keeps
  rcases ends with ⟨⟨obj, answers⟩, ran, ⟨pairs, holds⟩, same⟩
  refine ⟨obj, pairs, ?_, holds⟩
  rw [ran]
  exact congrArg (fun list => Except.ok (obj, list)) same

end

/-- A dictionary answers every series of insertions, removals and lookups of short
keys as a map does.  Its entries stand strictly in the order of the comparison,
and in the order of the bytes as long as all keys are of seven-bit characters. -/
theorem dictCalls_map {calls : List DictCall} (short : ∀ call ∈ calls, call.key.length < 2 ^ 31) :
    ∃ pairs, dictCalls calls = .ok (.dict (BencDict.ofList pairs), (mapCalls calls).2) ∧
      (∀ key, pairs.lookup key = (mapCalls calls).1 key) ∧
      (pairs.Pairwise fun left right => bencBstrCompare left.1 right.1 < 0) ∧
      ((∀ call ∈ calls, ∀ char ∈ call.key, char < 128) →
        pairs.Pairwise fun left right => left.1 < right.1) := by
  have used : ∀ key, (∃ call ∈ calls, call.key = key) → key.length < 2 ^ 31 := by
    rintro key ⟨call, member, rfl⟩
    exact short call member
  have fit : ∀ call ∈ calls, ∃ other ∈ calls, other.key = call.key :=
    fun call member => ⟨call, member, rfl⟩
  rcases dictCalls_holds used fit with
    ⟨obj, pairs, ran, rfl, ascending, keys, contents⟩
  refine ⟨pairs, ran, fun key => congrFun contents key, ?_, ?_⟩
  · apply List.Pairwise.imp_of_mem _ ascending
    intro left right member member' less
    exact (bencBstrCompare_neg_iff (used _ (keys left member))
      (used _ (keys right member'))).mpr less
  · intro plain
    have plainKeys : ∀ pair ∈ pairs, ∀ char ∈ pair.1, char < 128 := by
      intro pair member
      rcases keys pair member with ⟨call, called, same⟩
      exact same ▸ plain call called
    apply List.Pairwise.imp_of_mem _ ascending
    intro left right member member' less
    exact (signedChars_lt_iff (plainKeys left member) (plainKeys right member')).mp less

/-- A key above the seven-bit characters is sorted before the others: an insertion,
a refused one, a removal and a lookup. -/
theorem dictCalls_map_five :
    ∃ pairs, dictCalls [.insert (ascii "id") (.int 1), .insert [200] (.int 2),
        .insert (ascii "id") (.int 3), .remove (ascii "q"), .lookup (ascii "id")] =
          .ok (.dict (BencDict.ofList pairs), (mapCalls [.insert (ascii "id") (.int 1),
            .insert [200] (.int 2), .insert (ascii "id") (.int 3), .remove (ascii "q"),
            .lookup (ascii "id")]).2) ∧
      pairs.Pairwise fun left right => bencBstrCompare left.1 right.1 < 0 := by
  rcases @dictCalls_map [.insert (ascii "id") (.int 1), .insert [200] (.int 2),
    .insert (ascii "id") (.int 3), .remove (ascii "q"), .lookup (ascii "id")] (by decide) with
    ⟨pairs, ran, _, sorted, _⟩
  exact ⟨pairs, ran, sorted⟩

/-- Two series of calls with the same outcome leave the same object, however the
entries came in. -/
theorem dictCalls_determined {calls calls' : List DictCall}
    (short : ∀ call ∈ calls, call.key.length < 2 ^ 31)
    (short' : ∀ call ∈ calls', call.key.length < 2 ^ 31)
    (same : (mapCalls calls).1 = (mapCalls calls').1) :
    ∃ obj, dictCalls calls = .ok (obj, (mapCalls calls).2) ∧
      dictCalls calls' = .ok (obj, (mapCalls calls').2) := by
  have keep : ∀ key : Bytes, key.length < 2 ^ 31 → key.length < 2 ^ 31 := fun _ => id
  rcases dictCalls_holds keep short with ⟨obj, pairs, ran, holds⟩
  rcases dictCalls_holds keep short' with ⟨obj', pairs', ran', holds'⟩
  have contents : pairs = pairs' := by
    apply holds.ascending.eq_of_lookup holds'.ascending
    intro key
    rw [congrFun holds.contents key, congrFun holds'.contents key, same]
  have objects : obj' = obj := by rw [holds.object, holds'.object, contents]
  exact ⟨obj, ran, objects ▸ ran'⟩

end Dnsp2p.Benc
