import Dnsp2p.Message.Parse

/-!
# The shapes of KRPC messages

Which decoded objects are KRPC messages, and what `_dht_message_parse_impl` makes
of each decoded object.
-/

namespace Dnsp2p.Benc

/-! ## Decoded objects -/

mutual
/-- Every list and dictionary inside the object ends with NULL, unless it was
left without a head, and every key is shorter than two gigabytes. -/
def Bobj.Linked : Bobj → Prop
  | .int _ => True
  | .bstr _ => True
  | .list head => head = .unassigned ∨ head.Linked
  | .dict head => head = .unassigned ∨ head.Linked

/-- The entries end with NULL, and so do all those below them. -/
def BencList.Linked : BencList → Prop
  | .unassigned => False
  | .null => True
  | .entry elem next => elem.Linked ∧ next.Linked

/-- The entries end with NULL, and so do all those below them. -/
def BencDict.Linked : BencDict → Prop
  | .unassigned => False
  | .null => True
  | .entry key val next => key.length < 2 ^ 31 ∧ val.Linked ∧ next.Linked
end

theorem BencDict.Linked.ne_unassigned {head : BencDict} (linked : head.Linked) :
    head ≠ .unassigned := by
  rintro rfl
  exact linked

theorem Bobj.linked_list {entries : BencList} (linked : entries.Linked) :
    (Bobj.list entries.assigned).Linked := by
  cases entries with
  | unassigned => exact .inl rfl
  | null => exact .inl rfl
  | entry elem next => exact .inr linked

theorem Bobj.linked_dict {entries : BencDict} (linked : entries.Linked) :
    (Bobj.dict entries.assigned).Linked := by
  cases entries with
  | unassigned => exact .inl rfl
  | null => exact .inl rfl
  | entry key val next => exact .inr linked

/-- The allocation is the same, and what was decoded has a property. -/
def Leaves {α : Type} (b : Bbuf) (property : α → Prop) (returned : Option α × Bbuf) : Prop :=
  returned.2.mem = b.mem ∧ ∀ value, returned.1 = some value → property value

theorem Leaves.none {α : Type} {b b' : Bbuf} (same : b'.mem = b.mem) (property : α → Prop) :
    Leaves b property (none, b') := by
  constructor
  · exact same
  · intro value found
    cases found

theorem Leaves.some {α : Type} {b b' : Bbuf} {property : α → Prop} {value : α}
    (same : b'.mem = b.mem) (holds : property value) : Leaves b property (some value, b') := by
  constructor
  · exact same
  · intro value' found
    cases found
    exact holds

section Decoders

theorem bencBstrLength_leaves (fuel len : Nat) (b : Bbuf) :
    Returns (bencBstrLength fuel len b) (Leaves b fun _ => True) := by
  induction fuel generalizing len b with
  | zero => exact .fault _ _
  | succ fuel ih =>
      apply Returns.bind_any
      intro char
      apply Returns.ite
      · apply Returns.ite
        · exact ih _ _
        · exact .ok (.none rfl _)
      · apply Returns.ite
        · exact .ok (.some rfl trivial)
        · exact .ok (.none rfl _)

theorem bencBstrBody_leaves (len : Nat) (b : Bbuf) :
    Returns (bencBstrBody len b) (Leaves b fun bytes => bytes.length < b.mem.length) := by
  unfold bencBstrBody
  dsimp only
  apply Returns.ite
  · exact .ok (.none rfl _)
  split
  · exact .fault _ _
  · rename_i size _
    unfold Bbuf.memcpy
    intro returned result
    split at result
    · rename_i inside
      cases result
      apply Leaves.some rfl
      -- the character in front of the data is behind the pointer
      have behind : 0 < (bbufIncPtr b).2.ptr := Nat.succ_pos _
      rw [List.length_take]
      exact (Nat.min_le_left _ _).trans_lt
        (Nat.lt_of_lt_of_le (Nat.lt_add_of_pos_left behind) inside)
    · cases result

theorem bencBstrDecode_leaves (fuel : Nat) (b : Bbuf) :
    Returns (bencBstrDecode fuel b) (Leaves b fun bytes => bytes.length < b.mem.length) := by
  refine (bencBstrLength_leaves fuel 0 b).bind ?_
  rintro ⟨len?, b'⟩ ⟨same, _⟩
  cases len? with
  | none => exact .ok (.none same _)
  | some len =>
      intro returned result
      have left := bencBstrBody_leaves len b' returned result
      unfold Leaves at left ⊢
      rwa [same] at left

theorem bencIntDecode_leaves (fuel : Nat) (b : Bbuf) :
    Returns (bencIntDecode fuel b) (Leaves b fun _ => True) := by
  have digits (fuel : Nat) (total : Int) (b : Bbuf) :
      Returns (bencIntDigits fuel total b) (Leaves b fun _ => True) := by
    induction fuel generalizing total b with
    | zero => exact .fault _ _
    | succ fuel ih =>
        apply Returns.ite
        · apply Returns.bind_any
          intro char
          apply Returns.ite
          · exact ih _ _
          · apply Returns.ite
            · exact .ok (.some rfl trivial)
            · exact .ok (.none rfl _)
        · exact .ok (.none rfl _)
  have signed (start : Int) (b' : Bbuf) (same : b'.mem = b.mem)
      {rest : Option Int × Bbuf → Except Fault (Option Int × Bbuf)}
      (refused : ∀ b, rest (none, b) = .ok (none, b))
      (read : ∀ total b, ∃ value, rest (some total, b) = .ok (some value, b)) :
      Returns (bencIntDigits fuel start b' >>= rest) (Leaves b fun _ => True) := by
    refine (digits fuel start b').bind ?_
    rintro ⟨total?, b''⟩ ⟨same', _⟩
    cases total? with
    | none =>
        rw [refused]
        exact .ok (.none (same'.trans same) _)
    | some total =>
        rcases read total b'' with ⟨value, ends⟩
        rw [ends]
        exact .ok (.some (same'.trans same) trivial)
  apply Returns.bind_any
  intro char
  apply Returns.ite
  · exact signed 0 (bbufIncPtr b).2 rfl (fun _ => rfl) fun _ _ => ⟨_, rfl⟩
  · apply Returns.ite
    · exact signed (digitValue char) (bbufIncPtr b).2 rfl (fun _ => rfl) fun _ _ => ⟨_, rfl⟩
    · exact .ok (.none rfl _)

mutual
/-- What the decoder delivers is linked. -/
theorem bdecMem_leaves (fuel : Nat) (b : Bbuf) (small : b.mem.length ≤ 2 ^ 31) :
    Returns (bdecMem fuel b) (Leaves b Bobj.Linked) := by
  cases fuel with
  | zero => exact .fault _ _
  | succ fuel =>
      rw [bdecMem]
      apply Returns.bind_any
      intro char
      apply Returns.ite
      · refine (bencIntDecode_leaves fuel b).bind ?_
        rintro ⟨value?, b'⟩ ⟨same, _⟩
        cases value? with
        | none => exact .ok (.none same _)
        | some value => exact .ok (.some same trivial)
      apply Returns.ite
      · refine (bencListDecode_leaves fuel (bbufIncPtr b).2 small).bind ?_
        rintro ⟨entries?, b'⟩ ⟨same, linked⟩
        cases entries? with
        | none => exact .ok (.none same _)
        | some entries => exact .ok (.some same (Bobj.linked_list (linked _ rfl)))
      apply Returns.ite
      · refine (bencDictDecode_leaves fuel (bbufIncPtr b).2 small).bind ?_
        rintro ⟨entries?, b'⟩ ⟨same, linked⟩
        cases entries? with
        | none => exact .ok (.none same _)
        | some entries => exact .ok (.some same (Bobj.linked_dict (linked _ rfl)))
      apply Returns.ite
      · refine (bencBstrDecode_leaves fuel b).bind ?_
        rintro ⟨bytes?, b'⟩ ⟨same, _⟩
        cases bytes? with
        | none => exact .ok (.none same _)
        | some bytes => exact .ok (.some same trivial)
      · exact .ok (.none rfl _)

theorem bencListDecode_leaves (fuel : Nat) (b : Bbuf) (small : b.mem.length ≤ 2 ^ 31) :
    Returns (bencListDecode fuel b) (Leaves b BencList.Linked) := by
  cases fuel with
  | zero => exact .fault _ _
  | succ fuel =>
      rw [bencListDecode]
      apply Returns.bind_any
      intro char
      apply Returns.ite
      · exact .ok (.some rfl trivial)
      · refine (bdecMem_leaves fuel b small).bind ?_
        rintro ⟨elem?, b'⟩ ⟨same, first⟩
        cases elem? with
        | none => exact .ok (.none same _)
        | some elem =>
            refine (bencListDecode_leaves fuel b' (by rwa [same])).bind ?_
            rintro ⟨next?, b''⟩ ⟨same', rest⟩
            cases next? with
            | none => exact .ok (.none (same'.trans same) _)
            | some next => exact .ok (.some (same'.trans same) ⟨first _ rfl, rest _ rfl⟩)

theorem bencDictDecode_leaves (fuel : Nat) (b : Bbuf) (small : b.mem.length ≤ 2 ^ 31) :
    Returns (bencDictDecode fuel b) (Leaves b BencDict.Linked) := by
  cases fuel with
  | zero => exact .fault _ _
  | succ fuel =>
      rw [bencDictDecode]
      apply Returns.bind_any
      intro char
      apply Returns.ite
      · exact .ok (.some rfl trivial)
      · refine (bencBstrDecode_leaves fuel b).bind ?_
        rintro ⟨key?, b'⟩ ⟨same, short⟩
        cases key? with
        | none => exact .ok (.none same _)
        | some key =>
            refine (bdecMem_leaves fuel b' (by rwa [same])).bind ?_
            rintro ⟨val?, b''⟩ ⟨same', value⟩
            have kept := same'.trans same
            cases val? with
            | none => exact .ok (.none kept _)
            | some val =>
                refine (bencDictDecode_leaves fuel b'' (by rwa [kept])).bind ?_
                rintro ⟨next?, b'''⟩ ⟨same'', rest⟩
                have kept' := same''.trans kept
                cases next? with
                | none => exact .ok (.none kept' _)
                | some next =>
                    exact .ok (.some kept'
                      ⟨(short _ rfl).trans_le small, value _ rfl, rest _ rfl⟩)
end

end Decoders

/-! ## Entries of a dictionary -/

/-- The value of the first entry with a key. -/
def BencDict.find (key : String) : BencDict → Option Bobj
  | .unassigned => none
  | .null => none
  | .entry key' val next => if ascii key = key' then some val else next.find key

theorem bencDictLookup_eq_find (key : String) (short : (ascii key).length < 2 ^ 31)
    {head : BencDict}
    (linked : head.Linked) : bencDictLookup (ascii key) head = .ok (head.find key) := by
  match head, linked with
  | .null, _ => rfl
  | .entry key' val next, linked =>
      have compared := bencBstrCompare_eq_zero_iff short linked.1
      have later := bencDictLookup_eq_find key short linked.2.2
      by_cases same : ascii key = key'
      · rw [bencDictLookup, if_pos (compared.mpr same), BencDict.find, if_pos same]
      · rw [bencDictLookup, if_neg fun zero => same (compared.mp zero), BencDict.find, if_neg same,
          later]

/-- The value of an entry is linked. -/
theorem BencDict.Linked.find {key : String} {head : BencDict} {val : Bobj} (linked : head.Linked)
    (found : head.find key = some val) : val.Linked := by
  match head, linked, found with
  | .entry key' val' next, linked, found =>
      rw [BencDict.find] at found
      split at found
      · cases found
        exact linked.2.1
      · exact BencDict.Linked.find linked.2.2 found

end Dnsp2p.Benc

namespace Dnsp2p.Message

open Dnsp2p.Benc

/-! ## KRPC messages -/

/-- The name of a query. -/
def queryName : DhtQueryType → Option String
  | .ping => some "ping"
  | .findNode => some "find_node"
  | .getPeers => some "get_peers"
  | .announcePeer => some "announce_peer"
  | _ => none

/-- The 20 bytes under the key `id`. -/
def HasId (args : BencDict) (id : Bytes) : Prop :=
  args.find "id" = some (.bstr id) ∧ id.length = 20

/-- What belongs to the type of a message: its query, and the id of its sender. -/
inductive Body (head : BencDict) : DhtMessageType → DhtQueryType → Option Bytes → Prop
  | query {args : BencDict} {name : String} {query : DhtQueryType} {id : Bytes}
      (type : head.find "y" = some (.bstr (ascii "q")))
      (arguments : head.find "a" = some (.dict args)) (sender : HasId args id)
      (method : head.find "q" = some (.bstr (ascii name))) (known : queryName query = some name) :
      Body head .query query (some id)
  | response {args : BencDict} {id : Bytes} (type : head.find "y" = some (.bstr (ascii "r")))
      (reply : head.find "r" = some (.dict args)) (sender : HasId args id) :
      Body head .response .error (some id)
  | err {first second : Bobj} {rest : BencList}
      (type : head.find "y" = some (.bstr (ascii "e")))
      (report : head.find "e" = some (.list (.entry first (.entry second rest)))) :
      Body head .err .error none

/-- The object is a KRPC message. -/
def Krpc (obj : Bobj) : Prop :=
  ∃ head t type query id, obj = .dict head ∧ head.find "t" = some (.bstr t) ∧ t ≠ [] ∧
    Body head type query id

/-- The fields of a message are those of the object. -/
def Reports (obj : Bobj) (m : DhtMessage) : Prop :=
  ∃ head t query id, obj = .dict head ∧ head.find "t" = some (.bstr t) ∧
    Body head m.type query id ∧ (m.type = .query → m.query = query) ∧ m.t = some t ∧
    m.tLen = t.length ∧ (m.type ≠ .err → m.argId = id)

/-- A result that accepts exactly a KRPC message, and reports its fields. -/
def Meets (obj : Bobj) (result : Except Fault (Option DhtMessage)) : Prop :=
  ∃ parsed, result = .ok parsed ∧ (parsed.isSome ↔ Krpc obj) ∧
    ∀ m, parsed = some m → Reports obj m

/-- The object comes out of `bdec_mem` on a datagram, whose length is an `int`. -/
def Decoded (obj : Bobj) : Prop :=
  ∃ addr buf b, buf.length < 2 ^ 31 ∧ copyAndDecode addr buf = .ok (some obj, b)

/-! ## Where the checks go wrong -/

/-- The string before the first NUL is the name of a query. -/
def KnownName (name : Bytes) : Prop :=
  ∃ query text, queryName query = some text ∧ untilNul name = ascii text

/-- A query is read without a fault, and refused: its name holds a NUL, and is
empty, or is known while the arguments have no id. -/
def QuerySound (args : BencDict) (name : Bytes) : Prop :=
  0 ∈ name ∧ (untilNul name = [] ∨
    KnownName name ∧ args ≠ .unassigned ∧ ∀ id, ¬ HasId args id)

/-- The checks behind the one of `y` are right, by the bytes of `y`. -/
def TypeSound (head : BencDict) : Bytes → Prop
  | [] => False
  | char :: rest =>
      if char = chr 'q' then
        ∀ args name, head.find "a" = some (.dict args) → head.find "q" = some (.bstr name) →
          QuerySound args name
      else if char = chr 'r' then
        ∀ args, head.find "r" = some (.dict args) →
          args ≠ .unassigned ∧ (rest = [] ∨ ∀ id, ¬ HasId args id)
      else if char = chr 'e' then
        head.find "e" ≠ none ∧ ∀ entries, head.find "e" = some (.list entries) →
          entries ≠ .unassigned ∧
            (rest = [] ∨ ∀ first second more, entries ≠ .entry first (.entry second more))
      else 0 ∈ char :: rest

/-- The objects for which all checks are right. -/
def Sound : Bobj → Prop
  | .dict head =>
      head ≠ .unassigned ∧ ∀ t y, head.find "t" = some (.bstr t) → t ≠ [] →
        head.find "y" = some (.bstr y) →
          if t.length = 1 then TypeSound head y else ¬ Krpc (.dict head)
  | _ => True

section Meets

variable {obj : Bobj}

@[simp]
theorem meets_none_iff : Meets obj (.ok none) ↔ ¬ Krpc obj := by
  simp [Meets]

@[simp]
theorem not_meets_error (fault : Fault) : ¬ Meets obj (.error fault) := by
  rintro ⟨parsed, result, _⟩
  cases result

theorem meets_some_iff {m : DhtMessage} : Meets obj (.ok (some m)) ↔ Krpc obj ∧ Reports obj m := by
  simp [Meets]

end Meets

/-! ## Names of queries -/

section Names

variable {name : Bytes}

theorem cStrlen_eq (terminated : 0 ∈ name) : cStrlen name = .ok (untilNul name).length := by
  unfold cStrlen
  induction name with
  | nil => cases terminated
  | cons byte rest ih =>
      by_cases isNul : byte = 0
      · simp [strlen, untilNul, isNul]
      · have later : 0 ∈ rest := (List.mem_cons.mp terminated).resolve_left (Ne.symm isNul)
        have shorter := ih later
        rw [strlen, if_neg isNul, untilNul, List.takeWhile_cons, if_pos (by simpa using isNul)]
        cases found : strlen rest with
        | none =>
            rw [found] at shorter
            cases shorter
        | some length =>
            rw [found] at shorter
            cases shorter
            rfl

/-- `strcmp` with a literal looks at the bytes before the first NUL. -/
theorem strcmp_literal (terminated : 0 ∈ name) {literal : Bytes} (plain : 0 ∉ literal) :
    ∃ difference, strcmp name (literal ++ [0]) = some difference ∧
      (difference = 0 ↔ untilNul name = literal) := by
  induction name generalizing literal with
  | nil => cases terminated
  | cons byte rest ih =>
      cases literal with
      | nil =>
          by_cases isNul : byte = 0
          · exact ⟨0, by simp [strcmp, isNul], by simp [untilNul, isNul]⟩
          · refine ⟨byte.toNat, by simp [strcmp, isNul], ?_⟩
            have nonzero : byte.toNat ≠ 0 := fun zero => isNul (UInt8.toNat_inj.mp zero)
            simp [untilNul, isNul, nonzero]
      | cons char literal =>
          have charNotNul : char ≠ 0 := fun equal => plain (by simp [equal])
          by_cases same : byte = char
          · subst same
            have later : 0 ∈ rest := (List.mem_cons.mp terminated).resolve_left charNotNul.symm
            have plain' : 0 ∉ literal := fun member => plain (List.mem_cons_of_mem _ member)
            rcases ih later plain' with ⟨difference, compared, equal⟩
            refine ⟨difference, by simpa [strcmp, charNotNul] using compared, ?_⟩
            simpa [untilNul, charNotNul] using equal
          · refine ⟨byte.toNat - char.toNat, by simp [strcmp, same], ?_⟩
            have differ : (byte.toNat : Int) - char.toNat ≠ 0 := by
              intro zero
              apply same
              apply UInt8.toNat_inj.mp
              omega
            simp only [differ, false_iff]
            intro equal
            rw [untilNul, List.takeWhile_cons] at equal
            split at equal
            · exact same (List.cons.inj equal).1
            · cases equal

theorem cStrcmp_eq (terminated : 0 ∈ name) (literal : String) (plain : 0 ∉ ascii literal) :
    ∃ difference, cStrcmp name literal = .ok difference ∧
      (difference = 0 ↔ untilNul name = ascii literal) := by
  rcases strcmp_literal terminated plain with ⟨difference, compared, equal⟩
  exact ⟨difference, by simp [cStrcmp, compared], equal⟩

theorem queryType_of_terminated (terminated : 0 ∈ name) :
    (KnownName name → ∃ query, queryType name = .ok query) ∧
      (¬ KnownName name → queryType name = .error .assertion) := by
  rcases cStrcmp_eq terminated "ping" (by decide) with ⟨ping, isPing, pingEq⟩
  rcases cStrcmp_eq terminated "find_node" (by decide) with ⟨find, isFind, findEq⟩
  rcases cStrcmp_eq terminated "get_peers" (by decide) with ⟨get, isGet, getEq⟩
  rcases cStrcmp_eq terminated "announce_peer" (by decide) with
    ⟨announce, isAnnounce, announceEq⟩
  have known : KnownName name ↔ ping = 0 ∨ find = 0 ∨ get = 0 ∨ announce = 0 := by
    rw [pingEq, findEq, getEq, announceEq]
    constructor
    · rintro ⟨query, text, named, equal⟩
      cases query <;> cases named <;> simp [equal]
    · rintro (equal | equal | equal | equal)
      · exact ⟨.ping, _, rfl, equal⟩
      · exact ⟨.findNode, _, rfl, equal⟩
      · exact ⟨.getPeers, _, rfl, equal⟩
      · exact ⟨.announcePeer, _, rfl, equal⟩
  rw [known]
  simp only [queryType, isPing, isFind, isGet, isAnnounce, ok_bind]
  constructor
  · intro named
    split
    · exact ⟨_, rfl⟩
    split
    · exact ⟨_, rfl⟩
    split
    · exact ⟨_, rfl⟩
    split
    · exact ⟨_, rfl⟩
    · rename_i noPing noFind noGet noAnnounce
      simp [noPing, noFind, noGet, noAnnounce] at named
  · intro unknown
    simp only [not_or] at unknown
    rw [if_neg unknown.1, if_neg unknown.2.1, if_neg unknown.2.2.1, if_neg unknown.2.2.2]

/-- A name with a NUL is not the name of a query. -/
theorem zero_not_mem_queryName {query : DhtQueryType} {text : String}
    (named : queryName query = some text) : 0 ∉ ascii text := by
  cases query <;> cases named <;> decide

end Names

/-! ## The three kinds of messages -/

section Kinds

variable {head : BencDict} {t : Bytes} {char : UInt8} {rest : Bytes}

theorem krpc_query_iff (tFound : head.find "t" = some (.bstr t)) (nonempty : t ≠ [])
    (yFound : head.find "y" = some (.bstr (chr 'q' :: rest))) :
    Krpc (.dict head) ↔ rest = [] ∧ ∃ args name query text id,
      head.find "a" = some (.dict args) ∧ head.find "q" = some (.bstr name) ∧
        queryName query = some text ∧ name = ascii text ∧ HasId args id := by
  constructor
  · rintro ⟨_, _, _, _, _, ⟨⟩, _, _, body⟩
    cases body with
    | query type arguments sender method known =>
        cases yFound.symm.trans type
        exact ⟨rfl, _, _, _, _, _, arguments, method, known, rfl, sender⟩
    | response type => cases yFound.symm.trans type
    | err type => cases yFound.symm.trans type
  · rintro ⟨rfl, args, name, query, text, id, arguments, method, known, rfl, sender⟩
    exact ⟨_, _, _, _, _, rfl, tFound, nonempty, .query yFound arguments sender method known⟩

theorem krpc_response_iff (tFound : head.find "t" = some (.bstr t)) (nonempty : t ≠ [])
    (yFound : head.find "y" = some (.bstr (chr 'r' :: rest))) :
    Krpc (.dict head) ↔ rest = [] ∧ ∃ args id,
      head.find "r" = some (.dict args) ∧ HasId args id := by
  constructor
  · rintro ⟨_, _, _, _, _, ⟨⟩, _, _, body⟩
    cases body with
    | query type => cases yFound.symm.trans type
    | response type reply sender =>
        cases yFound.symm.trans type
        exact ⟨rfl, _, _, reply, sender⟩
    | err type => cases yFound.symm.trans type
  · rintro ⟨rfl, args, id, reply, sender⟩
    exact ⟨_, _, _, _, _, rfl, tFound, nonempty, .response yFound reply sender⟩

theorem krpc_err_iff (tFound : head.find "t" = some (.bstr t)) (nonempty : t ≠ [])
    (yFound : head.find "y" = some (.bstr (chr 'e' :: rest))) :
    Krpc (.dict head) ↔ rest = [] ∧ ∃ first second more,
      head.find "e" = some (.list (.entry first (.entry second more))) := by
  constructor
  · rintro ⟨_, _, _, _, _, ⟨⟩, _, _, body⟩
    cases body with
    | query type => cases yFound.symm.trans type
    | response type => cases yFound.symm.trans type
    | err type report =>
        cases yFound.symm.trans type
        exact ⟨rfl, _, _, _, report⟩
  · rintro ⟨rfl, first, second, more, report⟩
    exact ⟨_, _, _, _, _, rfl, tFound, nonempty, .err yFound report⟩

/-- A message needs a type. -/
theorem not_krpc_of_type {y : Bytes} (yFound : head.find "y" = some (.bstr y))
    (query : y ≠ ascii "q") (response : y ≠ ascii "r") (err : y ≠ ascii "e") :
    ¬ Krpc (.dict head) := by
  rintro ⟨_, _, _, _, _, ⟨⟩, _, _, body⟩
  cases body with
  | query type =>
      cases yFound.symm.trans type
      exact query rfl
  | response type =>
      cases yFound.symm.trans type
      exact response rfl
  | err type =>
      cases yFound.symm.trans type
      exact err rfl

/-- The message that is returned for a typed one. -/
def completed (t y : Bytes) (typed : Option DhtMessage) : Option DhtMessage :=
  typed.map fun m => { m with t := some t, tLen := t.length, y := some y }

theorem dhtMessageParseImpl_typed (linked : head.Linked)
    (tFound : head.find "t" = some (.bstr t)) (single : t.length = 1) {y : Bytes}
    (yFound : head.find "y" = some (.bstr y)) :
    dhtMessageParseImpl (.dict head) = messageType y >>= fun type? =>
      match type? with
      | none => .ok none
      | some type => typedMessage (.dict head) type >>= fun typed =>
          .ok (completed t y typed) := by
  have tLookup := bencDictLookup_eq_find "t" (by decide) linked
  have yLookup := bencDictLookup_eq_find "y" (by decide) linked
  rw [tFound] at tLookup
  rw [yFound] at yLookup
  unfold dhtMessageParseImpl
  simp only [bobjDictLookup, tLookup, yLookup, ok_bind, single]
  simp only [one_ne_zero, if_false, ne_eq, not_true_eq_false]
  congr 1
  funext type?
  cases type? with
  | none => rfl
  | some type =>
      dsimp only
      congr 1
      funext typed
      cases typed <;> simp [completed, single]

/-- Without a string for `t` and one for `y`, or with a longer `t`, the object is
refused. -/
theorem dhtMessageParseImpl_refused (linked : head.Linked)
    (untyped : ∀ t y, head.find "t" = some (.bstr t) → t ≠ [] → head.find "y" = some (.bstr y) →
      t.length ≠ 1) : dhtMessageParseImpl (.dict head) = .ok none := by
  have tLookup := bencDictLookup_eq_find "t" (by decide) linked
  have yLookup := bencDictLookup_eq_find "y" (by decide) linked
  unfold dhtMessageParseImpl
  simp only [bobjDictLookup, tLookup, yLookup, ok_bind]
  split
  · rename_i t tFound
    split
    · rfl
    · rename_i nonempty
      split
      · rename_i y yFound
        have long := untyped t y tFound (fun empty => nonempty (by simp [empty])) yFound
        rw [if_pos long]
      · rfl
  · rfl

theorem argIdOf_dict {args : BencDict} (linked : args.Linked) :
    (∀ id, HasId args id → argIdOf (.dict args) = .ok (some id)) ∧
      ((∀ id, ¬ HasId args id) → argIdOf (.dict args) = .ok none) := by
  have idLookup := bencDictLookup_eq_find "id" (by decide) linked
  simp only [argIdOf, bobjDictLookup, idLookup, ok_bind]
  constructor
  · rintro id ⟨found, width⟩
    simp only [found, width, if_true]
  · intro absent
    split
    · rename_i id found
      rw [if_neg fun width => absent id ⟨found, width⟩]
    · rfl

/-- What is no message is refused, whatever would be asked of what is missing. -/
theorem meets_refused_iff {property : Prop} (foreign : ¬ Krpc obj) (holds : property) :
    Meets obj (.ok none) ↔ property := by
  rw [meets_none_iff]
  exact iff_of_true foreign holds

/-- What was found under a key is the only thing that is found there. -/
theorem forall_found_iff {key key' : String} {args : BencDict} {name : Bytes}
    {property : BencDict → Bytes → Prop} (arguments : head.find key = some (.dict args))
    (method : head.find key' = some (.bstr name)) :
    (∀ args name, head.find key = some (.dict args) → head.find key' = some (.bstr name) →
      property args name) ↔ property args name := by
  rw [arguments, method]
  constructor
  · intro sound
    exact sound args name rfl rfl
  · rintro sound _ _ ⟨⟩ ⟨⟩
    exact sound

/-- A query is never accepted; it is read without a fault when its name is. -/
theorem meets_query_iff (linked : head.Linked) (tFound : head.find "t" = some (.bstr t))
    (single : t.length = 1) (yFound : head.find "y" = some (.bstr (chr 'q' :: rest))) :
    Meets (.dict head) (typedMessage (.dict head) .query >>= fun typed =>
        .ok (completed t (chr 'q' :: rest) typed)) ↔
      ∀ args name, head.find "a" = some (.dict args) → head.find "q" = some (.bstr name) →
        QuerySound args name := by
  have nonempty : t ≠ [] := List.ne_nil_of_length_pos (by rw [single]; decide)
  have krpc := krpc_query_iff tFound nonempty yFound
  have aLookup := bencDictLookup_eq_find "a" (by decide) linked
  have qLookup := bencDictLookup_eq_find "q" (by decide) linked
  simp only [typedMessage, queryArgs, bobjDictLookup, aLookup, qLookup, ok_bind]
  split
  · rename_i args arguments
    split
    · rename_i name method
      rw [forall_found_iff arguments method, QuerySound]
      by_cases terminated : 0 ∈ name
      · have foreign : ¬ Krpc (.dict head) := by
          rw [krpc]
          rintro ⟨_, _, name', _, _, _, _, method', named, rfl, _⟩
          cases method.symm.trans method'
          exact zero_not_mem_queryName named terminated
        rw [cStrlen_eq terminated, ok_bind]
        by_cases empty : untilNul name = []
        · simp [empty, withArgId, completed, foreign, terminated]
        · have positive : (untilNul name).length ≠ 0 := by simpa using empty
          rw [if_neg positive]
          rcases queryType_of_terminated terminated with ⟨ofKnown, ofUnknown⟩
          by_cases known : KnownName name
          · rcases ofKnown known with ⟨query, typed⟩
            simp only [typed, ok_bind, withArgId, terminated, empty, known, true_and, false_or]
            rcases linked.find arguments with rfl | linkedArgs
            · simp [argIdOf, bobjDictLookup, bencDictLookup]
            · have notBare : args ≠ .unassigned := linkedArgs.ne_unassigned
              rcases argIdOf_dict linkedArgs with ⟨present, absent⟩
              by_cases sender : ∀ id, ¬ HasId args id
              · simp [absent sender, completed, foreign, notBare, sender]
              · have sender' := sender
                push Not at sender'
                rcases sender' with ⟨id, hasId⟩
                simp [present id hasId, completed, meets_some_iff, foreign, sender]
          · simp [ofUnknown known, empty, known]
      · have unread : cStrlen name = .error .unterminated := by
          simp [cStrlen, strlen_eq_none_iff.mpr terminated]
        simp [unread, terminated]
    · rename_i noString
      have foreign : ¬ Krpc (.dict head) := by
        rw [krpc]
        rintro ⟨_, _, name, _, _, _, _, method, _⟩
        exact noString name method
      exact meets_refused_iff foreign fun args name _ method => absurd method (noString name)
  · rename_i noDict
    have foreign : ¬ Krpc (.dict head) := by
      rw [krpc]
      rintro ⟨_, args, _, _, _, _, arguments, _⟩
      exact noDict args arguments
    exact meets_refused_iff foreign fun args name arguments => absurd arguments (noDict args)

/-- A response is accepted by the id in its reply, whatever follows the `r`. -/
theorem meets_response_iff (linked : head.Linked) (tFound : head.find "t" = some (.bstr t))
    (single : t.length = 1) (yFound : head.find "y" = some (.bstr (chr 'r' :: rest))) :
    Meets (.dict head) (typedMessage (.dict head) .response >>= fun typed =>
        .ok (completed t (chr 'r' :: rest) typed)) ↔
      ∀ args, head.find "r" = some (.dict args) →
        args ≠ .unassigned ∧ (rest = [] ∨ ∀ id, ¬ HasId args id) := by
  have nonempty : t ≠ [] := List.ne_nil_of_length_pos (by rw [single]; decide)
  have krpc := krpc_response_iff tFound nonempty yFound
  have rLookup := bencDictLookup_eq_find "r" (by decide) linked
  simp only [typedMessage, responseArgs, bobjDictLookup, rLookup, ok_bind]
  split
  · rename_i args reply
    have only : (∀ args', some (Bobj.dict args) = some (.dict args') →
        args' ≠ .unassigned ∧ (rest = [] ∨ ∀ id, ¬ HasId args' id)) ↔
          args ≠ .unassigned ∧ (rest = [] ∨ ∀ id, ¬ HasId args id) := by
      constructor
      · intro sound
        exact sound args rfl
      · rintro sound _ ⟨⟩
        exact sound
    rw [reply, only]
    rcases linked.find reply with rfl | linkedArgs
    · simp [withArgId, argIdOf, bobjDictLookup, bencDictLookup]
    · have notBare : args ≠ .unassigned := linkedArgs.ne_unassigned
      rcases argIdOf_dict linkedArgs with ⟨present, absent⟩
      by_cases sender : ∀ id, ¬ HasId args id
      · have foreign : ¬ Krpc (.dict head) := by
          rw [krpc]
          rintro ⟨_, args', id, reply', hasId⟩
          cases reply.symm.trans reply'
          exact sender id hasId
        simp [withArgId, absent sender, completed, foreign, notBare, sender]
      · have sender' := sender
        push Not at sender'
        rcases sender' with ⟨id, hasId⟩
        simp only [ok_bind, withArgId, present id hasId, completed, Option.map_some,
          meets_some_iff, sender, or_false, notBare, ne_eq, not_false_eq_true, true_and]
        constructor
        · rintro ⟨isKrpc, _⟩
          exact (krpc.mp isKrpc).1
        · rintro rfl
          have body : Body head .response .error (some id) := .response yFound reply hasId
          constructor
          · exact ⟨_, _, _, _, _, rfl, tFound, nonempty, body⟩
          · exact ⟨_, _, _, _, rfl, tFound, body, by simp, rfl, rfl, fun _ => rfl⟩
  · rename_i noDict
    have foreign : ¬ Krpc (.dict head) := by
      rw [krpc]
      rintro ⟨_, args, _, reply, _⟩
      exact noDict args reply
    exact meets_refused_iff foreign fun args reply => absurd reply (noDict args)

/-- An error is accepted by the length of its list, whatever follows the `e`. -/
theorem meets_err_iff (linked : head.Linked) (tFound : head.find "t" = some (.bstr t))
    (single : t.length = 1) (yFound : head.find "y" = some (.bstr (chr 'e' :: rest))) :
    Meets (.dict head) (typedMessage (.dict head) .err >>= fun typed =>
        .ok (completed t (chr 'e' :: rest) typed)) ↔
      head.find "e" ≠ none ∧ ∀ entries, head.find "e" = some (.list entries) →
        entries ≠ .unassigned ∧
          (rest = [] ∨ ∀ first second more, entries ≠ .entry first (.entry second more)) := by
  have nonempty : t ≠ [] := List.ne_nil_of_length_pos (by rw [single]; decide)
  have krpc := krpc_err_iff tFound nonempty yFound
  have eLookup := bencDictLookup_eq_find "e" (by decide) linked
  simp only [typedMessage, errorArgs, bobjDictLookup, eLookup, ok_bind]
  cases report : head.find "e" with
  | none => simp
  | some obj =>
      rw [report] at krpc
      cases obj with
      | list entries =>
          have kept := linked.find report
          cases entries with
          | unassigned => simp
          | null =>
              have foreign : ¬ Krpc (.dict head) := by simp [krpc]
              simp [completed, foreign]
          | entry first next =>
              cases next with
              | unassigned => exact (kept.resolve_left (by simp)).2.elim
              | null =>
                  have foreign : ¬ Krpc (.dict head) := by simp [krpc]
                  simp [completed, foreign]
              | entry second more =>
                  simp only [ok_bind, completed, Option.map_some, meets_some_iff]
                  constructor
                  · rintro ⟨isKrpc, _⟩
                    simp [(krpc.mp isKrpc).1]
                  · rintro ⟨_, sound⟩
                    have short : rest = [] :=
                      (sound _ rfl).2.resolve_right fun other => other _ _ _ rfl
                    subst short
                    have body : Body head .err .error none := .err yFound report
                    constructor
                    · exact ⟨_, _, _, _, _, rfl, tFound, nonempty, body⟩
                    · exact ⟨_, _, _, _, rfl, tFound, body, by simp, rfl, rfl,
                        fun h => absurd rfl h⟩
      | int value =>
          have foreign : ¬ Krpc (.dict head) := by simp [krpc]
          simp [completed, foreign]
      | bstr bytes =>
          have foreign : ¬ Krpc (.dict head) := by simp [krpc]
          simp [completed, foreign]
      | dict entries =>
          have foreign : ¬ Krpc (.dict head) := by simp [krpc]
          simp [completed, foreign]

/-- The checks behind the one of `y`. -/
theorem meets_typed_iff (linked : head.Linked) (tFound : head.find "t" = some (.bstr t))
    (single : t.length = 1) {y : Bytes} (yFound : head.find "y" = some (.bstr y)) :
    Meets (.dict head) (dhtMessageParseImpl (.dict head)) ↔ TypeSound head y := by
  rw [dhtMessageParseImpl_typed linked tFound single yFound]
  cases y with
  | nil => simp [messageType, firstChar, TypeSound]
  | cons char rest =>
      by_cases query : char = chr 'q'
      · subst query
        exact meets_query_iff linked tFound single yFound
      by_cases response : char = chr 'r'
      · subst response
        exact meets_response_iff linked tFound single yFound
      by_cases err : char = chr 'e'
      · subst err
        exact meets_err_iff linked tFound single yFound
      have foreign : ¬ Krpc (.dict head) := by
        apply not_krpc_of_type yFound
        · exact fun equal => query (List.cons.inj equal).1
        · exact fun equal => response (List.cons.inj equal).1
        · exact fun equal => err (List.cons.inj equal).1
      simp only [messageType, firstChar, ok_bind, if_neg query, if_neg response, if_neg err,
        TypeSound]
      by_cases terminated : 0 ∈ char :: rest
      · simp [cStrlen_eq terminated, foreign, terminated]
      · have unread : cStrlen (char :: rest) = .error .unterminated := by
          simp [cStrlen, strlen_eq_none_iff.mpr terminated]
        simp [unread, terminated]

end Kinds

/-! ## All decoded objects -/

theorem Decoded.linked {obj : Bobj} (decoded : Decoded obj) : obj.Linked := by
  rcases decoded with ⟨addr, buf, b, small, result⟩
  have copy : (bbufNew addr buf.length (strdup (buf ++ [0]))).mem.length ≤ 2 ^ 31 := by
    have shorter := (untilNul_append_nul_isPrefix buf).length_le
    rw [bbufNew, strdup_append_nul]
    exact shorter.trans (by simpa using Nat.succ_le_of_lt small)
  exact (bdecMem_leaves _ _ copy _ result).2 _ rfl

/-- Of the decoded objects, exactly the sound ones are accepted if and only if they
are KRPC messages, with their own fields and without a fault. -/
theorem meets_iff_sound {obj : Bobj} (decoded : Decoded obj) :
    Meets obj (dhtMessageParseImpl obj) ↔ Sound obj := by
  have whole := decoded.linked
  cases obj with
  | int value => simp [dhtMessageParseImpl, Sound, Krpc]
  | bstr bytes => simp [dhtMessageParseImpl, Sound, Krpc]
  | list entries => simp [dhtMessageParseImpl, Sound, Krpc]
  | dict head =>
      rw [Sound]
      rcases whole with rfl | linked
      · simp [dhtMessageParseImpl, bobjDictLookup, bencDictLookup]
      have notBare : head ≠ .unassigned := linked.ne_unassigned
      by_cases untyped : ∀ t y, head.find "t" = some (.bstr t) → t ≠ [] →
          head.find "y" = some (.bstr y) → t.length ≠ 1
      · rw [dhtMessageParseImpl_refused linked untyped, meets_none_iff]
        constructor
        · intro foreign
          refine ⟨notBare, fun t y tFound nonempty yFound => ?_⟩
          rw [if_neg (untyped t y tFound nonempty yFound)]
          exact foreign
        · rintro ⟨_, sound⟩ krpc
          rcases krpc with ⟨_, t, type, query, id, ⟨⟩, tFound, nonempty, body⟩
          have krpc : Krpc (.dict head) := ⟨_, _, _, _, _, rfl, tFound, nonempty, body⟩
          have foreign (y : Bytes) (yFound : head.find "y" = some (.bstr y)) : False := by
            have refused := sound t y tFound nonempty yFound
            rw [if_neg (untyped t y tFound nonempty yFound)] at refused
            exact refused krpc
          cases body with
          | query type => exact foreign _ type
          | response type => exact foreign _ type
          | err type => exact foreign _ type
      · push Not at untyped
        rcases untyped with ⟨t, y, tFound, nonempty, yFound, single⟩
        rw [meets_typed_iff linked tFound single yFound]
        constructor
        · intro sound
          refine ⟨notBare, fun t' y' tFound' _ yFound' => ?_⟩
          cases tFound.symm.trans tFound'
          cases yFound.symm.trans yFound'
          rwa [if_pos single]
        · rintro ⟨_, sound⟩
          have typed := sound t y tFound nonempty yFound
          rwa [if_pos single] at typed

/-- The reply dictionary of the object below. -/
def idOnly : BencDict :=
  .entry (ascii "id") (.bstr (ascii "abcdefghij0123456789")) .null

/-- The object of a reply with a transaction id of two bytes. -/
def twoByteTid : Bobj :=
  .dict (.entry (ascii "r") (.dict idOnly)
    (.entry (ascii "t") (.bstr (ascii "aa")) (.entry (ascii "y") (.bstr (ascii "r")) .null)))

theorem twoByteTid_decoded : Decoded twoByteTid := by
  have result : (copyAndDecode 4096
      (ascii "d1:rd2:id20:abcdefghij0123456789e1:t2:aa1:y1:re")).map Prod.fst =
        .ok (some twoByteTid) := by decide +kernel
  cases ran : copyAndDecode 4096 (ascii "d1:rd2:id20:abcdefghij0123456789e1:t2:aa1:y1:re") with
  | error fault =>
      rw [ran] at result
      cases result
  | ok returned =>
      rcases returned with ⟨obj?, b⟩
      rw [ran] at result
      cases result
      exact ⟨4096, _, b, by decide, ran⟩

/-- The reply is a KRPC message, and is refused. -/
theorem twoByteTid_refused : Decoded twoByteTid ∧
    ¬ Meets twoByteTid (dhtMessageParseImpl twoByteTid) := by
  constructor
  · exact twoByteTid_decoded
  · have refused : dhtMessageParseImpl twoByteTid = .ok none := by decide +kernel
    have sender : HasId idOnly (ascii "abcdefghij0123456789") := ⟨by decide, by decide⟩
    rw [refused, meets_none_iff, not_not]
    refine ⟨_, ascii "aa", .response, .error, some (ascii "abcdefghij0123456789"), rfl,
      by decide, by decide, ?_⟩
    exact .response (by decide) (show _ = some (Bobj.dict idOnly) by decide +kernel) sender

theorem meets_iff_sound_twoByteTid :
    Meets twoByteTid (dhtMessageParseImpl twoByteTid) ↔ Sound twoByteTid :=
  meets_iff_sound twoByteTid_decoded

end Dnsp2p.Message
