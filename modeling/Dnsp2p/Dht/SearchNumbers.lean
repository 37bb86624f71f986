import Dnsp2p.Dht.Dispatch
import Dnsp2p.Dht.SearchList
import Dnsp2p.Library.Run
import Mathlib.Data.List.Nodup

/-!
# The numbers of searches

A reply to a search carries the number of the search in its transaction id, and
`find_search` takes the first search of the family with that number.  The counter
has 16 bits.  Which searches keep the numbers apart, over runs of `dht_search` and
`dht_periodic`.
-/

namespace Dnsp2p.Dht

open Dnsp2p.Benc Dnsp2p.Message

/-! ## Transaction ids -/

/-- The number is read back from a transaction id. -/
theorem tidMatch_makeTid (number : UInt16) : tidMatch (makeTid "gp" number) "gp" = some number := by
  have split : number.toUInt8.toUInt16 + (number >>> 8).toUInt8.toUInt16 * 256 = number := by
    apply UInt16.toNat_inj.mp
    have bound := number.toNat_lt
    simp [UInt16.toNat_add, UInt16.toNat_mul, Nat.shiftRight_eq_div_pow]
    omega
  have kind : ascii "gp" = [chr 'g', chr 'p'] := by decide
  simp only [makeTid, tidMatch, kind, List.cons_append, List.nil_append, if_true, split]

/-! ## Runs -/

/-- A question of DNS, or a call of `dht_periodic`. -/
inductive Action where
  | search (id : Field 20) (port : Int) (af : Family) (caller : Caller)
  | periodic (input : Input) (caller : Caller)

/-- The state after an action. -/
def State.act (d : State) : Action → Except Fault State
  | .search id port af caller => .ok (d.dhtSearch id port af caller).2.1
  | .periodic input caller => do
      let outcome ← dhtPeriodic d input caller
      .ok outcome.dht

/-- Searches of a family have different numbers, and the number that is read back from
a request finds the search that asked. -/
structure Credited (d : State) : Prop where
  distinct : ∀ (i j : Nat) (first second : Search), d.searches[i]? = some first →
    d.searches[j]? = some second → i ≠ j → first.af = second.af → first.tid ≠ second.tid
  found : ∀ (i : Nat) (sr : Search), d.searches[i]? = some sr →
    ∃ number, tidMatch (makeTid "gp" sr.tid) "gp" = some number ∧
      findSearch d.searches number sr.af = some i

/-! ## Families and numbers -/

/-- The family of a search, and its number. -/
def Search.number (sr : Search) : Family × UInt16 :=
  (sr.af, sr.tid)

/-- The families and numbers of the searches of a list. -/
def numbers (searches : List Search) : List (Family × UInt16) :=
  searches.map Search.number

theorem numbers_eq_map_badges (searches : List Search) :
    numbers searches = (badges searches).map fun badge => (badge.1.2, badge.2) := by
  simp [numbers, badges, Search.number, Search.badge, Search.label]

theorem numbers_of_badges {first second : List Search} (same : badges first = badges second) :
    numbers first = numbers second := by
  rw [numbers_eq_map_badges, same, numbers_eq_map_badges]

theorem getElem?_numbers {searches : List Search} {i : Nat} {number : Family × UInt16} :
    (numbers searches)[i]? = some number ↔ ∃ sr, searches[i]? = some sr ∧ sr.number = number := by
  simp [numbers]

/-- Two searches with one number are one search. -/
theorem nodup_numbers_iff {searches : List Search} :
    (numbers searches).Nodup ↔ ∀ (i j : Nat) (first second : Search), searches[i]? = some first →
      searches[j]? = some second → i ≠ j → first.af = second.af → first.tid ≠ second.tid := by
  rw [nodup_iff_place_unique]
  constructor
  · intro unique i j first second listed listed' differ family number
    apply differ
    apply unique i j first.number (getElem?_numbers.mpr ⟨first, listed, rfl⟩)
    exact getElem?_numbers.mpr ⟨second, listed', by rw [Search.number, ← family, ← number]; rfl⟩
  · intro distinct i j number here there
    rcases getElem?_numbers.mp here with ⟨first, listed, rfl⟩
    rcases getElem?_numbers.mp there with ⟨second, listed', same⟩
    by_contra differ
    exact distinct i j first second listed listed' differ (congrArg Prod.fst same).symm
      (congrArg Prod.snd same).symm

/-- Searches are found by their numbers exactly when these are different. -/
theorem credited_iff (d : State) : Credited d ↔ (numbers d.searches).Nodup := by
  rw [nodup_numbers_iff]
  constructor
  · intro credited
    exact credited.distinct
  · intro distinct
    refine ⟨distinct, fun i sr listed => ⟨sr.tid, tidMatch_makeTid sr.tid, ?_⟩⟩
    rcases List.getElem?_eq_some_iff.mp listed with ⟨inside, rfl⟩
    rw [findSearch, List.findIdx?_eq_some_iff_getElem]
    refine ⟨inside, by simp, fun j before => ?_⟩
    have other := List.getElem?_eq_getElem (before.trans inside)
    intro found
    simp only [Bool.and_eq_true, decide_eq_true_eq] at found
    exact distinct j i _ _ other listed (by omega) found.2 found.1

/-! ## The next number -/

/-- `new_search` takes no new slot. -/
def Crowded (d : State) : Prop :=
  ¬(NoStaleSlot d.now d.searches ∧ d.numsearches < dhtMaxSearches)

/-- `dht_search` starts no new search: it is known, or there is no table, or no slot. -/
def StartsNone (d : State) (id : Field 20) (af : Family) : Prop :=
  (id, af) ∈ labels d.searches ∨ d.bucketsOf af = [] ∨
    Crowded d ∧ ∀ sr ∈ d.searches, sr.done = false

/-- A new search gets a number that no other search of its family has, unless it takes
the slot of that one. -/
def FreshNumber (d : State) : Action → Prop
  | .search id _ af _ => StartsNone d id af ∨
      ∀ (i : Nat) (sr : Search), d.searches[i]? = some sr → sr.af = af → sr.tid = d.searchId →
        Crowded d ∧ Oldest d.searches i sr
  | .periodic _ _ => True

/-- Calls of `dht_periodic` give no numbers. -/
theorem numbers_dhtPeriodic {d : State} {input : Input} {caller : Caller} {outcome : Outcome}
    (returned : dhtPeriodic d input caller = .ok outcome) :
    (numbers outcome.dht.searches).Sublist (numbers d.searches) := by
  rw [numbers_of_badges (dhtPeriodic_badges returned)]
  split
  · exact List.filter_sublist.map _
  · exact List.Sublist.refl _

/-- A search keeps the numbers apart exactly when the one it gets is fresh. -/
theorem dhtSearch_credited_iff {d : State} (apart : (numbers d.searches).Nodup) (id : Field 20)
    (port : Int) (af : Family) (caller : Caller) :
    (numbers (d.dhtSearch id port af caller).2.1.searches).Nodup ↔
      FreshNumber d (.search id port af caller) := by
  by_cases known : (id, af) ∈ labels d.searches
  · rw [numbers_of_badges (State.dhtSearch_known known port caller).1]
    exact ⟨fun _ => .inl (.inl known), fun _ => apart⟩
  by_cases table : d.bucketsOf af = []
  · rw [State.dhtSearch_refused (.inl table)]
    exact ⟨fun _ => .inl (.inr (.inl table)), fun _ => apart⟩
  rcases newSearch_cases d.now d.searches d.numsearches with ⟨fresh, full⟩
  by_cases crowded : Crowded d
  · rcases full crowded with ⟨none, running⟩ | ⟨slot, old, oldest, reused⟩
    · have prepared := State.prepareSearch_new known
      rw [none] at prepared
      rw [State.dhtSearch_refused (.inr prepared)]
      exact ⟨fun _ => .inl (.inr (.inr ⟨crowded, running⟩)), fun _ => apart⟩
    · have listed := (State.dhtSearch_new table known reused port caller).1
      rw [numbers_eq_map_badges, listed, List.map_set, ← numbers_eq_map_badges,
        nodup_set_iff apart (by simpa [numbers] using oldest.inside)]
      constructor
      · intro alone
        refine .inr fun i sr place family number => ⟨crowded, ?_⟩
        have here := alone i (getElem?_numbers.mpr ⟨sr, place, Prod.ext family number⟩)
        subst here
        cases oldest.listed.symm.trans place
        exact oldest
      · rintro (idle | replaced) i taken
        · rcases idle with listed | none | ⟨_, running⟩
          · exact absurd listed known
          · exact absurd none table
          · have unfinished := running old (List.mem_of_getElem? oldest.listed)
            cases unfinished.symm.trans oldest.done
        · rcases getElem?_numbers.mp taken with ⟨sr, place, same⟩
          have both := replaced i sr place (congrArg Prod.fst same) (congrArg Prod.snd same)
          exact both.2.unique oldest
  · have listed := (State.dhtSearch_new table known (fresh (not_not.mp crowded)) port caller).1
    have front : numbers (d.dhtSearch id port af caller).2.1.searches =
        (af, d.searchId) :: numbers d.searches := by
      rw [numbers_eq_map_badges, listed, numbers_eq_map_badges]
      rfl
    rw [front, List.nodup_cons]
    constructor
    · rintro ⟨new, _⟩
      refine .inr fun i sr place family number => absurd ?_ new
      exact List.mem_of_getElem? (getElem?_numbers.mpr ⟨sr, place, Prod.ext family number⟩)
    · rintro (idle | replaced)
      · rcases idle with listed | none | ⟨full, _⟩
        · exact absurd listed known
        · exact absurd none table
        · exact absurd full crowded
      · refine ⟨fun taken => ?_, apart⟩
        rcases List.getElem?_of_mem taken with ⟨i, place⟩
        rcases getElem?_numbers.mp place with ⟨sr, listed, same⟩
        exact crowded (replaced i sr listed (congrArg Prod.fst same) (congrArg Prod.snd same)).1

/-- Replies are credited to the search that asked throughout a run exactly when each new
search gets a fresh number. -/
theorem credited_iff_freshNumber (s s6 : Int) (id : Field 20) (v : Option (Field 4)) (now : Int)
    (random : Nat → Nat) (actions : List Action) :
    Run.Always State.act Credited (State.init s s6 id v now random) actions ↔
      Run.Guarded State.act FreshNumber (State.init s s6 id v now random) actions := by
  apply Run.always_iff_guarded (fun _ => True) (fun _ _ => trivial) _ trivial
  · rw [credited_iff]
    exact List.nodup_nil
  · intro d action next _ credited acted
    rw [credited_iff] at credited ⊢
    cases action with
    | search id port af caller =>
        cases acted
        exact dhtSearch_credited_iff credited id port af caller
    | periodic input caller =>
        rcases bind_eq_ok_iff.mp acted with ⟨outcome, returned, same⟩
        cases same
        exact ⟨fun _ => trivial, fun _ => credited.sublist (numbers_dhtPeriodic returned)⟩

/-! ## The counter wraps -/

/-- The id with a number in its last three bytes. -/
def numberedId (n : Nat) : Field 20 :=
  ⟨List.replicate 17 0 ++ [UInt8.ofNat (n / 65536), UInt8.ofNat (n / 256), UInt8.ofNat n], rfl⟩

theorem numberedId_inj {m n : Nat} (below : m < 2 ^ 24) (below' : n < 2 ^ 24)
    (same : numberedId m = numberedId n) : m = n := by
  have bytes := congrArg Field.bytes same
  simp only [numberedId, List.append_cancel_left_eq, List.cons.injEq, and_true] at bytes
  rcases bytes with ⟨high, middle, low⟩
  have high := congrArg UInt8.toNat high
  have middle := congrArg UInt8.toNat middle
  have low := congrArg UInt8.toNat low
  simp only [UInt8.toNat_ofNat'] at high middle low
  omega

/-- Buckets without nodes give a search nothing. -/
theorem seedSearch_bare {t : Table} (bare : t.bucketsOf .inet = [Bucket.zero .inet]) (b : Nat)
    (sr : Search) : State.seedSearch t .inet b sr = sr := by
  unfold State.seedSearch
  extract_lets insert sr₁ sr₂
  have inserted : ∀ b? sr, insert b? sr = sr := by
    intro b? sr
    unfold insert
    cases b? with
    | none => rfl
    | some b =>
        rw [bare]
        cases b <;> rfl
  have same : sr₂ = sr := by
    unfold sr₂ sr₁
    split
    · rw [inserted, inserted, inserted]
    · exact inserted _ _
  split
  · rw [inserted, same]
  · exact same

/-- Without nodes a search is finished as it is started. -/
theorem dhtSearch_finished {d : State} {id : Field 20}
    (bare : d.bucketsOf .inet = [Bucket.zero .inet]) (new : (id, Family.inet) ∉ labels d.searches)
    {slot : Nat} {searches : List Search} {numsearches : Int}
    (given : newSearch d.now d.searches d.numsearches = some (slot, searches, numsearches))
    (caller : Caller) :
    (d.dhtSearch id 0 .inet caller).2.1 = { d with
      searches := searches.set slot
        { tid := d.searchId, af := .inet, stepTime := d.now, id, port := 0, done := true,
          nodes := [] }
      numsearches
      searchId := d.searchId + 1
      searchTime := d.now } := by
  have inside := (State.newSearch_slot given).1
  have table : findBucket (d.bucketsOf .inet) id = some 0 := by
    rw [bare]
    rfl
  unfold State.dhtSearch
  simp only [table, State.prepareSearch_new new, given, List.getElem?_modify_eq,
    List.getElem?_eq_getElem inside, Option.map_eq_map, Option.map_some, seedSearch_bare bare]
  have overwritten (change : Search → Search) (sr : Search) :
      (searches.modify slot change).set slot sr = searches.set slot sr := by
    apply List.ext_getElem?
    intro i
    rw [List.getElem?_set, List.getElem?_set, List.length_modify, List.getElem?_modify]
    by_cases here : slot = i
    · simp only [if_pos here]
    · simp only [if_neg here, id_map']
  rw [overwritten]
  rfl

/-- What the search list looks like after searches for the first numbered ids: each
took a slot in front while there was one, and the first slot afterwards, so that the
first search stays behind. -/
structure Numbered (n : Nat) (d : State) : Prop where
  bare : d.bucketsOf .inet = [Bucket.zero .inet]
  count : d.searches.length = min n 1024
  numsearches : d.numsearches = d.searches.length
  finished : ∀ sr ∈ d.searches, sr.done = true ∧ sr.stepTime = d.now
  ids : ∀ sr ∈ d.searches, ∃ k < n, sr.id = numberedId k
  searchId : d.searchId = UInt16.ofNat n
  head : ∀ sr, d.searches[0]? = some sr → sr.number = (.inet, UInt16.ofNat (n - 1))
  last : ∀ sr, d.searches.getLast? = some sr → sr.number = (.inet, 0)

namespace Numbered

variable {n : Nat} {d : State}

theorem unknown (numbered : Numbered n d) (small : n < 2 ^ 24) :
    (numberedId n, Family.inet) ∉ labels d.searches := by
  intro known
  rcases List.mem_map.mp known with ⟨sr, mem, same⟩
  rcases numbered.ids sr mem with ⟨k, before, id⟩
  have equal := numberedId_inj (by omega) small (id.symm.trans (congrArg Prod.fst same))
  omega

theorem noStaleSlot (numbered : Numbered n d) : NoStaleSlot d.now d.searches := by
  intro sr mem _
  rw [(numbered.finished sr mem).2]
  simp [dhtSearchExpireTime]

/-- A finished search in front of what is left of the list. -/
theorem extend (numbered : Numbered n d) {rest : List Search} (kept : rest <:+ d.searches)
    (count : rest.length + 1 = min (n + 1) 1024) :
    Numbered (n + 1) { d with
      searches := { tid := d.searchId, af := .inet, stepTime := d.now, id := numberedId n,
                    port := 0, done := true, nodes := [] } :: rest
      numsearches := rest.length + 1
      searchId := d.searchId + 1
      searchTime := d.now } where
  bare := numbered.bare
  count := count
  numsearches := by simp
  finished := by
    intro sr mem
    rcases List.mem_cons.mp mem with rfl | mem
    · exact ⟨rfl, rfl⟩
    · exact numbered.finished sr (kept.subset mem)
  ids := by
    intro sr mem
    rcases List.mem_cons.mp mem with rfl | mem
    · exact ⟨n, by omega, rfl⟩
    · rcases numbered.ids sr (kept.subset mem) with ⟨k, before, id⟩
      exact ⟨k, by omega, id⟩
  searchId := by
    rw [numbered.searchId]
    simp
  head := by
    rintro sr ⟨⟩
    rw [Search.number, numbered.searchId]
    rfl
  last := by
    intro sr ends
    cases rest with
    | nil =>
        -- this is the first search
        cases ends
        have first : n = 0 := by
          simp at count
          omega
        rw [Search.number, numbered.searchId, first]
        rfl
    | cons other rest =>
        rw [List.getLast?_cons_cons] at ends
        rcases kept with ⟨front, whole⟩
        apply numbered.last sr
        rw [← whole, List.getLast?_append, ends]
        rfl

/-- The next search. -/
theorem next (numbered : Numbered n d) (small : n < 2 ^ 24) (caller : Caller) :
    Numbered (n + 1) (d.dhtSearch (numberedId n) 0 .inet caller).2.1 := by
  have new := numbered.unknown small
  have size := numbered.numsearches
  have count := numbered.count
  rcases newSearch_cases d.now d.searches d.numsearches with ⟨fresh, full⟩
  by_cases room : n < 1024
  · have given := fresh ⟨numbered.noStaleSlot, by rw [size]; simp only [dhtMaxSearches]; omega⟩
    rw [dhtSearch_finished numbered.bare new given, List.set_cons_zero, size]
    exact numbered.extend List.suffix_rfl (by omega)
  · have crowded : ¬(NoStaleSlot d.now d.searches ∧ d.numsearches < dhtMaxSearches) := by
      rw [size]
      simp only [dhtMaxSearches]
      omega
    cases listed : d.searches with
    | nil =>
        rw [listed] at count
        simp at count
        omega
    | cons sr rest =>
        have member (other : Search) (mem : other ∈ sr :: rest) :=
          numbered.finished other (listed ▸ mem)
        have oldest : Oldest d.searches 0 sr := by
          rw [listed]
          constructor
          · rfl
          · exact (member sr List.mem_cons_self).1
          · intro other mem _
            rw [(member sr List.mem_cons_self).2, (member other mem).2]
          · rintro before ⟨⟩
        rcases full crowded with ⟨_, running⟩ | ⟨slot, old, found, given⟩
        · cases (running sr (List.mem_of_getElem? oldest.listed)).symm.trans oldest.done
        · rw [found.unique oldest] at given
          rw [listed] at count size
          rw [dhtSearch_finished numbered.bare new given, listed, List.set_cons_zero, size]
          exact numbered.extend (by rw [listed]; exact List.suffix_cons sr rest)
            (by rw [List.length_cons] at count; omega)

theorem start : Numbered 0 startedNode where
  bare := rfl
  count := rfl
  numsearches := rfl
  finished := nofun
  ids := nofun
  searchId := rfl
  head := nofun
  last := nofun

/-- Searches for the first numbered ids. -/
theorem run (m : Nat) (small : m < 2 ^ 24) (caller : Caller) :
    ∃ d, Run.run State.act startedNode
      ((List.range m).map fun k => .search (numberedId k) 0 .inet caller) = .ok d ∧
      Numbered m d := by
  induction m with
  | zero => exact ⟨startedNode, rfl, start⟩
  | succ m ih =>
      rcases ih (by omega) with ⟨d, ran, numbered⟩
      refine ⟨_, ?_, numbered.next (by omega) caller⟩
      rw [List.range_succ, List.map_append, Run.run_append_of_ok ran]
      rfl

end Numbered

/-- A node that searches for 65537 ids without knowing any node gives the last search
the number of the first one, which is still listed. -/
theorem not_credited :
    ¬ ∀ (s s6 : Int) (id : Field 20) (v : Option (Field 4)) (now : Int) (random : Nat → Nat)
        (actions : List Action),
      Run.Always State.act Credited (State.init s s6 id v now random) actions := by
  intro always
  rcases Numbered.run 65537 (by decide) { callback := none, closure := 0 } with
    ⟨d, ran, numbered⟩
  have credited := (always 3 (-1) (Field.zero 20) none 1000 (fun _ => 0) _).last ran
  have length : d.searches.length = 1024 := numbered.count
  have first := List.getElem?_eq_getElem (l := d.searches) (i := 0) (by omega)
  have last := List.getElem?_eq_getElem (l := d.searches) (i := 1023) (by omega)
  have head := numbered.head _ first
  have final := numbered.last _ (by rw [List.getLast?_eq_getElem?, length, last])
  have same := head.trans final.symm
  exact credited.distinct 0 1023 _ _ first last (by decide) (congrArg Prod.fst same)
    (congrArg Prod.snd same)

end Dnsp2p.Dht
