import Dnsp2p.Dht.Frame

/-!
# Which searches there are

What `dht_search` and `dht_periodic` do to the search list, as far as ids,
families, numbers and times of the last step are concerned.  Messages do not touch
these.
-/

namespace Dnsp2p.Dht

open Dnsp2p.Benc Dnsp2p.Message

namespace Search

/-- What a search is for. -/
def label (sr : Search) : Field 20 × Family :=
  (sr.id, sr.af)

/-- What a search is for, and its number. -/
def badge (sr : Search) : (Field 20 × Family) × UInt16 :=
  (sr.label, sr.tid)

theorem badge_of_core {first second : Search} (same : first.core = second.core) :
    first.badge = second.badge := by
  change first.core.badge = second.core.badge
  rw [same]

end Search

/-- What the searches of a list are for. -/
def labels (searches : List Search) : List (Field 20 × Family) :=
  searches.map Search.label

/-- What the searches of a list are for, and their numbers. -/
def badges (searches : List Search) : List ((Field 20 × Family) × UInt16) :=
  searches.map Search.badge

theorem map_fst_badges (searches : List Search) :
    (badges searches).map Prod.fst = labels searches := by
  simp [badges, labels, Search.badge]

theorem labels_of_badges {first second : List Search} (same : badges first = badges second) :
    labels first = labels second := by
  rw [← map_fst_badges, same, map_fst_badges]

theorem badges_of_cores {first second : List Search} (same : cores first = cores second) :
    badges first = badges second := by
  have view (searches : List Search) : badges searches = (cores searches).map Search.badge := by
    simp [badges, cores, Search.core, Search.badge, Search.label]
  rw [view, view, same]

/-- The searches that `expire_searches` keeps. -/
def unexpired (now : Int) (searches : List Search) : List Search :=
  searches.filter fun sr => !(sr.stepTime < now - dhtSearchExpireTime)

theorem cores_unexpired {now : Int} {first second : List Search}
    (same : cores first = cores second) :
    cores (unexpired now first) = cores (unexpired now second) := by
  have view (searches : List Search) :
      cores (unexpired now searches) = unexpired now (cores searches) := by
    simp only [cores, unexpired, List.filter_map]
    rfl
  rw [view, view, same]

/-! ## Messages -/

/-- No search appeared, disappeared or was stepped, and the times are the same. -/
structure SameList (d d' : State) : Prop where
  times : SameTimes d.toTable d'.toTable
  cores : cores d'.searches = cores d.searches

theorem SameList.refl (d : State) : SameList d d :=
  ⟨.refl _, rfl⟩

theorem Frame.sameList {d d' : State} (frame : Frame d d') : SameList d d' :=
  ⟨frame.times, frame.cores⟩

theorem SameList.tokenBucket (d : State) : SameList d d.tokenBucket.2 := by
  unfold State.tokenBucket
  dsimp only
  split
  · split <;> exact ⟨⟨rfl, rfl⟩, rfl⟩
  · exact ⟨⟨rfl, rfl⟩, rfl⟩

/-- A datagram changes neither the search list nor the times. -/
theorem SameList.handleDatagram {d : State} (addr : Nat) (source : Sockaddr) (buf : Bytes) :
    Returns (d.handleDatagram addr source buf) fun returned => SameList d returned.1 := by
  refine .ite (.ok (refl d)) (.ite (.ok (refl d)) (.ite (.ok (refl d)) (.bind_any fun msg? => ?_)))
  split
  · exact .ok (refl d)
  · intro returned result
    rcases State.dispatch_frame _ returned result with frame | ⟨_, limited⟩
    · exact frame.sameList
    · rw [limited]
      exact SameList.tokenBucket d

/-! ## What is due -/

theorem askFrom_badge (fuel i j : Nat) (t : Table) (sr : Search) :
    (askFrom fuel i j t sr).2.badge = sr.badge := by
  induction fuel generalizing i j t sr with
  | zero => rfl
  | succ fuel ih =>
      unfold askFrom
      split
      · rfl
      · have asked := Search.badge_of_core (searchSendGetPeers_core t sr (some i)).2
        generalize searchSendGetPeers t sr (some i) = result at asked ⊢
        rcases result with ⟨t', sr', sent⟩
        dsimp only at asked ⊢
        split
        · exact asked
        · exact (ih _ _ t' sr').trans asked

theorem searchStep_badge (caller : Caller) (t : Table) (sr : Search) :
    (searchStep caller t sr).2.1.badge = sr.badge := by
  unfold searchStep
  split
  · split
    · rfl
    · dsimp only
      split <;> rfl
  · split
    · rfl
    · exact askFrom_badge _ _ _ t sr

namespace State

theorem stepSearches_badges (caller : Caller) (t : Table) (searches : List Search) :
    badges (stepSearches caller t searches).2.1 = badges searches := by
  induction searches generalizing t with
  | nil => rfl
  | cons sr rest ih =>
      unfold stepSearches
      dsimp only
      have head : (if (!sr.done && decide (sr.stepTime + 5 ≤ t.now)) = true
          then searchStep caller t sr else (t, sr, [])).2.1.badge = sr.badge := by
        split
        · exact searchStep_badge caller t sr
        · rfl
      simp only [badges, List.map_cons, head]
      exact congrArg _ (ih _)

theorem runSearches_badges (d : State) (caller : Caller) :
    badges (d.runSearches caller).1.searches = badges d.searches := by
  unfold runSearches
  split
  · exact stepSearches_badges caller d.toTable d.searches
  · rfl

theorem maintain_searches (d : State) : d.maintain.searches = d.searches := by
  unfold maintain
  split
  · rfl
  · rfl

/-- What is due expires searches that were not stepped for long, and changes no
other. -/
theorem due_badges (d : State) (caller : Caller) :
    badges (d.due caller).1.searches =
      badges (if d.expireStuffTime ≤ d.now then unexpired d.now d.searches else d.searches) := by
  unfold due
  dsimp only
  rw [maintain_searches, runSearches_badges]
  have rotated : (if d.rotateSecretsTime ≤ d.now then d.rotateSecrets else d).searches =
      d.searches ∧
      (if d.rotateSecretsTime ≤ d.now then d.rotateSecrets else d).now = d.now ∧
      (if d.rotateSecretsTime ≤ d.now then d.rotateSecrets else d).expireStuffTime =
        d.expireStuffTime := by
    split <;> exact ⟨rfl, rfl, rfl⟩
  generalize (if d.rotateSecretsTime ≤ d.now then d.rotateSecrets else d) = d₁ at rotated ⊢
  rcases rotated with ⟨searches, now, expireStuffTime⟩
  rw [← searches, ← now, ← expireStuffTime]
  split <;> rfl

end State

/-- `dht_periodic` returns before it does what is due. -/
def ReturnsEarly (d : State) (input : Input) : Prop :=
  input.available = true ∧ ∃ rc, receive d input = .error rc

/-- `dht_periodic` expires searches. -/
def Expires (d : State) (input : Input) : Prop :=
  ¬ReturnsEarly d input ∧ d.expireStuffTime ≤ input.now

open Classical in
/-- `dht_periodic` expires searches that were not stepped for long, and changes no
other. -/
theorem dhtPeriodic_badges {d : State} {input : Input} {caller : Caller} {outcome : Outcome}
    (returned : dhtPeriodic d input caller = .ok outcome) :
    badges outcome.dht.searches =
      badges (if Expires d input then unexpired input.now d.searches else d.searches) := by
  have finish : ∀ d' : State, SameList { d with now := input.now } d' → ¬ReturnsEarly d input →
      badges (d'.due caller).1.searches =
        badges (if Expires d input then unexpired input.now d.searches else d.searches) := by
    intro d' same late
    have now : d'.now = input.now := same.times.now
    have expireStuffTime : d'.expireStuffTime = d.expireStuffTime := same.times.expireStuffTime
    rw [State.due_badges, now, expireStuffTime]
    simp only [Expires, late, not_false_eq_true, true_and]
    split
    · exact badges_of_cores (cores_unexpired same.cores)
    · exact badges_of_cores same.cores
  have course := dhtPeriodic_course returned
  generalize outcome.dht = result at course ⊢
  cases course with
  | early available failed =>
      have early : ReturnsEarly d input := ⟨available, _, failed⟩
      simp [Expires, early]
  | idle silent =>
      apply finish _ (.refl _)
      rintro ⟨available, rc, failed⟩
      rcases silent with unavailable | nothing
      · cases unavailable.symm.trans available
      · cases nothing.symm.trans failed
  | datagram received handled =>
      apply finish _ (SameList.handleDatagram _ _ _ _ handled)
      rintro ⟨_, rc, failed⟩
      cases received.symm.trans failed

open Classical in
theorem dhtPeriodic_labels {d : State} {input : Input} {caller : Caller} {outcome : Outcome}
    (returned : dhtPeriodic d input caller = .ok outcome) :
    labels outcome.dht.searches =
      labels (if Expires d input then unexpired input.now d.searches else d.searches) :=
  labels_of_badges (dhtPeriodic_badges returned)

/-! ## Starting a search -/

/-- No finished search is so old that its slot is taken. -/
def NoStaleSlot (now : Int) (searches : List Search) : Prop :=
  ∀ sr ∈ searches, sr.done = true → now - dhtSearchExpireTime ≤ sr.stepTime

/-- One turn of the loop that looks for the oldest finished search. -/
def older (i : Nat) (sr : Search) (oldest : Option (Nat × Int)) : Option (Nat × Int) :=
  match oldest with
  | none => if sr.done then some (i, sr.stepTime) else none
  | some (slot, stepTime) =>
      if sr.done ∧ sr.stepTime < stepTime then some (i, sr.stepTime) else some (slot, stepTime)

theorem oldestDone_cons (i : Nat) (oldest : Option (Nat × Int)) (sr : Search) (rest : List Search) :
    oldestDone i oldest (sr :: rest) = oldestDone (i + 1) (older i sr oldest) rest := by
  cases oldest <;> simp [oldestDone, older]

theorem older_eq_some {i slot : Nat} {sr : Search} {oldest : Option (Nat × Int)} {stepTime : Int}
    (result : older i sr oldest = some (slot, stepTime)) :
    oldest = some (slot, stepTime) ∨
      slot = i ∧ sr.done = true ∧ sr.stepTime = stepTime ∧ ∀ pair ∈ oldest, stepTime < pair.2 := by
  unfold older at result
  split at result <;> split at result <;> simp_all

/-- The new oldest search is not younger than the old one and than the search seen. -/
theorem older_le {i : Nat} {sr : Search} {oldest : Option (Nat × Int)} {stepTime : Int}
    (bound : ∀ pair ∈ older i sr oldest, stepTime ≤ pair.2) :
    (∀ pair ∈ oldest, stepTime ≤ pair.2) ∧ (sr.done = true → stepTime ≤ sr.stepTime) := by
  cases oldest with
  | none =>
      refine ⟨by simp, fun done => ?_⟩
      exact bound (i, sr.stepTime) (by simp [older, done])
  | some pair =>
      by_cases better : sr.done = true ∧ sr.stepTime < pair.2
      · have seen := bound (i, sr.stepTime) (by simp [older, better])
        refine ⟨?_, fun _ => seen⟩
        rintro _ ⟨rfl⟩
        exact seen.trans better.2.le
      · have kept := bound pair (by simp only [older, if_neg better]; rfl)
        refine ⟨?_, fun done => ?_⟩
        · rintro _ ⟨rfl⟩
          exact kept
        · exact kept.trans (not_lt.mp fun less => better ⟨done, less⟩)

theorem oldestDone_eq_none {searches : List Search} {i : Nat} {oldest : Option (Nat × Int)}
    (none : oldestDone i oldest searches = none) :
    oldest = .none ∧ ∀ sr ∈ searches, sr.done = false := by
  induction searches generalizing i oldest with
  | nil => exact ⟨none, by simp⟩
  | cons sr rest ih =>
      rw [oldestDone_cons] at none
      rcases ih none with ⟨first, others⟩
      cases oldest with
      | none =>
          have : sr.done = false := by simpa [older] using first
          exact ⟨rfl, by simpa [this] using others⟩
      | some pair =>
          simp only [older] at first
          split at first <;> cases first

/-- A finished search that was stepped before all finished ones in front of it, and
not after the others. -/
structure Oldest (searches : List Search) (place : Nat) (sr : Search) : Prop where
  listed : searches[place]? = some sr
  done : sr.done = true
  least : ∀ other ∈ searches, other.done = true → sr.stepTime ≤ other.stepTime
  first : ∀ before < place, ∀ other, searches[before]? = some other → other.done = true →
    sr.stepTime < other.stepTime

theorem Oldest.inside {searches : List Search} {place : Nat} {sr : Search}
    (oldest : Oldest searches place sr) : place < searches.length :=
  (List.getElem?_eq_some_iff.mp oldest.listed).1

/-- There is one oldest search. -/
theorem Oldest.unique {searches : List Search} {place place' : Nat} {sr sr' : Search}
    (one : Oldest searches place sr) (other : Oldest searches place' sr') : place = place' := by
  have le := one.least sr' (List.mem_of_getElem? other.listed) other.done
  have ge := other.least sr (List.mem_of_getElem? one.listed) one.done
  rcases lt_trichotomy place place' with before | same | after
  · have less := other.first place before sr one.listed one.done
    omega
  · exact same
  · have less := one.first place' after sr' other.listed other.done
    omega

/-- The loop ends at the oldest of the finished searches, unless the one it started
with is as old. -/
theorem oldestDone_eq_some {searches : List Search} {i slot : Nat} {stepTime : Int}
    {oldest : Option (Nat × Int)} (some : oldestDone i oldest searches = some (slot, stepTime)) :
    (oldest = .some (slot, stepTime) ∨ (∀ pair ∈ oldest, stepTime < pair.2) ∧
        ∃ place sr, slot = i + place ∧ Oldest searches place sr ∧ sr.stepTime = stepTime) ∧
      (∀ pair ∈ oldest, stepTime ≤ pair.2) ∧
      ∀ sr ∈ searches, sr.done = true → stepTime ≤ sr.stepTime := by
  induction searches generalizing i oldest with
  | nil =>
      obtain rfl : oldest = .some (slot, stepTime) := some
      simp
  | cons sr rest ih =>
      rw [oldestDone_cons] at some
      rcases ih some with ⟨origin, first, others⟩
      rcases older_le first with ⟨bound, seen⟩
      have least : ∀ other ∈ sr :: rest, other.done = true → stepTime ≤ other.stepTime := by
        intro other mem done
        rcases List.mem_cons.mp mem with rfl | mem
        · exact seen done
        · exact others other mem done
      refine ⟨?_, bound, least⟩
      rcases origin with here | ⟨younger, place, other, rfl, found, rfl⟩
      · rcases older_eq_some here with same | ⟨rfl, done, rfl, younger⟩
        · exact .inl same
        · refine .inr ⟨younger, 0, sr, rfl, ⟨rfl, done, least, ?_⟩, rfl⟩
          rintro before ⟨⟩
      · -- strictly older than the search at hand and than what the loop started with
        have later : ∀ pair ∈ older i sr oldest, other.stepTime + 1 ≤ pair.2 := younger
        rcases older_le later with ⟨younger, passed⟩
        refine .inr ⟨younger, place + 1, other, by omega, ⟨found.listed, found.done, least, ?_⟩,
          rfl⟩
        intro before inside earlier listed done
        cases before with
        | zero =>
            cases listed
            exact passed done
        | succ before => exact found.first before (by omega) earlier listed done

/-- `new_search` takes a fresh slot when no old one is stale and one is left, and
else the slot of the oldest finished search, or none. -/
theorem newSearch_cases (now : Int) (searches : List Search) (numsearches : Int) :
    (NoStaleSlot now searches ∧ numsearches < dhtMaxSearches →
      newSearch now searches numsearches = some (0, Search.zero :: searches, numsearches + 1)) ∧
    (¬(NoStaleSlot now searches ∧ numsearches < dhtMaxSearches) →
      (newSearch now searches numsearches = none ∧ ∀ sr ∈ searches, sr.done = false) ∨
        ∃ slot sr, Oldest searches slot sr ∧ newSearch now searches numsearches =
          some (slot, searches, numsearches)) := by
  unfold newSearch
  dsimp only
  cases ends : oldestDone 0 none searches with
  | none =>
      rcases oldestDone_eq_none ends with ⟨_, running⟩
      have fresh : NoStaleSlot now searches := by
        intro sr mem done
        simp [running sr mem] at done
      dsimp only
      constructor
      · rintro ⟨_, room⟩
        rw [if_pos room]
      · intro full
        left
        rw [if_neg fun room => full ⟨fresh, room⟩]
        exact ⟨rfl, running⟩
  | some pair =>
      rcases pair with ⟨slot, stepTime⟩
      rcases oldestDone_eq_some ends with ⟨origin, _, least⟩
      rcases origin.resolve_left (by simp) with ⟨_, place, sr, here, oldest, rfl⟩
      obtain rfl : slot = place := by omega
      have stale : sr.stepTime < now - dhtSearchExpireTime ↔ ¬NoStaleSlot now searches := by
        constructor
        · intro old fresh
          have := fresh sr (List.mem_of_getElem? oldest.listed) oldest.done
          omega
        · intro taken
          by_contra young
          exact taken fun other otherMem otherDone =>
            (not_lt.mp young).trans (least other otherMem otherDone)
      dsimp only
      constructor
      · rintro ⟨fresh, room⟩
        rw [if_neg fun old => stale.mp old fresh, if_pos room]
      · intro full
        refine .inr ⟨slot, sr, oldest, ?_⟩
        split
        · rfl
        · next young =>
          rw [if_neg fun room => full ⟨not_not.mp fun taken => young (stale.mpr taken), room⟩]
          rfl

namespace State

theorem seedSearch_badge (t : Table) (af : Family) (b : Nat) (sr : Search) :
    (seedSearch t af b sr).badge = sr.badge := by
  unfold seedSearch
  extract_lets insert sr₁ sr₂
  have inserted : ∀ b? sr, (insert b? sr).badge = sr.badge := by
    intro b? sr
    unfold insert
    split
    · rfl
    · exact Search.badge_of_core (insertSearchBucket_core _ _ _)
  have first : sr₁.badge = sr.badge := inserted _ _
  have second : sr₂.badge = sr.badge := by
    unfold sr₂
    split
    · rw [inserted, inserted, first]
    · exact first
  split
  · rw [inserted, second]
  · exact second

/-- A new search can be started: there is a table, and a slot that takes no other. -/
def Searchable (d : State) (af : Family) : Prop :=
  d.bucketsOf af ≠ [] ∧ NoStaleSlot d.now d.searches ∧ d.numsearches < dhtMaxSearches

/-- Without a table or a slot nothing changes. -/
theorem dhtSearch_refused {d : State} {id : Field 20} {af : Family}
    (refused : d.bucketsOf af = [] ∨ d.prepareSearch id af = none) (port : Int) (caller : Caller) :
    (d.dhtSearch id port af caller).2.1 = d := by
  unfold dhtSearch findBucket
  rcases refused with empty | full
  · simp [empty]
  · split
    · rfl
    · rw [full]

/-- With a table, `dht_search` leaves the list that it prepares. -/
theorem dhtSearch_prepared {d : State} {id : Field 20} {af : Family} (table : d.bucketsOf af ≠ [])
    {i : Nat} {searches : List Search} {numsearches : Int} {searchId : UInt16}
    (prepared : d.prepareSearch id af = some (i, searches, numsearches, searchId))
    (inside : i < searches.length) (port : Int) (caller : Caller) :
    badges (d.dhtSearch id port af caller).2.1.searches = badges searches ∧
      (d.dhtSearch id port af caller).2.1.searchId = searchId := by
  unfold dhtSearch findBucket
  rw [if_neg (by simpa using table)]
  simp only [prepared, List.getElem?_eq_getElem inside, and_true]
  apply map_set_same (List.getElem?_eq_getElem inside)
  rw [searchStep_badge, seedSearch_badge]
  rfl

theorem mem_labels_iff {searches : List Search} {id : Field 20} {af : Family} :
    (id, af) ∈ labels searches ↔ ∃ sr ∈ searches, sr.af = af ∧ idCmp sr.id id = 0 := by
  simp only [labels, List.mem_map, Search.label, Prod.mk.injEq]
  apply exists_congr
  intro sr
  apply and_congr_right
  intro _
  rw [show idCmp sr.id id = 0 ↔ sr.id = id from (Field.eq_iff_memcmp _ _).symm]
  exact and_comm

/-- A search that is there is continued with its number. -/
theorem dhtSearch_known {d : State} {id : Field 20} {af : Family}
    (known : (id, af) ∈ labels d.searches) (port : Int) (caller : Caller) :
    badges (d.dhtSearch id port af caller).2.1.searches = badges d.searches ∧
      (d.dhtSearch id port af caller).2.1.searchId = d.searchId := by
  by_cases table : d.bucketsOf af = []
  · rw [dhtSearch_refused (.inl table)]
    exact ⟨rfl, rfl⟩
  rcases mem_labels_iff.mp known with ⟨sr, mem, sameAf, sameId⟩
  cases found : d.searches.findIdx? fun sr => sr.af = af && idCmp sr.id id = 0 with
  | none =>
      have absent := List.findIdx?_eq_none_iff.mp found sr mem
      simp [sameAf, sameId] at absent
  | some i =>
      have inside := (List.findIdx?_eq_some_iff_findIdx_eq.mp found).1
      have prepared : d.prepareSearch id af = some (i, d.searches.modify i fun sr =>
          { sr with done := false, nodes := renewNodes d.now sr.nodes },
          d.numsearches, d.searchId) := by
        simp only [prepareSearch, found]
      rcases dhtSearch_prepared table prepared (by simpa using inside) port caller with
        ⟨listed, number⟩
      rw [listed, number]
      exact ⟨map_modify_same (fun _ => by rfl) _ _, rfl⟩

/-- A search that is not there gets a slot from `new_search`. -/
theorem prepareSearch_new {d : State} {id : Field 20} {af : Family}
    (new : (id, af) ∉ labels d.searches) :
    d.prepareSearch id af = match newSearch d.now d.searches d.numsearches with
      | none => none
      | some (i, searches, numsearches) =>
          some (i, searches.modify i fun sr =>
            { sr with af, tid := d.searchId, stepTime := 0, id, done := false, nodes := [] },
            numsearches, d.searchId + 1) := by
  have absent : (d.searches.findIdx? fun sr => sr.af = af && idCmp sr.id id = 0) = none := by
    refine List.findIdx?_eq_none_iff.mpr fun sr mem => ?_
    by_contra found
    exact new (mem_labels_iff.mpr ⟨sr, mem, by simpa using found⟩)
  cases slot : newSearch d.now d.searches d.numsearches <;> simp only [prepareSearch, absent, slot]

/-- The slot that `new_search` gives is one of the list that it leaves: a new one in
front, or one that there was. -/
theorem newSearch_slot {now : Int} {searches searches' : List Search} {numsearches n : Int}
    {slot : Nat} (given : newSearch now searches numsearches = some (slot, searches', n)) :
    slot < searches'.length ∧
      (searches' = searches ∨ slot = 0 ∧ searches' = Search.zero :: searches) := by
  rcases newSearch_cases now searches numsearches with ⟨fresh, full⟩
  by_cases room : NoStaleSlot now searches ∧ numsearches < dhtMaxSearches
  · cases (fresh room).symm.trans given
    exact ⟨by simp, .inr ⟨rfl, rfl⟩⟩
  · rcases full room with ⟨none, _⟩ | ⟨other, _, oldest, reused⟩
    · cases none.symm.trans given
    · cases reused.symm.trans given
      exact ⟨oldest.inside, .inl rfl⟩

/-- A new search gets the next number. -/
theorem dhtSearch_new {d : State} {id : Field 20} {af : Family} (table : d.bucketsOf af ≠ [])
    (new : (id, af) ∉ labels d.searches) {slot : Nat} {searches : List Search} {numsearches : Int}
    (given : newSearch d.now d.searches d.numsearches = some (slot, searches, numsearches))
    (port : Int) (caller : Caller) :
    badges (d.dhtSearch id port af caller).2.1.searches =
        (badges searches).set slot ((id, af), d.searchId) ∧
      (d.dhtSearch id port af caller).2.1.searchId = d.searchId + 1 := by
  have prepared := prepareSearch_new new
  rw [given] at prepared
  have inside := (newSearch_slot given).1
  rcases dhtSearch_prepared table prepared (by simpa using inside) port caller with
    ⟨listed, number⟩
  rw [listed, number]
  exact ⟨map_modify_const Search.badge (fun _ => by rfl) _ _, rfl⟩

/-- What `dht_search` does to the search list: a search that is there stays, a new
one is put in front when it is searchable, and else it takes the place of another
one, or there is none. -/
theorem dhtSearch_labels (d : State) (id : Field 20) (port : Int) (af : Family) (caller : Caller) :
    ((id, af) ∈ labels d.searches →
      labels (d.dhtSearch id port af caller).2.1.searches = labels d.searches) ∧
    ((id, af) ∉ labels d.searches → d.Searchable af →
      labels (d.dhtSearch id port af caller).2.1.searches = (id, af) :: labels d.searches) ∧
    ((id, af) ∉ labels d.searches → ¬d.Searchable af →
      labels (d.dhtSearch id port af caller).2.1.searches = labels d.searches ∨
        ∃ slot < (labels d.searches).length,
          labels (d.dhtSearch id port af caller).2.1.searches =
            (labels d.searches).set slot (id, af)) := by
  rcases newSearch_cases d.now d.searches d.numsearches with ⟨fresh, full⟩
  refine ⟨fun known => ?_, fun new searchable => ?_, fun new refused => ?_⟩
  · exact labels_of_badges (dhtSearch_known known port caller).1
  · have started := (dhtSearch_new searchable.1 new (fresh searchable.2) port caller).1
    rw [← map_fst_badges, started]
    simp [badges, labels, Search.badge]
  · by_cases table : d.bucketsOf af = []
    · exact .inl (by rw [dhtSearch_refused (.inl table)])
    · rcases full fun room => refused ⟨table, room⟩ with ⟨none, _⟩ | ⟨slot, _, oldest, reused⟩
      · have prepared := prepareSearch_new new
        rw [none] at prepared
        exact .inl (by rw [dhtSearch_refused (.inr prepared)])
      · have replaced := (dhtSearch_new table new reused port caller).1
        refine .inr ⟨slot, by simpa [labels] using oldest.inside, ?_⟩
        rw [← map_fst_badges, replaced, List.map_set, map_fst_badges]

end State

end Dnsp2p.Dht
