import Dnsp2p.Fault
import Dnsp2p.Dht.Storage
import Dnsp2p.Library.Keyed
import Dnsp2p.Library.Run

/-!
# Announced peers over whole runs

`storage_store` puts an announced address into the record of its info hash and
`expire_storage` takes the old ones out.  Both are followed through every run
from an empty list, whatever the allocator answers: the records keep their
bounds and hold exactly the announcements that a ledger of the calls holds.
-/

namespace Dnsp2p.Dht

/-- `DHT_MAX_PEERS`. -/
def dhtMaxPeers : Nat := 2048

/-- `DHT_MAX_HASHES`. -/
def dhtMaxHashes : Nat := 16384

/-- `struct storage` with the size of its array of peers. -/
structure StorageRecord extends Storage where
  maxpeers : Nat

/-- `storage` and `numstorage`. -/
structure StorageList where
  storage : List StorageRecord
  numstorage : Int

/-- `dht_init`: no record. -/
def StorageList.init : StorageList where
  storage := []
  numstorage := 0

/-- What one call gets from the allocator: whether `calloc` and `realloc` succeed,
and what the place of the next peer held. -/
structure Allocation where
  calloc : Bool
  realloc : Bool
  place : Field 16

/-- `ip` of `storage_store`, `len` bytes. -/
def Sockaddr.ip : Sockaddr → Bytes
  | inet sin => sin.addr.bytes
  | inet6 sin6 => sin6.addr.bytes

/-- `ntohs`. -/
def ntohs (port : Field 2) : UInt16 :=
  UInt16.ofNat (value port.bytes)

/-- `port` of `storage_store`. -/
def Sockaddr.hostPort : Sockaddr → UInt16
  | inet sin => ntohs sin.port
  | inet6 sin6 => ntohs sin6.port

theorem Sockaddr.ip_length_le (sa : Sockaddr) : sa.ip.length ≤ 16 := by
  cases sa with
  | inet sin => simp [ip, sin.addr.length_eq]
  | inet6 sin6 => simp [ip, sin6.addr.length_eq]

/-- The new peer: `memcpy` leaves the rest of `ip` as it was. -/
def newPeer (now : Int) (sa : Sockaddr) (place : Field 16) : Peer where
  time := now
  ip := ⟨sa.ip ++ place.bytes.drop sa.ip.length, by
    have fits := sa.ip_length_le
    simp [place.length_eq, fits]⟩
  len := sa.ip.length
  port := sa.hostPort

/-- The comparison of `storage_store`. -/
def Peer.isAt (sa : Sockaddr) (peer : Peer) : Bool :=
  peer.port = sa.hostPort && peer.len = sa.ip.length &&
    peer.ip.bytes.take sa.ip.length = sa.ip

/-- The second half of `storage_store`, for the record of the hash. -/
def storePeer (now : Int) (memory : Allocation) (sa : Sockaddr) (st : StorageRecord) :
    Except Fault (Int × StorageRecord) :=
  let i := st.peers.findIdx (Peer.isAt sa)
  match st.peers[i]? with
  | some peer => .ok (0, { st with peers := st.peers.set i { peer with time := now } })
  | none =>
      if i < st.maxpeers then
        .ok (1, { st with peers := st.peers ++ [newPeer now sa memory.place] })
      else if dhtMaxPeers ≤ st.maxpeers then
        .ok (0, st)
      else if memory.realloc = false then
        .ok (-1, st)
      else
        let n := min (if st.maxpeers = 0 then 2 else 2 * st.maxpeers) dhtMaxPeers
        if i < n then
          .ok (1, { st with peers := st.peers ++ [newPeer now sa memory.place], maxpeers := n })
        else
          .error .outOfBounds

/-- `storage_store`; an address of another family is excluded by its type. -/
def storageStore (now : Int) (memory : Allocation) (id : Field 20) (sa : Sockaddr)
    (list : StorageList) : Except Fault (Int × StorageList) :=
  -- `find_storage`
  let place := list.storage.findIdx fun st => st.id = id
  match list.storage[place]? with
  | some st => do
      let stored ← storePeer now memory sa st
      .ok (stored.1, { list with storage := list.storage.set place stored.2 })
  | none =>
      if (dhtMaxHashes : Int) ≤ list.numstorage then .ok (-1, list)
      else if memory.calloc = false then .ok (-1, list)
      else do
        let stored ← storePeer now memory sa { id, peers := [], maxpeers := 0 }
        .ok (stored.1,
          { storage := stored.2 :: list.storage, numstorage := list.numstorage + 1 })

/-- The loop of `expire_storage` from one record on, and `numstorage`. -/
def expireRecords (now : Int) : List StorageRecord → Int → List StorageRecord × Int
  | [], numstorage => ([], numstorage)
  | st :: rest, numstorage =>
      let peers := expirePeers now st.peers.length 0 st.peers
      if peers = [] then
        expireRecords now rest (if numstorage - 1 < 0 then 0 else numstorage - 1)
      else
        let later := expireRecords now rest numstorage
        ({ st with peers } :: later.1, later.2)

/-- `expire_storage`, with the count of the records. -/
def StorageList.expire (now : Int) (list : StorageList) : StorageList where
  storage := (expireRecords now list.storage list.numstorage).1
  numstorage := (expireRecords now list.storage list.numstorage).2

/-- The records without their rooms expire as the list of the program's state does. -/
theorem expire_storage (now : Int) (list : StorageList) :
    (list.expire now).storage.map StorageRecord.toStorage =
      expireStorage now (list.storage.map StorageRecord.toStorage) := by
  rcases list with ⟨storage, numstorage⟩
  induction storage generalizing numstorage with
  | nil => rfl
  | cons st rest ih =>
      simp only [StorageList.expire, expireStorage, expireRecords, List.map_cons] at ih ⊢
      by_cases empty : expirePeers now st.peers.length 0 st.peers = []
      · rw [if_pos empty, ih]
        simp [empty]
      · rw [if_neg empty, List.map_cons, ih]
        simp [empty]

/-! ## One record -/

/-- An address and a port as they are announced. -/
abbrev Announcement := Bytes × UInt16

/-- What of an address is announced. -/
def Sockaddr.announcement (sa : Sockaddr) : Announcement :=
  (sa.ip, sa.hostPort)

/-- What of a peer was announced. -/
def Peer.announcement (peer : Peer) : Announcement :=
  (peer.ip.bytes.take peer.len, peer.port)

/-- The peers are distinct and fit into their array, which is absent or has been
doubled up to the greatest size. -/
structure StorageRecord.Sound (st : StorageRecord) : Prop where
  keyed : Keyed Peer.announcement st.peers
  widths : ∀ peer ∈ st.peers, peer.len = 4 ∨ peer.len = 16
  room : st.peers.length ≤ st.maxpeers
  doubled : st.maxpeers = 0 ∨ ∃ k, 1 ≤ k ∧ k ≤ 11 ∧ st.maxpeers = 2 ^ k

/-- The record holds this announcement of this time. -/
def StorageRecord.Lists (st : StorageRecord) (announcement : Announcement) (time : Int) : Prop :=
  ∃ peer ∈ st.peers, peer.announcement = announcement ∧ peer.time = time

theorem newPeer_announcement (now : Int) (sa : Sockaddr) (place : Field 16) :
    (newPeer now sa place).announcement = sa.announcement := by
  simp [newPeer, Peer.announcement, Sockaddr.announcement]

theorem Sockaddr.ip_length (sa : Sockaddr) : sa.ip.length = 4 ∨ sa.ip.length = 16 := by
  cases sa with
  | inet sin => exact .inl sin.addr.length_eq
  | inet6 sin6 => exact .inr sin6.addr.length_eq

/-- The comparison finds the announced address. -/
theorem Peer.isAt_iff {sa : Sockaddr} {peer : Peer} (width : peer.len = 4 ∨ peer.len = 16) :
    peer.isAt sa = true ↔ peer.announcement = sa.announcement := by
  have taken : (peer.ip.bytes.take peer.len).length = peer.len := by
    rw [List.length_take, peer.ip.length_eq]
    omega
  simp only [isAt, Bool.and_eq_true, decide_eq_true_eq, announcement, Sockaddr.announcement,
    Prod.mk.injEq]
  constructor
  · rintro ⟨⟨port, len⟩, bytes⟩
    exact ⟨len ▸ bytes, port⟩
  · rintro ⟨bytes, port⟩
    have len : peer.len = sa.ip.length := by rw [← bytes, taken]
    exact ⟨⟨port, len⟩, len ▸ bytes⟩

/-- The announcements of a record after one of them was made now. -/
def StorageRecord.Refreshed (now : Int) (sa : Sockaddr) (st st' : StorageRecord) : Prop :=
  ∀ announcement time, st'.Lists announcement time ↔
    if announcement = sa.announcement then time = now else st.Lists announcement time

/-- A peer that is known is refreshed. -/
theorem StorageRecord.Sound.refresh {st : StorageRecord} (sound : st.Sound) (now : Int)
    {sa : Sockaddr} {i : Nat} {peer : Peer} (here : st.peers[i]? = some peer)
    (known : peer.announcement = sa.announcement) :
    let st' := { st with peers := st.peers.set i { peer with time := now } }
    st'.Sound ∧ st.Refreshed now sa st' := by
  have same : Peer.announcement { peer with time := now } = peer.announcement := rfl
  have member : peer ∈ st.peers := List.mem_of_getElem? here
  have held : ∀ item, item ∈ st.peers.set i { peer with time := now } ↔
      item = { peer with time := now } ∨
        item ∈ st.peers ∧ item.announcement ≠ sa.announcement := by
    intro item
    rw [sound.keyed.mem_set here, known]
  constructor
  · constructor
    · exact sound.keyed.set here same
    · intro item listed
      rcases (held item).mp listed with rfl | ⟨before, _⟩
      · exact sound.widths peer member
      · exact sound.widths item before
    · simpa using sound.room
    · exact sound.doubled
  · intro announcement time
    constructor
    · rintro ⟨item, listed, rfl, rfl⟩
      rcases (held item).mp listed with rfl | ⟨before, differ⟩
      · rw [if_pos (same.trans known)]
      · rw [if_neg differ]
        exact ⟨item, before, rfl, rfl⟩
    · intro holds
      split at holds
      · next this =>
        exact ⟨{ peer with time := now }, (held _).mpr (.inl rfl), known.trans this.symm,
          holds.symm⟩
      · next other =>
        rcases holds with ⟨item, before, rfl, rfl⟩
        exact ⟨item, (held item).mpr (.inr ⟨before, other⟩), rfl, rfl⟩

/-- A peer that is not known is added. -/
theorem StorageRecord.Sound.add {st : StorageRecord} (sound : st.Sound) (now : Int)
    {sa : Sockaddr} (place : Field 16) {maxpeers : Nat}
    (unknown : ∀ peer ∈ st.peers, peer.announcement ≠ sa.announcement)
    (room : st.peers.length < maxpeers) (doubled : ∃ k, 1 ≤ k ∧ k ≤ 11 ∧ maxpeers = 2 ^ k) :
    let st' := { st with peers := st.peers ++ [newPeer now sa place], maxpeers }
    st'.Sound ∧ st.Refreshed now sa st' := by
  have announced := newPeer_announcement now sa place
  constructor
  · constructor
    · apply sound.keyed.append
      intro peer member
      rw [announced]
      exact unknown peer member
    · intro peer member
      rcases List.mem_append.mp member with before | new
      · exact sound.widths peer before
      · rw [List.mem_singleton.mp new]
        exact sa.ip_length
    · rw [List.length_append]
      exact room
    · exact .inr doubled
  · intro announcement time
    constructor
    · rintro ⟨peer, listed, rfl, rfl⟩
      rcases List.mem_append.mp listed with before | new
      · rw [if_neg (unknown peer before)]
        exact ⟨peer, before, rfl, rfl⟩
      · rw [List.mem_singleton.mp new, if_pos announced]
        rfl
    · intro holds
      split at holds
      · next this =>
        exact ⟨newPeer now sa place, by simp, announced.trans this.symm, holds.symm⟩
      · rcases holds with ⟨peer, before, rfl, rfl⟩
        exact ⟨peer, List.mem_append_left _ before, rfl, rfl⟩

/-- What `storage_store` does to the record of the hash: a known address is
refreshed, another one is added unless the record is full or cannot grow. -/
structure StorageRecord.Stored (now : Int) (memory : Allocation) (sa : Sockaddr)
    (st : StorageRecord) (rc : Int) (st' : StorageRecord) : Prop where
  sound : st'.Sound
  id : st'.id = st.id
  outcome :
    (rc = 0 ∧ (∃ time, st.Lists sa.announcement time) ∧ st.Refreshed now sa st') ∨
    ((∀ time, ¬st.Lists sa.announcement time) ∧
      (rc = 1 ∧ st.Refreshed now sa st' ∨
        rc = 0 ∧ st' = st ∧ st.peers.length = dhtMaxPeers ∨
        rc = -1 ∧ st' = st ∧ memory.realloc = false))

/-- The array doubles up to its greatest size. -/
theorem doubled_next {maxpeers : Nat}
    (doubled : maxpeers = 0 ∨ ∃ k, 1 ≤ k ∧ k ≤ 11 ∧ maxpeers = 2 ^ k)
    (small : maxpeers < dhtMaxPeers) :
    ∃ k, 1 ≤ k ∧ k ≤ 11 ∧
      min (if maxpeers = 0 then 2 else 2 * maxpeers) dhtMaxPeers = 2 ^ k := by
  rcases doubled with empty | ⟨k, least, most, rfl⟩
  · exact ⟨1, by omega, by omega, by rw [empty]; rfl⟩
  · have below : k < 11 := by
      apply (Nat.pow_lt_pow_iff_right (a := 2) (by omega)).mp
      exact small
    refine ⟨k + 1, by omega, by omega, ?_⟩
    have bound : 2 * 2 ^ k ≤ dhtMaxPeers := by
      rw [← Nat.pow_succ']
      exact Nat.pow_le_pow_right (by omega) below
    rw [if_neg (by positivity), min_eq_left bound, Nat.pow_succ']

theorem storePeer_stored {st : StorageRecord} (sound : st.Sound) (now : Int)
    (memory : Allocation) (sa : Sockaddr) :
    ∃ rc st', storePeer now memory sa st = .ok (rc, st') ∧ st.Stored now memory sa rc st' := by
  have finds : ∀ peer ∈ st.peers, Peer.isAt sa peer = true ↔ peer.announcement = sa.announcement :=
    fun peer member => Peer.isAt_iff (sound.widths peer member)
  cases place : st.peers[st.peers.findIdx (Peer.isAt sa)]? with
  | some peer =>
      have found := key_of_findIdx_some finds place
      rcases sound.refresh now place found.2 with ⟨sound', refreshed⟩
      refine ⟨0, _, ?_, sound', rfl,
        .inl ⟨rfl, ⟨peer.time, peer, found.1, found.2, rfl⟩, refreshed⟩⟩
      simp only [storePeer, place]
  | none =>
      have unknown := key_of_findIdx_none finds place
      have absent : ∀ time, ¬st.Lists sa.announcement time := by
        rintro time ⟨peer, member, same, _⟩
        exact unknown peer member same
      have ended : st.peers.findIdx (Peer.isAt sa) = st.peers.length :=
        le_antisymm List.findIdx_le_length (List.getElem?_eq_none_iff.mp place)
      rw [ended] at place
      by_cases room : st.peers.length < st.maxpeers
      · have doubled : ∃ k, 1 ≤ k ∧ k ≤ 11 ∧ st.maxpeers = 2 ^ k :=
          sound.doubled.resolve_left (by omega)
        rcases sound.add now memory.place unknown room doubled with ⟨sound', refreshed⟩
        refine ⟨1, _, ?_, sound', rfl, .inr ⟨absent, .inl ⟨rfl, refreshed⟩⟩⟩
        simp only [storePeer, ended, place, if_pos room]
      · by_cases full : dhtMaxPeers ≤ st.maxpeers
        · have length : st.peers.length = dhtMaxPeers := by
            have most : st.maxpeers ≤ dhtMaxPeers := by
              rcases sound.doubled with empty | ⟨k, _, most, same⟩
              · omega
              · rw [same]
                exact Nat.pow_le_pow_right (by omega) most
            have fits := sound.room
            omega
          refine ⟨0, st, ?_, sound, rfl, .inr ⟨absent, .inr (.inl ⟨rfl, rfl, length⟩)⟩⟩
          simp only [storePeer, ended, place, if_neg room, if_pos full]
        · by_cases refused : memory.realloc = false
          · refine ⟨-1, st, ?_, sound, rfl, .inr ⟨absent, .inr (.inr ⟨rfl, rfl, refused⟩)⟩⟩
            simp only [storePeer, ended, place, if_neg room, if_neg full, if_pos refused]
          · have doubled := doubled_next sound.doubled (not_le.mp full)
            have grown : st.peers.length <
                min (if st.maxpeers = 0 then 2 else 2 * st.maxpeers) dhtMaxPeers := by
              have fits := sound.room
              apply lt_min
              · split <;> omega
              · omega
            rcases sound.add now memory.place unknown grown doubled with ⟨sound', refreshed⟩
            refine ⟨1, _, ?_, sound', rfl, .inr ⟨absent, .inl ⟨rfl, refreshed⟩⟩⟩
            simp only [storePeer, ended, place, if_neg room, if_neg full, if_neg refused,
              if_pos grown]

/-! ## Expiry of one record -/

/-- A peer that `expire_storage` keeps. -/
def Peer.isFresh (now : Int) (peer : Peer) : Bool :=
  now - 32 * 60 ≤ peer.time

/-- Behind the place that was reached, exactly the fresh peers are left. -/
theorem expirePeers_perm (now : Int) (fuel : Nat) (front rest : List Peer)
    (enough : rest.length ≤ fuel) :
    ∃ kept, expirePeers now fuel front.length (front ++ rest) = front ++ kept ∧
      kept.Perm (rest.filter (Peer.isFresh now)) := by
  induction fuel generalizing front rest with
  | zero =>
      have empty : rest = [] := List.eq_nil_of_length_eq_zero (by omega)
      exact ⟨[], by rw [empty, expirePeers], by rw [empty]; exact List.Perm.refl _⟩
  | succ fuel ih =>
      cases rest with
      | nil => exact ⟨[], by simp [expirePeers], List.Perm.refl _⟩
      | cons peer rest =>
          rw [List.length_cons] at enough
          have here : (front ++ peer :: rest)[front.length]? = some peer := by simp
          by_cases old : peer.time < now - 32 * 60
          · have gone : peer.isFresh now = false := decide_eq_false (not_le.mpr old)
            rw [List.filter_cons_of_neg (by simp [gone])]
            rcases List.eq_nil_or_concat rest with rfl | ⟨between, last, rfl⟩
            · refine ⟨[], ?_, List.Perm.refl _⟩
              rcases ih front [] (by simp) with ⟨kept, ran, perm⟩
              have empty : kept = [] := List.perm_nil.mp perm
              rw [expirePeers, here]
              simp only [if_pos old, List.getLast?_append, List.getLast?_singleton]
              simpa [empty] using ran
            · rw [List.concat_eq_append] at enough here ⊢
              rcases ih front (last :: between) (by simpa using enough) with ⟨kept, ran, perm⟩
              refine ⟨kept, ?_, ?_⟩
              · have ends : (front ++ peer :: (between ++ [last])).getLast? = some last := by
                  simp [List.getLast?_append, List.getLast?_cons]
                rw [expirePeers, here]
                simp only [if_pos old, ends]
                rw [overwrite_last, ran]
              · exact perm.trans ((List.perm_append_singleton last between).symm.filter _)
          · have fresh : peer.isFresh now = true := decide_eq_true (not_lt.mp old)
            rcases ih (front ++ [peer]) rest (by omega) with ⟨kept, ran, perm⟩
            refine ⟨peer :: kept, ?_, ?_⟩
            · rw [expirePeers, here]
              simp only [if_neg old]
              simpa using ran
            · rw [List.filter_cons_of_pos fresh]
              exact perm.cons peer

/-- The record with what is left of it. -/
def StorageRecord.expired (now : Int) (st : StorageRecord) : StorageRecord :=
  { st with peers := expirePeers now st.peers.length 0 st.peers }

theorem StorageRecord.expired_perm (now : Int) (st : StorageRecord) :
    (st.expired now).peers.Perm (st.peers.filter (Peer.isFresh now)) := by
  rcases expirePeers_perm now st.peers.length [] st.peers le_rfl with ⟨kept, ran, perm⟩
  have same : (st.expired now).peers = kept := ran
  rw [same]
  exact perm

theorem StorageRecord.Sound.expired {st : StorageRecord} (sound : st.Sound) (now : Int) :
    (st.expired now).Sound := by
  have perm := st.expired_perm now
  constructor
  · exact (sound.keyed.sublist List.filter_sublist).perm perm.symm
  · intro peer member
    exact sound.widths peer (List.mem_of_mem_filter (perm.mem_iff.mp member))
  · rw [perm.length_eq]
    exact (List.length_filter_le _ _).trans sound.room
  · exact sound.doubled

theorem StorageRecord.expired_lists {st : StorageRecord} {now : Int} {announcement : Announcement}
    {time : Int} :
    (st.expired now).Lists announcement time ↔
      st.Lists announcement time ∧ now - 32 * 60 ≤ time := by
  have perm := st.expired_perm now
  constructor
  · rintro ⟨peer, member, rfl, rfl⟩
    rcases List.mem_filter.mp (perm.mem_iff.mp member) with ⟨before, fresh⟩
    exact ⟨⟨peer, before, rfl, rfl⟩, of_decide_eq_true fresh⟩
  · rintro ⟨⟨peer, before, rfl, rfl⟩, fresh⟩
    exact ⟨peer, perm.mem_iff.mpr (List.mem_filter.mpr ⟨before, decide_eq_true fresh⟩), rfl, rfl⟩

/-! ## All records -/

/-- The records are distinct, sound and counted, and not too many. -/
structure StorageList.Sound (list : StorageList) : Prop where
  keyed : Keyed (fun st : StorageRecord => st.id) list.storage
  records : ∀ st ∈ list.storage, st.Sound
  counted : list.numstorage = list.storage.length
  bounded : list.storage.length ≤ dhtMaxHashes

/-- Some record of the hash holds this announcement of this time. -/
def StorageList.Lists (list : StorageList) (id : Field 20) (announcement : Announcement)
    (time : Int) : Prop :=
  ∃ st ∈ list.storage, st.id = id ∧ st.Lists announcement time

/-- The announcements after one of them was made now. -/
def StorageList.Refreshed (now : Int) (id : Field 20) (sa : Sockaddr)
    (list list' : StorageList) : Prop :=
  ∀ id' announcement time, list'.Lists id' announcement time ↔
    if id' = id ∧ announcement = sa.announcement then time = now
    else list.Lists id' announcement time

/-- The announcements are as before. -/
def StorageList.Same (list list' : StorageList) : Prop :=
  ∀ id announcement time, list'.Lists id announcement time ↔ list.Lists id announcement time

/-- The hash has no record, and none can be made. -/
def StorageList.NoRecord (memory : Allocation) (id : Field 20) (list : StorageList) : Prop :=
  (∀ st ∈ list.storage, st.id ≠ id) ∧
    (memory.calloc = false ∨ list.storage.length = dhtMaxHashes)

/-- What `storage_store` does to the records and returns. -/
structure StorageList.Stored (now : Int) (memory : Allocation) (id : Field 20) (sa : Sockaddr)
    (list : StorageList) (rc : Int) (list' : StorageList) : Prop where
  sound : list'.Sound
  outcome :
    (rc = 0 ∧ (∃ time, list.Lists id sa.announcement time) ∧ list.Refreshed now id sa list') ∨
    ((∀ time, ¬list.Lists id sa.announcement time) ∧
      (rc = 1 ∧ list.Refreshed now id sa list' ∨
        rc = 0 ∧ list.Same list' ∧
          (∃ st ∈ list.storage, st.id = id ∧ st.peers.length = dhtMaxPeers) ∨
        rc = -1 ∧ list.Same list' ∧ (memory.realloc = false ∨ list.NoRecord memory id)))

/-- What a list holds of a hash is what the record of the hash holds. -/
theorem StorageList.Sound.own {list : StorageList} (sound : list.Sound) {st : StorageRecord}
    (member : st ∈ list.storage) {announcement : Announcement} {time : Int} :
    list.Lists st.id announcement time ↔ st.Lists announcement time := by
  constructor
  · rintro ⟨other, listed, same, holds⟩
    rwa [← sound.keyed.eq_of_key listed member same]
  · exact fun holds => ⟨st, member, rfl, holds⟩

/-- One record holds what the list holds of a hash, and after the change another one. -/
structure StorageList.Carries (id : Field 20) (list list' : StorageList)
    (st st' : StorageRecord) : Prop where
  own : ∀ announcement time, list.Lists id announcement time ↔ st.Lists announcement time
  changed : ∀ id' announcement time, list'.Lists id' announcement time ↔
    if id' = id then st'.Lists announcement time else list.Lists id' announcement time

section Carries

variable {id : Field 20} {list list' : StorageList} {st st' : StorageRecord}
variable (carries : list.Carries id list' st st')
include carries

theorem StorageList.Carries.refreshed {now : Int} {sa : Sockaddr}
    (refreshed : st.Refreshed now sa st') : list.Refreshed now id sa list' := by
  intro id' announcement time
  rw [carries.changed]
  by_cases same : id' = id
  · rw [if_pos same, refreshed]
    by_cases this : announcement = sa.announcement
    · rw [if_pos this, if_pos ⟨same, this⟩]
    · rw [if_neg this, if_neg (fun both => this both.2), same, carries.own]
  · rw [if_neg same, if_neg (fun both => same both.1)]

theorem StorageList.Carries.same (unchanged : st' = st) : list.Same list' := by
  intro id' announcement time
  rw [carries.changed]
  split
  · next same => rw [unchanged, same, carries.own]
  · rfl

end Carries

/-- The record of a hash is replaced. -/
theorem StorageList.Sound.replace {list : StorageList} (sound : list.Sound) {place : Nat}
    {st st' : StorageRecord} (here : list.storage[place]? = some st) (sound' : st'.Sound)
    (same : st'.id = st.id) :
    let list' := { list with storage := list.storage.set place st' }
    list'.Sound ∧ list.Carries st.id list' st st' := by
  have member : st ∈ list.storage := List.mem_of_getElem? here
  have held : ∀ item, item ∈ list.storage.set place st' ↔
      item = st' ∨ item ∈ list.storage ∧ item.id ≠ st.id :=
    fun item => sound.keyed.mem_set here
  constructor
  · constructor
    · exact sound.keyed.set here same
    · intro item listed
      rcases (held item).mp listed with rfl | ⟨before, _⟩
      · exact sound'
      · exact sound.records item before
    · simpa using sound.counted
    · simpa using sound.bounded
  · constructor
    · exact fun announcement time => sound.own member
    · intro id' announcement time
      constructor
      · rintro ⟨item, listed, rfl, holds⟩
        rcases (held item).mp listed with rfl | ⟨before, differ⟩
        · rwa [if_pos same]
        · rw [if_neg differ]
          exact ⟨item, before, rfl, holds⟩
      · intro holds
        split at holds
        · next this => exact ⟨st', (held st').mpr (.inl rfl), same.trans this.symm, holds⟩
        · next other =>
          rcases holds with ⟨item, before, rfl, holds⟩
          exact ⟨item, (held item).mpr (.inr ⟨before, other⟩), rfl, holds⟩

/-- A record for a new hash is put before the others. -/
theorem StorageList.Sound.push {list : StorageList} (sound : list.Sound) {id : Field 20}
    (absent : ∀ st ∈ list.storage, st.id ≠ id) (room : list.storage.length < dhtMaxHashes)
    {st' : StorageRecord} (sound' : st'.Sound) (same : st'.id = id) :
    let list' : StorageList :=
      { storage := st' :: list.storage, numstorage := list.numstorage + 1 }
    list'.Sound ∧ list.Carries id list' { id, peers := [], maxpeers := 0 } st' := by
  constructor
  · constructor
    · apply sound.keyed.cons
      intro st member
      rw [same]
      exact absent st member
    · exact List.forall_mem_cons.mpr ⟨sound', sound.records⟩
    · rw [List.length_cons, sound.counted]
      push_cast
      rfl
    · exact room
  · constructor
    · intro announcement time
      constructor
      · rintro ⟨st, member, this, _⟩
        exact absurd this (absent st member)
      · rintro ⟨peer, member, _⟩
        cases member
    · intro id' announcement time
      constructor
      · rintro ⟨st, listed, rfl, holds⟩
        rcases List.mem_cons.mp listed with rfl | before
        · rwa [if_pos same]
        · rw [if_neg (absent st before)]
          exact ⟨st, before, rfl, holds⟩
      · intro holds
        split at holds
        · next this => exact ⟨st', List.mem_cons_self, same.trans this.symm, holds⟩
        · rcases holds with ⟨st, before, rfl, holds⟩
          exact ⟨st, List.mem_cons_of_mem _ before, rfl, holds⟩

theorem StorageRecord.sound_empty (id : Field 20) :
    StorageRecord.Sound { id, peers := [], maxpeers := 0 } where
  keyed := .nil
  widths := by simp
  room := le_rfl
  doubled := .inl rfl

theorem storageStore_stored {list : StorageList} (sound : list.Sound) (now : Int)
    (memory : Allocation) (id : Field 20) (sa : Sockaddr) :
    ∃ rc list', storageStore now memory id sa list = .ok (rc, list') ∧
      list.Stored now memory id sa rc list' := by
  have finds : ∀ st ∈ list.storage, decide (st.id = id) = true ↔ st.id = id :=
    fun st _ => decide_eq_true_iff
  cases place : list.storage[list.storage.findIdx fun st => decide (st.id = id)]? with
  | some st =>
      rcases key_of_findIdx_some finds place with ⟨member, rfl⟩
      rcases storePeer_stored (sound.records st member) now memory sa with ⟨rc, st', ran, stored⟩
      rcases sound.replace place stored.sound stored.id with ⟨sound', carries⟩
      refine ⟨rc, _, ?_, sound', ?_⟩
      · simp only [storageStore, place, ran, ok_bind]
      · rcases stored.outcome with
          ⟨code, ⟨time, known⟩, refreshed⟩ | ⟨unknown, ⟨code, refreshed⟩ |
            ⟨code, same, full⟩ | ⟨code, same, refused⟩⟩
        · exact .inl ⟨code, ⟨time, (carries.own _ _).mpr known⟩, carries.refreshed refreshed⟩
        · exact .inr ⟨fun time holds => unknown time ((carries.own _ _).mp holds),
            .inl ⟨code, carries.refreshed refreshed⟩⟩
        · exact .inr ⟨fun time holds => unknown time ((carries.own _ _).mp holds),
            .inr (.inl ⟨code, carries.same same, st, member, rfl, full⟩)⟩
        · exact .inr ⟨fun time holds => unknown time ((carries.own _ _).mp holds),
            .inr (.inr ⟨code, carries.same same, .inl refused⟩)⟩
  | none =>
      have absent := key_of_findIdx_none finds place
      have unknown : ∀ time, ¬list.Lists id sa.announcement time := by
        rintro time ⟨st, member, same, _⟩
        exact absent st member same
      have unchanged : list.Same list := fun _ _ _ => Iff.rfl
      by_cases full : (dhtMaxHashes : Int) ≤ list.numstorage
      · have length : list.storage.length = dhtMaxHashes := by
          have bounded := sound.bounded
          rw [sound.counted] at full
          omega
        refine ⟨-1, list, ?_, sound,
          .inr ⟨unknown, .inr (.inr ⟨rfl, unchanged, .inr ⟨absent, .inr length⟩⟩)⟩⟩
        simp only [storageStore, place, if_pos full]
      · by_cases refused : memory.calloc = false
        · refine ⟨-1, list, ?_, sound,
            .inr ⟨unknown, .inr (.inr ⟨rfl, unchanged, .inr ⟨absent, .inl refused⟩⟩)⟩⟩
          simp only [storageStore, place, if_neg full, if_pos refused]
        · have room : list.storage.length < dhtMaxHashes := by
            rw [sound.counted] at full
            omega
          rcases storePeer_stored (StorageRecord.sound_empty id) now memory sa with
            ⟨rc, st', ran, stored⟩
          rcases sound.push absent room stored.sound stored.id with ⟨sound', carries⟩
          refine ⟨rc, _, ?_, sound', ?_⟩
          · simp only [storageStore, place, if_neg full, if_neg refused, ran, ok_bind]
          · rcases stored.outcome with
              ⟨_, ⟨time, known⟩, _⟩ | ⟨_, ⟨code, refreshed⟩ | ⟨_, _, length⟩ |
                ⟨code, same, failed⟩⟩
            · exact absurd ((carries.own _ _).mpr known) (unknown time)
            · exact .inr ⟨unknown, .inl ⟨code, carries.refreshed refreshed⟩⟩
            · cases length
            · exact .inr ⟨unknown, .inr (.inr ⟨code, carries.same same, .inl failed⟩)⟩

/-! ## Expiry of all records -/

theorem expireRecords_fst (now : Int) (storage : List StorageRecord) (numstorage : Int) :
    (expireRecords now storage numstorage).1 =
      (storage.map (StorageRecord.expired now)).filter fun st => st.peers ≠ [] := by
  induction storage generalizing numstorage with
  | nil => rfl
  | cons st rest ih =>
      rw [expireRecords, List.map_cons]
      by_cases empty : expirePeers now st.peers.length 0 st.peers = []
      · rw [if_pos empty, ih, List.filter_cons_of_neg]
        simp [StorageRecord.expired, empty]
      · rw [if_neg empty, List.filter_cons_of_pos]
        · rw [← ih numstorage]
          rfl
        · simp [StorageRecord.expired, empty]

/-- The count goes down with each record that is taken out. -/
theorem expireRecords_snd (now : Int) (storage : List StorageRecord) {numstorage : Int}
    (counted : (storage.length : Int) ≤ numstorage) :
    (expireRecords now storage numstorage).2 - (expireRecords now storage numstorage).1.length =
      numstorage - storage.length := by
  induction storage generalizing numstorage with
  | nil => rfl
  | cons st rest ih =>
      rw [List.length_cons] at counted ⊢
      rw [expireRecords]
      by_cases empty : expirePeers now st.peers.length 0 st.peers = []
      · rw [if_pos empty, if_neg (by omega), ih (by omega)]
        omega
      · have later : (expireRecords now rest numstorage).2 -
            (expireRecords now rest numstorage).1.length = numstorage - rest.length :=
          ih (by omega)
        rw [if_neg empty]
        dsimp only
        rw [List.length_cons]
        omega

/-- `expire_storage` keeps exactly the announcements of the last 32 minutes, and no
record without one. -/
theorem StorageList.Sound.expire {list : StorageList} (sound : list.Sound) (now : Int) :
    (list.expire now).Sound ∧
      (∀ id announcement time, (list.expire now).Lists id announcement time ↔
        list.Lists id announcement time ∧ now - 32 * 60 ≤ time) ∧
      ∀ st ∈ (list.expire now).storage, st.peers ≠ [] := by
  have kept : (list.expire now).storage =
      (list.storage.map (StorageRecord.expired now)).filter fun st => st.peers ≠ [] :=
    expireRecords_fst now list.storage list.numstorage
  have held : ∀ st', st' ∈ (list.expire now).storage ↔
      (∃ st ∈ list.storage, st.expired now = st') ∧ st'.peers ≠ [] := by
    intro st'
    rw [kept, List.mem_filter, List.mem_map]
    simp
  refine ⟨⟨?_, ?_, ?_, ?_⟩, ?_, fun st' member => ((held st').mp member).2⟩
  · have ids : (list.storage.map (StorageRecord.expired now)).map (fun st => st.id) =
        list.storage.map fun st => st.id := by
      rw [List.map_map]
      rfl
    have keyed : Keyed (fun st : StorageRecord => st.id)
        (list.storage.map (StorageRecord.expired now)) := by
      rw [Keyed, ids]
      exact sound.keyed
    rw [kept]
    exact keyed.sublist List.filter_sublist
  · intro st' member
    rcases (held st').mp member with ⟨⟨st, before, rfl⟩, _⟩
    exact (sound.records st before).expired now
  · have counted := expireRecords_snd now list.storage (le_of_eq sound.counted.symm)
    have total := sound.counted
    simp only [StorageList.expire]
    omega
  · rw [kept]
    apply (List.length_filter_le _ _).trans
    rw [List.length_map]
    exact sound.bounded
  · intro id announcement time
    constructor
    · rintro ⟨st', member, rfl, holds⟩
      rcases (held st').mp member with ⟨⟨st, before, rfl⟩, _⟩
      rcases StorageRecord.expired_lists.mp holds with ⟨lists, fresh⟩
      exact ⟨⟨st, before, rfl, lists⟩, fresh⟩
    · rintro ⟨⟨st, before, rfl, lists⟩, fresh⟩
      have holds := StorageRecord.expired_lists.mpr ⟨lists, fresh⟩
      refine ⟨st.expired now, (held _).mpr ⟨⟨st, before, rfl⟩, ?_⟩, rfl, holds⟩
      rcases holds with ⟨peer, member, _⟩
      exact List.ne_nil_of_mem member

/-! ## Runs -/

/-- The calls on the records. -/
inductive StorageCall where
  | store (now : Int) (memory : Allocation) (id : Field 20) (sa : Sockaddr)
  | expire (now : Int)

/-- When each hash was last announced for an address. -/
abbrev AnnouncementLedger := Field 20 → Announcement → Option Int

/-- An announcement that is known already or that the program says it stored is
entered under its time, and old ones are struck out. -/
def AnnouncementLedger.enter (ledger : AnnouncementLedger) : StorageCall → Int → AnnouncementLedger
  | .store now _ id sa, rc => fun id' announcement =>
      if id' = id ∧ announcement = sa.announcement ∧
          (rc = 1 ∨ (ledger id sa.announcement).isSome) then some now
      else ledger id' announcement
  | .expire now, _ => fun id announcement =>
      (ledger id announcement).filter fun time => now - 32 * 60 ≤ time

/-- One call on the records, with a ledger of what it returned. -/
def StorageCall.step (state : StorageList × AnnouncementLedger) (call : StorageCall) :
    Except Fault (StorageList × AnnouncementLedger) :=
  match call with
  | .store now memory id sa => do
      let result ← storageStore now memory id sa state.1
      .ok (result.2, state.2.enter call result.1)
  | .expire now => .ok (state.1.expire now, state.2.enter call 1)

/-- The records are sound and hold exactly what the ledger holds. -/
structure AgreesWith (list : StorageList) (ledger : AnnouncementLedger) : Prop where
  sound : list.Sound
  agrees : ∀ id announcement time, list.Lists id announcement time ↔
    ledger id announcement = some time

/-- A call returns and keeps the agreement. -/
theorem AgreesWith.step {list : StorageList} {ledger : AnnouncementLedger}
    (agrees : AgreesWith list ledger) (call : StorageCall) :
    ∃ next, StorageCall.step (list, ledger) call = .ok next ∧ AgreesWith next.1 next.2 := by
  cases call with
  | store now memory id sa =>
      rcases storageStore_stored agrees.sound now memory id sa with ⟨rc, list', ran, stored⟩
      refine ⟨(list', ledger.enter (.store now memory id sa) rc), ?_, stored.sound, ?_⟩
      · simp only [StorageCall.step, ran, ok_bind]
      · have entered (refreshed : list.Refreshed now id sa list')
            (accepted : rc = 1 ∨ (ledger id sa.announcement).isSome) :
            ∀ id' announcement time, list'.Lists id' announcement time ↔
              ledger.enter (.store now memory id sa) rc id' announcement = some time := by
          intro id' announcement time
          rw [refreshed, AnnouncementLedger.enter]
          dsimp only
          by_cases this : id' = id ∧ announcement = sa.announcement
          · rw [if_pos this, if_pos ⟨this.1, this.2, accepted⟩, Option.some.injEq, eq_comm]
          · rw [if_neg this, if_neg (fun all => this ⟨all.1, all.2.1⟩), agrees.agrees]
        have passed (same : list.Same list') (unknown : ∀ time, ¬list.Lists id sa.announcement time)
            (code : rc ≠ 1) :
            ∀ id' announcement time, list'.Lists id' announcement time ↔
              ledger.enter (.store now memory id sa) rc id' announcement = some time := by
          intro id' announcement time
          have none : ¬(ledger id sa.announcement).isSome = true := by
            intro some
            rcases Option.isSome_iff_exists.mp some with ⟨time, entry⟩
            exact unknown time ((agrees.agrees _ _ _).mpr entry)
          rw [same, AnnouncementLedger.enter, agrees.agrees]
          dsimp only
          rw [if_neg (fun all => all.2.2.elim code none)]
        rcases stored.outcome with
          ⟨_, ⟨time, known⟩, refreshed⟩ | ⟨unknown, ⟨code, refreshed⟩ |
            ⟨code, same, _⟩ | ⟨code, same, _⟩⟩
        · exact entered refreshed
            (.inr (Option.isSome_iff_exists.mpr ⟨time, (agrees.agrees _ _ _).mp known⟩))
        · exact entered refreshed (.inl code)
        · exact passed same unknown (by rw [code]; decide)
        · exact passed same unknown (by rw [code]; decide)
  | expire now =>
      rcases agrees.sound.expire now with ⟨sound, lists, _⟩
      refine ⟨(list.expire now, ledger.enter (.expire now) 1), rfl, sound, ?_⟩
      intro id announcement time
      rw [lists, agrees.agrees, AnnouncementLedger.enter, Option.filter_eq_some_iff]
      simp

/-- From an empty list every series of calls runs without a fault, whatever the
allocator answers.  After each of them the hashes, and the peers of each hash, are
distinct and within their bounds, and they are exactly those of the ledger; and
the next call to `storage_store` is refused only for want of room or memory. -/
theorem storageCalls_ledger (calls : List StorageCall) :
    (∃ last, Run.run StorageCall.step (StorageList.init, fun _ _ => none) calls = .ok last) ∧
      Run.Always StorageCall.step
        (fun state => AgreesWith state.1 state.2 ∧ ∀ now memory id sa, ∃ rc list',
          storageStore now memory id sa state.1 = .ok (rc, list') ∧
            state.1.Stored now memory id sa rc list')
        (StorageList.init, fun _ _ => none) calls := by
  apply Run.always_of_total fun state => AgreesWith state.1 state.2
  · exact fun call agrees => agrees.step call
  · exact fun agrees => ⟨agrees, fun now memory id sa =>
      storageStore_stored agrees.sound now memory id sa⟩
  · refine ⟨⟨.nil, by simp [StorageList.init], rfl, by simp [StorageList.init]⟩, ?_⟩
    intro id announcement time
    constructor
    · rintro ⟨st, member, _⟩
      cases member
    · intro none
      cases none

end Dnsp2p.Dht
