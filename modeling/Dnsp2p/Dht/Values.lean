import Dnsp2p.Dht.Dispatch

/-!
# The callbacks of a periodic call

Which callbacks `dht_periodic` makes.  The record that it hands to the handlers
has no callback, so the values of a reply never reach the requester.
-/

namespace Dnsp2p.Dht

open Dnsp2p.Benc Dnsp2p.Message

/-! ## The handlers -/

/-- A handler that returns makes no callback. -/
abbrev Silent (result : Except Fault (State × List Event)) : Prop :=
  Returns result fun returned => returned.2 = []

section Handlers

variable {d : State} {state : PeriodicState}

theorem call_of_no_callback {caller : Caller} (none : caller.callback = none) (event : EventKind)
    (infoHash : Field 20) (data : Bytes) : caller.call event infoHash data = [] := by
  simp [Caller.call, none]

theorem callValues_of_no_callback {caller : Caller} (none : caller.callback = none)
    (event : EventKind) (obj : Option Bobj) (search? : Option Search) :
    caller.callValues event obj search? = [] := by
  unfold Caller.callValues
  split
  · exact call_of_no_callback none _ _ _
  · rfl

theorem handleValues_silent (noCallback : state.caller.callback = none) (sr : Nat)
    (token : Option Bobj) : Silent (d.handleValues state sr token) := by
  refine .bind_any fun token => .bind_any fun id => .bind_any fun r => .bind_any fun values =>
    .bind_any fun values6 => ?_
  refine .ite (.ok rfl) (.bind_any fun _ => .bind_any fun _ => ?_)
  refine .ok ?_
  simp only [callValues_of_no_callback noCallback, List.append_nil]

theorem handleNodes_silent (noCallback : state.caller.callback = none) (t : Bytes) :
    Silent (d.handleNodes state t) := by
  have broken : Silent (do
      let d ← d.brokenNode state.msg.argId state.source
      .ok (d, [])) := .bind_any fun d => .ok rfl
  refine .bind_any fun a => .bind_any fun nodesObj => .bind_any fun nodes6Obj => .ite broken ?_
  refine .bind_any fun nodes => .bind_any fun nodes6 => .bind_any fun token => ?_
  refine .ite broken (.bind_any fun nodes => .bind_any fun nodes6 => ?_)
  refine .ite broken (.bind_any fun argId => .ite ?_ ?_)
  · exact .bind_any fun d => .ok rfl
  · refine .bind_any fun d => .bind_any fun d => .bind_any fun d => ?_
    split
    · exact .ok rfl
    · exact handleValues_silent noCallback _ token

theorem handleResponse_silent (noCallback : state.caller.callback = none) :
    Silent (d.handleResponse state) := by
  refine .ite (.fault _ _) (.ite (.bind_any fun d => .ok rfl) (.bind_any fun t => ?_))
  refine .ite (.bind_any fun d => .ok rfl) (.ite (.bind_any fun _ => .fault _ _) ?_)
  exact handleNodes_silent noCallback t

theorem dispatch_silent (noCallback : state.caller.callback = none) :
    Silent (d.dispatch state) := by
  refine .bind_any fun argId => .ite (.ok rfl) ?_
  split
  · exact handleResponse_silent noCallback
  · exact .ite (.ite (.fault _ _) (.ok rfl)) (.ok rfl)
  · exact .ok rfl

theorem handleDatagram_silent (addr : Nat) (source : Sockaddr) (buf : Bytes) :
    Silent (d.handleDatagram addr source buf) := by
  refine .ite (.ok rfl) (.ite (.ok rfl) (.ite (.ok rfl) (.bind_any fun msg? => ?_)))
  split
  · exact .ok rfl
  · exact dispatch_silent rfl

end Handlers

/-! ## The searches that are due -/

/-- The callback is made because a search has finished. -/
def Event.IsDone (event : Event) : Prop :=
  event.event = .searchDone ∨ event.event = .searchDone6

section Searches

variable {caller : Caller}

theorem finishSearch_isDone (now : Int) (sr : Search) :
    ∀ event ∈ (finishSearch now caller sr).2, event.IsDone := by
  intro event member
  simp only [finishSearch, Caller.call] at member
  split at member
  · cases member
  · rw [List.mem_singleton.mp member]
    cases sr.af
    · exact .inl rfl
    · exact .inr rfl

theorem searchStep_isDone (t : Table) (sr : Search) :
    ∀ event ∈ (searchStep caller t sr).2.2, event.IsDone := by
  unfold searchStep
  dsimp only
  split
  · split
    · exact finishSearch_isDone t.now sr
    · split
      · exact finishSearch_isDone _ _
      · simp
  · split <;> simp

theorem stepSearches_isDone (t : Table) (searches : List Search) :
    ∀ event ∈ (State.stepSearches caller t searches).2.2, event.IsDone := by
  induction searches generalizing t with
  | nil => simp [State.stepSearches]
  | cons sr rest ih =>
      intro event member
      simp only [State.stepSearches] at member
      rcases List.mem_append.mp member with first | later
      · split at first
        · exact searchStep_isDone t sr event first
        · cases first
      · exact ih _ event later

theorem due_isDone (d : State) : ∀ event ∈ (d.due caller).2, event.IsDone := by
  have run (d : State) : ∀ event ∈ (d.runSearches caller).2, event.IsDone := by
    unfold State.runSearches
    dsimp only
    split
    · exact stepSearches_isDone _ _
    · simp
  exact run _

/-- The only callbacks of a periodic call are for searches that have finished. -/
theorem dhtPeriodic_isDone {d : State} {input : Input} {outcome : Outcome}
    (returned : dhtPeriodic d input caller = .ok outcome) :
    ∀ event ∈ outcome.events, event.IsDone := by
  unfold dhtPeriodic at returned
  dsimp only at returned
  split at returned
  · split at returned
    · cases returned
      simp
    · cases returned
      exact due_isDone _
    · rename_i source buf _
      rcases bind_eq_ok_iff.mp returned with ⟨⟨d', events⟩, handled, rest⟩
      cases rest
      have silent : events = [] := handleDatagram_silent _ _ _ _ handled
      rw [silent]
      exact due_isDone d'
  · cases returned
    exact due_isDone _

end Searches

/-! ## The values of a reply -/

/-- The event for values of a family. -/
def valuesEvent : Family → EventKind
  | .inet => .values
  | .inet6 => .values6

/-- The values in a reply that `send_nodes_peers` builds, in compact form. -/
def compactValues (af : Family) (st : Storage) (roll : Nat) : Bytes :=
  (slice (some af) st roll).flatMap (compactPeer (addressLength (some af)))

/-- A periodic call hands these values to the requester of the search. -/
def ReachesRequester (d : State) (input : Input) (caller : Caller) (sr : Search) (values : Bytes) :
    Prop :=
  ∃ outcome callback, dhtPeriodic d input caller = .ok outcome ∧
    caller.callback = some callback ∧
    { callback, closure := caller.closure, event := valuesEvent sr.af, infoHash := sr.id,
      data := values } ∈ outcome.events

/-- A call with these values would be made for a search that has finished. -/
theorem isDone_of_reachesRequester {d : State} {input : Input} {caller : Caller} {sr : Search}
    {values : Bytes} (reached : ReachesRequester d input caller sr values) :
    valuesEvent sr.af = .searchDone ∨ valuesEvent sr.af = .searchDone6 := by
  rcases reached with ⟨outcome, callback, returned, _, member⟩
  exact dhtPeriodic_isDone returned _ member

/-- No periodic call hands the values of a reply to the requester, whatever was
received and whatever is stored. -/
theorem not_reachesRequester (d : State) (input : Input) (caller : Caller) (sr : Search)
    (af : Family) (st : Storage) (roll : Nat) :
    ¬ ReachesRequester d input caller sr (compactValues af st roll) := by
  intro reached
  have isDone := isDone_of_reachesRequester reached
  cases family : sr.af <;> simp [valuesEvent, family] at isDone

/-- A running search of the node above. -/
def runningSearch : Search :=
  { Search.zero with tid := 7, af := .inet, id := remoteId }

/-- One stored peer. -/
def storedPeer : Storage :=
  { id := remoteId
    peers := [{ time := 1000, ip := ⟨[192, 0, 2, 1] ++ List.replicate 12 0, by decide⟩, len := 4,
                port := 53 }] }

/-- The reply of a remote node with that peer. -/
def valuesReply : Bytes :=
  ascii "d1:rd2:id20:bbbbbbbbbbbbbbbbbbbb5:token8:tokentok6:valuesl6:" ++ [192, 0, 2, 1, 0, 53] ++
    ascii "ee1:t4:gp" ++ [7, 0] ++ ascii "1:y1:re"

/-- The peer that answers a running search is not handed over. -/
theorem valuesReply_not_reachesRequester :
    let d := { startedNode with searches := [runningSearch], numsearches := 1 }
    let input : Input :=
      { now := 1001, available := true, rc := 0, addr := 4096
        inet := { stored := some (peerAddress, valuesReply), again := true }
        inet6 := { stored := none, again := true } }
    sendNodesPeers { myid := remoteId, v := none } (makeTid "gp" runningSearch.tid) [] []
          (some .inet) (some storedPeer) (ascii "tokentok") 0 =
        some { buf := valuesReply, confirm := false } ∧
      receive d input = .ok (some (peerAddress, valuesReply)) ∧
      ¬ ReachesRequester d input { callback := some 1, closure := 2 } runningSearch
        (compactValues .inet storedPeer 0) := by
  refine ⟨by decide +kernel, rfl, ?_⟩
  intro reached
  rcases isDone_of_reachesRequester reached with done | done <;> cases done

end Dnsp2p.Dht
