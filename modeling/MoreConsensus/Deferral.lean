import MoreConsensus.Script

/-!
# Refused and deferred PreAccepts

A PreAccept at the ballot a node has promised has to be for the value the node holds. The source
compares the command, the processing time and the timing domain (`samePreAccept`), wherever it meets
the PreAccept. One that differs there is refused; one that differs only in its kind, its
configuration change or its control is taken for a repetition and answered, unless a check that
comes before refuses it (`step_refuses_conflicting`, `removals_acknowledged`).
-/

set_option autoImplicit false

namespace MoreConsensus

open Library

namespace RawNode

/-! ### PreAccepts at the promised ballot -/

/-- What refusing a message leaves of a node: the message is neither answered nor kept, and at most
the latest checkpoint is offered to its sender. -/
structure Refused (n n' : RawNode) : Prop where
  instances : n'.instances = n.instances
  logical : n'.logicalPreAccepts = n.logicalPreAccepts
  toq : n'.toqPreAccepts = n.toqPreAccepts
  loads : n'.pendingRecordLoads = n.pendingRecordLoads
  offers : ∃ offers, (∀ m ∈ offers, m.type = .checkpointOffer) ∧
    n'.enqueued.messages = n.enqueued.messages ++ offers

theorem Refused.refl (n : RawNode) : Refused n n where
  instances := rfl
  logical := rfl
  toq := rfl
  loads := rfl
  offers := ⟨[], by simp⟩

/-- Offering a checkpoint is all that happens to a message below the compacted frontier. -/
theorem refused_enqueueLatestCheckpointOffer (n : RawNode) (target : ReplicaID) :
    Refused n (n.enqueueLatestCheckpointOffer target) := by
  unfold enqueueLatestCheckpointOffer enqueueLatestCheckpointControl
  dsimp only
  split
  · exact .refl n
  · unfold enqueueMessage modifyReady
    split
    all_goals exact
      { instances := rfl, logical := rfl, toq := rfl, loads := rfl
        offers := ⟨[_], fun m hm ↦ by rw [List.mem_singleton.mp hm]; rfl, rfl⟩ }

section Conflicting

variable {n : RawNode} {m : Message} {rec : InstanceRecord}

theorem handlePreAccept_refuses (hrec : n.record? m.ref = some rec)
    (hstatus : rec.status < .committed) (hballot : m.ballot = rec.ballot)
    (hdiffer : samePreAccept rec m = false) (ordered : Bool) :
    n.handlePreAccept m ordered = (n, some .invalidMessage) := by
  unfold handlePreAccept
  rw [hrec]
  dsimp only
  rw [if_neg (not_le.mpr hstatus), if_neg (by rw [hballot]; exact lt_irrefl _),
    if_pos (by simp [hballot, hdiffer])]

/-- A PreAccept that was queued before the node held its record is refused when its time comes. -/
theorem handleDeferred_refuses (hrec : n.record? m.ref = some rec)
    (hstatus : rec.status < .committed) (hballot : m.ballot = rec.ballot)
    (hdiffer : samePreAccept rec m = false) (hlocal : n.isLocalTOQ m = false) :
    n.handleDeferred m = (n, some .invalidMessage) := by
  have hstate : n.deferredPreAcceptStateError m = (n, some .invalidMessage) := by
    unfold deferredPreAcceptStateError
    rw [hlocal, if_neg Bool.false_ne_true, hrec]
    dsimp only
    rw [if_neg (not_le.mpr hstatus), if_pos (by simp [hballot, hdiffer])]
  unfold handleDeferred
  rw [hstate]

/-- Such a PreAccept is not queued: it would not replace the record. -/
theorem deferPreAccept_of_conflicting (hrec : n.record? m.ref = some rec)
    (hballot : m.ballot = rec.ballot) (hdiffer : samePreAccept rec m = false) :
    n.deferPreAccept m = none := by
  have hkept : n.wouldReplaceInstance m rec true = false := by
    unfold wouldReplaceInstance
    split
    · rfl
    · rw [if_pos (by simp [hballot, hdiffer])]
  unfold deferPreAccept
  rw [hrec]
  dsimp only [Option.elim]
  rw [hkept, if_pos (by simp)]

/-- A PreAccept that repeats the command and timing of a vote is answered. -/
theorem handlePreAccept_answers (hrec : n.record? m.ref = some rec)
    (hstatus : rec.status < .committed) (hballot : m.ballot = rec.ballot)
    (hsame : samePreAccept rec m = true) (hvote : rec.status ≠ .none) (ordered : Bool) :
    ∃ resp, n.handlePreAccept m ordered = (n.enqueueMessage resp, none) ∧
      resp.type = .preAcceptResp ∧ resp.target = m.source ∧ resp.ref = m.ref ∧
      resp.ballot = m.ballot ∧ resp.reject = false := by
  have htiming : rec.timingDomain = timingDomainFromMessage m := by
    simp only [samePreAccept, Bool.and_eq_true, beq_iff_eq] at hsame
    exact hsame.2
  unfold handlePreAccept
  rw [hrec]
  dsimp only
  rw [if_neg (not_le.mpr hstatus), if_neg (by rw [hballot]; exact lt_irrefl _),
    if_neg (by simp [hsame])]
  cases hcase : rec.status with
  | none => exact absurd hcase hvote
  | preAccepted =>
    rw [if_neg (by decide), if_pos (by simp [hballot, htiming])]
    exact ⟨_, rfl, rfl, rfl, rfl, hballot.symm, rfl⟩
  | accepted =>
    rw [if_pos rfl, if_pos hballot]
    exact ⟨_, rfl, rfl, rfl, rfl, hballot.symm, rfl⟩
  | committed | executed =>
    rw [hcase] at hstatus
    exact absurd hstatus (by decide)

/-- Nor is such a PreAccept queued. -/
theorem deferPreAccept_of_same (hrec : n.record? m.ref = some rec)
    (hballot : m.ballot = rec.ballot) (hsame : samePreAccept rec m = true)
    (hvote : rec.status ≠ .none) : n.deferPreAccept m = none := by
  have htiming : rec.timingDomain = timingDomainFromMessage m := by
    simp only [samePreAccept, Bool.and_eq_true, beq_iff_eq] at hsame
    exact hsame.2
  have hkept : n.wouldReplaceInstance m rec true = false := by
    unfold wouldReplaceInstance
    cases hcase : rec.status <;> simp_all [show Status.committed ≤ .committed from le_rfl,
      show Status.committed ≤ .executed from by decide]
  unfold deferPreAccept
  rw [hrec]
  dsimp only [Option.elim]
  rw [hkept, if_pos (by simp)]

/-- A PreAccept at the promised ballot of a record that is not committed. If it differs from the
record in its command, its processing time or its timing domain, it is refused with an error,
neither answered nor kept, and likewise when it was queued before; only where the record is kept
without its payload, so that there is nothing to compare, it waits for the load. Otherwise a node
that has voted answers it with its vote, if it gets past the checks that come before the
handlers. -/
theorem step_refuses_conflicting (hrec : n.record? m.ref = some rec)
    (hstatus : rec.status < .committed) (htype : m.type = .preAccept)
    (hballot : m.ballot = rec.ballot) :
    (samePreAccept rec m = false →
      ((n.step m).2 ≠ none ∧ Refused n (n.step m).1 ∨
        n.payloadAbsent m.ref = true ∧ n.step m = n.deferRecordLoadRequired m.ref m) ∧
      (n.isLocalTOQ m = false → n.handleDeferred m = (n, some .invalidMessage))) ∧
    (samePreAccept rec m = true → rec.status ≠ .none → n.step m = n.beginDrive.dispatch m →
      (n.step m).2 = none ∧ ∃ resp, (n.step m).1 = n.beginDrive.enqueueMessage resp ∧
        resp.type = .preAcceptResp ∧ resp.target = m.source ∧ resp.ref = m.ref ∧
        resp.ballot = m.ballot ∧ resp.reject = false) := by
  have hdrive : n.beginDrive.record? m.ref = some rec := hrec
  refine ⟨fun hdiffer ↦ ⟨?_, handleDeferred_refuses hrec hstatus hballot hdiffer⟩,
    fun hsame hvote hdispatch ↦ ?_⟩
  · have hcontrol : m.isCheckpointControl = false := by simp [Message.isCheckpointControl, htype]
    have hdispatch : n.beginDrive.dispatch m = (n.beginDrive, some .invalidMessage) := by
      unfold dispatch
      rw [htype]
      dsimp only
      rw [deferPreAccept_of_conflicting hdrive hballot hdiffer, Option.getD_none,
        handlePreAccept_refuses hdrive hstatus hballot hdiffer]
    unfold step
    split
    · exact .inl ⟨by simp, .refl n⟩
    split
    · exact .inl ⟨by simp, .refl n⟩
    rw [hcontrol, if_neg Bool.false_ne_true]
    split
    · exact .inl ⟨by simp, n.refused_enqueueLatestCheckpointOffer _⟩
    split
    · next hstub => exact .inr ⟨(Bool.and_eq_true_iff.mp hstub).1, rfl⟩
    split
    · exact .inl ⟨by simp, .refl n⟩
    split
    · exact .inl ⟨by simp, .refl n⟩
    · rw [hdispatch]
      exact .inl ⟨by simp, ⟨rfl, rfl, rfl, rfl, [], by simp, by simp [beginDrive]⟩⟩
  · obtain ⟨resp, hanswer, hresp⟩ :=
      handlePreAccept_answers hdrive hstatus hballot hsame hvote false
    rw [hdispatch, dispatch, htype]
    dsimp only
    rw [deferPreAccept_of_same hdrive hballot hsame hvote, Option.getD_none, hanswer]
    exact ⟨rfl, resp, rfl, hresp⟩

end Conflicting

end RawNode

/-- The first replica asks the second one for its vote on a value at the first reference of its
lane. -/
def firstPreAccept (value : EntryValue) : Message :=
  { type := .preAccept, source := 1, target := 2, ref := ⟨1, 1, 1⟩, ballot := ⟨0, 0, 1⟩, seq := 1
    deps := [0, 0, 0], kind := value.kind, command := value.command
    confChange := value.confChange, protocolControl := value.protocolControl }

/-- A command on one key. -/
def keyedPreAccept (key : UInt8) : Message :=
  firstPreAccept { kind := .command, command :=
    { id := ⟨1, 1⟩, footprint := { points := [[key]] } } }

/-- The removal of a voter. -/
def removalPreAccept (voter : ReplicaID) : Message :=
  firstPreAccept { kind := .confChange, confChange := ⟨.removeVoter, voter⟩ }

theorem RawNode.step_refuses_conflicting_command :
    ∃ n, newRawNode 2 {} threeReplicas {} = some n ∧
      ((n.run [.step (keyedPreAccept 1)]).step (keyedPreAccept 2)).2 ≠ none ∧
      Refused (n.run [.step (keyedPreAccept 1)])
        ((n.run [.step (keyedPreAccept 1)]).step (keyedPreAccept 2)).1 := by
  have hsome : (newRawNode 2 {} threeReplicas {}).isSome = true := by decide +kernel
  have hall : ∀ n ∈ newRawNode 2 {} threeReplicas {},
      let m := n.run [.step (keyedPreAccept 1)]
      m.payloadAbsent ⟨1, 1, 1⟩ = false ∧ ∃ rec ∈ m.record? ⟨1, 1, 1⟩,
        rec.status < .committed ∧ (keyedPreAccept 2).ballot = rec.ballot ∧
          samePreAccept rec (keyedPreAccept 2) = false := by
    decide +kernel
  obtain ⟨n, hn⟩ := Option.isSome_iff_exists.mp hsome
  obtain ⟨hfull, rec, hrec, hstatus, hballot, hdiffer⟩ := hall n hn
  exact ⟨n, hn, ((step_refuses_conflicting hrec hstatus rfl hballot).1 hdiffer).1.resolve_right
    fun hstub ↦ absurd (hfull.symm.trans hstub.1) (by decide)⟩

/-- The second replica votes for the removal of the third voter, and then acknowledges a PreAccept
at the same ballot for the removal of the first one. -/
theorem removals_acknowledged :
    ∃ n, RawNode.newRawNode 2 {} threeReplicas {} = some n ∧
      let held := n.run [.step (removalPreAccept 3)]
      (∃ rec, held.record? ⟨1, 1, 1⟩ = some rec ∧ rec.status = .preAccepted ∧
        rec.ballot = (removalPreAccept 1).ballot ∧
        rec.confChange ≠ (removalPreAccept 1).confChange) ∧
      (held.step (removalPreAccept 1)).2 = none ∧
      ∃ resp, (held.step (removalPreAccept 1)).1.enqueued.messages =
          held.enqueued.messages ++ [resp] ∧
        resp.type = .preAcceptResp ∧ resp.ref = ⟨1, 1, 1⟩ ∧ resp.target = 1 ∧
        resp.reject = false := by
  have hsome : (RawNode.newRawNode 2 {} threeReplicas {}).isSome = true := by decide +kernel
  have hall : ∀ n ∈ RawNode.newRawNode 2 {} threeReplicas {},
      let held := n.run [.step (removalPreAccept 3)]
      (∃ rec ∈ held.record? ⟨1, 1, 1⟩, rec.status = .preAccepted ∧
        rec.ballot = (removalPreAccept 1).ballot ∧
        rec.confChange ≠ (removalPreAccept 1).confChange) ∧
      (held.step (removalPreAccept 1)).2 = none ∧
      ∃ resp ∈ (held.step (removalPreAccept 1)).1.enqueued.messages.getLast?,
        (held.step (removalPreAccept 1)).1.enqueued.messages = held.enqueued.messages ++ [resp] ∧
        resp.type = .preAcceptResp ∧ resp.ref = ⟨1, 1, 1⟩ ∧ resp.target = 1 ∧
        resp.reject = false := by
    decide +kernel
  obtain ⟨n, hn⟩ := Option.isSome_iff_exists.mp hsome
  obtain ⟨⟨rec, hrec, hheld⟩, hnone, resp, -, hresp⟩ := hall n hn
  exact ⟨n, hn, ⟨rec, hrec, hheld⟩, hnone, resp, hresp⟩

end MoreConsensus
