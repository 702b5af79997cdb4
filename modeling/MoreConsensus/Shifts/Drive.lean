import MoreConsensus.Shifts.Recovery
import MoreConsensus.Step

/-!
# The entry points as shifts
-/

set_option autoImplicit false

namespace MoreConsensus

open Library

namespace RawNode

namespace Shifts

variable {scope : Scope} {n m : RawNode} {ref : InstanceRef}

theorem runExecution (hshifts : Shifts scope n m) : Shifts scope n m.runExecution :=
  hshifts.trans (tryExecute _ _)

theorem drive (node : RawNode) : Shifts scope node node.runExecution := (refl node).runExecution

/-! ### Deferred PreAccepts -/

/-- A PreAccept that is early is queued, or refused when the queue is full. -/
theorem admitDeferredPreAccept (hshifts : Shifts .call n m) (domain : PreAcceptDomain)
    (msg : Message) :
    Shifts .call n (m.admitDeferredPreAccept domain msg).1 := by
  unfold RawNode.admitDeferredPreAccept
  split
  · exact hshifts
  split
  · exact hshifts
  · exact hshifts.of_timing rfl nofun

theorem deferPreAccept (hshifts : Shifts .call n m) {msg : Message} {result : RawNode × Option Err}
    (hresult : m.deferPreAccept msg = some result) : Shifts .call n result.1 := by
  unfold RawNode.deferPreAccept at hresult
  dsimp only at hresult
  split at hresult
  · simp at hresult
  split at hresult
  · split at hresult
    · simp at hresult
    · rw [← Option.some.inj hresult]
      exact hshifts.admitDeferredPreAccept _ _
  split at hresult
  · rw [← Option.some.inj hresult]
    exact hshifts.admitDeferredPreAccept _ _
  · simp at hresult

theorem deferredPreAcceptStateError (hshifts : Shifts scope n m) (msg : Message) :
    Shifts scope n (m.deferredPreAcceptStateError msg).1 := by
  unfold RawNode.deferredPreAcceptStateError
  split
  · exact hshifts
  split
  · exact hshifts
  split
  · split
    · next deferred hdeferred => exact hshifts.requirePayload hdeferred
    · exact hshifts
  · exact hshifts

/-- A PreAccept that is due is handled like one that has just come. -/
theorem handleDeferred (hshifts : Shifts scope n m) (msg : Message) :
    Shifts scope n (m.handleDeferred msg).1 := by
  unfold RawNode.handleDeferred
  have hchecked := hshifts.deferredPreAcceptStateError msg
  split
  · next res err hres =>
    rw [hres] at hchecked
    exact hchecked
  · next res hres =>
    rw [hres] at hchecked
    split
    · exact hchecked.handleLocalTOQPreAccept drive msg
    · exact hchecked.handlePreAccept msg true

/-- The loop over what is due takes the entries from their heap one by one. -/
theorem processDeferred (domain : PreAcceptDomain) (now bound : ℕ) {state : RawNode × Option Err}
    (hshifts : Shifts .call n state.1) :
      Shifts .call n (processDeferred domain now bound state).1 := by
  induction bound generalizing state with
  | zero => exact hshifts
  | succ bound ih =>
    obtain ⟨node, firstErr⟩ := state
    unfold RawNode.processDeferred
    split
    · exact hshifts
    split
    · exact hshifts
    · next msg _ _ =>
      have hdetached : Shifts .call n (node.detachDeferredPreAcceptEntry domain msg) :=
        hshifts.of_timing rfl nofun
      exact ih (hdetached.handleDeferred msg)

theorem processDeferredPreAccepts (hshifts : Shifts .call n m)
    (domain : PreAcceptDomain) (now : ℕ) :
    Shifts .call n (m.processDeferredPreAccepts domain now).1 :=
  processDeferred domain now _ hshifts

theorem processTOQ (hshifts : Shifts .call n m) (now : ℕ) :
    Shifts .call n (m.processTOQ now).1 := by
  unfold RawNode.processTOQ
  split
  · exact hshifts
  split
  · exact hshifts
  have hprocessed := Shifts.processDeferredPreAccepts
    (m := { m.beginDrive with toqLastNow := some now, toqSampleAvailable := true }) hshifts .toq now
  refine Shifts.runExecution ?_
  exact hprocessed.of_timing rfl nofun

theorem activateTOQRuntime (hshifts : Shifts scope n m) (conf : ConfState) :
    Shifts scope n (m.activateTOQRuntime conf) := by
  unfold RawNode.activateTOQRuntime
  split <;> exact hshifts

theorem refreshTOQConfig (hshifts : Shifts scope n m) (runtime : ToqRuntime) :
    Shifts scope n (m.refreshTOQConfig runtime).1 := by
  unfold RawNode.refreshTOQConfig
  split
  · exact hshifts
  dsimp only
  split
  · exact hshifts
  split
  · refine Shifts.activateTOQRuntime ?_ _
    exact hshifts
  · exact hshifts

/-! ### Proposals -/

/-- A proposal is its owner's first vote; with a quorum of one it commits at once. -/
theorem installProposal (hshifts : Shifts scope n m) {rec : InstanceRecord}
    (hstatus : rec.status ≠ .executed) : Shifts scope n (m.installProposal rec).1 := by
  unfold RawNode.installProposal
  dsimp only
  split
  · exact hshifts
  split
  · exact Shifts.commit drive (((hshifts.installInstance hstatus
      (by exact .of_empty rfl rfl rfl) rfl).note rfl).enqueueRecord rec) _ _
  · exact ((((hshifts.installInstance hstatus
      (by exact .of_empty rfl rfl rfl) rfl).note rfl).enqueueRecord rec).broadcastPreAccept
      _).schedule _ _ _

theorem proposeTOQ (hshifts : Shifts .call n m) (ref : InstanceRef) (nextInstance : InstanceNum)
    (value : EntryValue) (processAt : ℕ) :
    Shifts .call n (m.proposeTOQ ref nextInstance value processAt).1 := by
  unfold RawNode.proposeTOQ
  extract_lets pending
  have hadmitted := hshifts.admitDeferredPreAccept .toq
      (m.messageFromRecord .preAccept m.id pending)
  split
  · next res err hres =>
    rw [hres] at hadmitted
    exact hadmitted
  · next res hres =>
    rw [hres] at hadmitted
    refine (((((Shifts.installInstance ?_ ?_
      (by exact .of_empty rfl rfl rfl) rfl).note rfl).enqueueRecord _).broadcastPreAccept
      _).schedule _ _ _)
    · exact hadmitted
    · simp [pending]

/-- A proposal takes the next number of its owner, once every check has passed. -/
theorem proposeEntry (hshifts : Shifts .call n m) (value : EntryValue) :
    Shifts .call n (m.proposeEntry value).1 := by
  unfold RawNode.proposeEntry
  split
  · exact hshifts
  split
  · exact hshifts
  split
  · exact hshifts
  split
  · exact hshifts
  split
  · exact hshifts.proposeTOQ _ _ _ _
  · refine (Shifts.noteSkips ?_ _ _ _ _).installProposal (by simp)
    exact hshifts

theorem propose (hshifts : Shifts .call n m) (cmd : Command) :
    Shifts .call n (m.propose cmd).1 := by
  unfold RawNode.propose
  split
  · exact hshifts
  · exact Shifts.proposeEntry (m := m.beginDrive) hshifts _

theorem proposeConfChange (hshifts : Shifts .call n m) (change : ConfChange) :
    Shifts .call n (m.proposeConfChange change).1 := by
  unfold RawNode.proposeConfChange
  split
  · exact hshifts
  split
  · exact hshifts
  split
  · exact hshifts
  have hproposed := Shifts.proposeEntry (m := { m.beginDrive with pendingConf := true }) hshifts
    { kind := .confChange, confChange := change }
  split
  · next res err hres =>
    rw [hres] at hproposed
    exact hproposed
  · next res hres =>
    rw [hres] at hproposed
    exact hproposed

/-! ### Membership controls -/

section

variable (hshifts : Shifts scope n m)

include hshifts

theorem proposeMembershipAt (ref : InstanceRef) (control : Bytes) :
    Shifts scope n (m.proposeMembershipAt ref control).1 := by
  unfold RawNode.proposeMembershipAt
  dsimp only
  split
  · exact hshifts
  split
  · exact hshifts
  · exact hshifts.installProposal (by simp)

theorem installBlank (ref : InstanceRef) :
    Shifts scope n (m.installBlank ref) := by
  unfold RawNode.installBlank
  split
  · exact hshifts
  · exact (hshifts.installInstance (by simp) (by exact .of_empty rfl rfl rfl) rfl).enqueueRecord _

theorem closeRef (deadline : ℕ) (ref : InstanceRef) :
    Shifts scope n (closeRef deadline m ref) := by
  have hblank := hshifts.installBlank ref
  unfold RawNode.closeRef
  dsimp only
  split
  · exact hblank
  split
  · exact hblank
  · exact (hblank.updateInstance _ _ (by exact fun _ ↦ ⟨rfl, rfl, rfl, rfl⟩)).schedule _ _ _

/-- What a closed configuration covers gets records and recovery timers. -/
theorem scheduleBootstrapClosure (refs : List InstanceRef) :
    Shifts scope n (m.scheduleBootstrapClosure refs).1 := by
  unfold RawNode.scheduleBootstrapClosure
  dsimp only
  split
  · split <;> exact hshifts
  · exact hshifts.foldl (fun ref hnode ↦ hnode.closeRef _ ref) refs

theorem recoverVoterControl (ref : InstanceRef) :
    Shifts scope n (m.recoverVoterControl ref).1 := by
  have hblank := hshifts.installBlank ref
  unfold RawNode.recoverVoterControl
  split
  · exact hshifts
  split
  · exact hshifts
  dsimp only
  split
  · exact hblank
  · exact Shifts.startPrepare drive (m := (m.installBlank ref).beginDrive) hblank ref

end

/-! ### Timers -/

theorem rebroadcastCommits (hshifts : Shifts scope n m) : Shifts scope n m.rebroadcastCommits :=
  hshifts.foldl (fun entry hnode ↦ hnode.broadcast .commit entry.1) _

theorem retry {sent : RawNode} (hshifts : Shifts scope n sent) (m : RawNode) (ref : InstanceRef)
    (kind : TimerKind) (after : ℕ) : Shifts scope n (m.retry sent ref kind after).1 := by
  unfold RawNode.retry
  split
  · exact hshifts
  · exact hshifts.schedule _ _ _

theorem recoverOnTimer (hshifts : Shifts scope n m) (inst : Instance) :
    Shifts scope n (m.recoverOnTimer inst).1 := by
  unfold RawNode.recoverOnTimer
  dsimp only
  split
  · exact hshifts
  split
  · exact hshifts.scheduleRecovery _
  have hstart := hshifts.startPrepare drive inst.record.ref
  split
  · next res err hres =>
    rw [hres] at hstart
    exact hstart
  · next res hres =>
    rw [hres] at hstart
    exact hstart

theorem failPendingTryEvidenceCheck (hshifts : Shifts scope n m) {inst : Instance} {res : RawNode}
    (hres : m.failPendingTryEvidenceCheck RawNode.runExecution inst = some res) :
    Shifts scope n res := by
  unfold RawNode.failPendingTryEvidenceCheck at hres
  split at hres
  · simp at hres
  split at hres
  · simp at hres
  · rw [← Option.some.inj hres]
    exact hshifts.startAcceptAfterTryCommittedConflict drive _ _ _

/-- A timer resends what its phase sends, or starts a recovery. -/
theorem onTimer (hshifts : Shifts scope n m) (inst : Instance) (kind : TimerKind) :
    Shifts scope n (m.onTimer inst kind).1 := by
  unfold RawNode.onTimer
  dsimp only
  cases kind with
  | fastWait =>
    dsimp only
    split
    · exact hshifts.startAccept drive _ _
    · exact hshifts
  | preAccept =>
    dsimp only
    split
    · exact hshifts
    split
    · exact hshifts.startAccept drive _ _
    · exact (hshifts.broadcastPreAccept _).retry m _ _ _
  | accept =>
    dsimp only
    split
    · exact hshifts
    · exact (hshifts.broadcast _ _).retry m _ _ _
  | tryPreAccept =>
    dsimp only
    split
    · exact hshifts
    split
    · next failed hfailed => exact hshifts.failPendingTryEvidenceCheck hfailed
    · exact (hshifts.broadcastTryPreAccept _).retry m _ _ _
  | prepare =>
    dsimp only
    split
    · exact (hshifts.sendAll _ _).retry m _ _ _
    · exact hshifts.recoverOnTimer _

/-- The loop over expired timers goes on after a failure and reports the first one. -/
theorem fireTimers (bound : ℕ) {state : RawNode × Option Err} (hshifts : Shifts scope n state.1) :
    Shifts scope n (fireTimers bound state).1 := by
  induction bound generalizing state with
  | zero => exact hshifts
  | succ bound ih =>
    obtain ⟨node, firstErr⟩ := state
    unfold RawNode.fireTimers
    split
    · exact hshifts
    split
    · exact hshifts
    dsimp only
    split
    · exact ih hshifts
    · refine ih (Shifts.onTimer ?_ _ _)
      exact hshifts

/-! ### Checkpoint rounds -/

theorem maybeScheduleCheckpointBarrier (hshifts : Shifts .call n m) :
    Shifts .call n m.maybeScheduleCheckpointBarrier.1 := by
  unfold RawNode.maybeScheduleCheckpointBarrier
  dsimp only
  split
  · exact hshifts
  split
  · exact hshifts
  · exact hshifts.proposeEntry _

theorem plane_proposeSnapshot (m : RawNode) (mode : SnapshotMode) (checkpoint : Checkpoint) :
    (m.proposeSnapshot mode checkpoint).plane =
      { m.plane with asks := { m.plane.asks with snapshot := some ⟨mode, checkpoint⟩ } } :=
  plane_modifyReady_asks (g := fun asks ↦ { asks with snapshot := some _ }) _ fun _ ↦ rfl

section

variable (hshifts : Shifts scope n m)

include hshifts

theorem persistLocal (checkpoint : Checkpoint) :
    Shifts scope n (m.proposeSnapshot .persistLocal checkpoint) := by
  refine hshifts.of_calm (frame_modifyReady_other m (fun _ ↦ rfl) fun _ ↦ rfl) ?_
    (held_modifyReady ..) (timing_modifyReady ..)
  rw [plane_proposeSnapshot]
  exact hshifts.calm.of_persistLocal checkpoint

theorem maybeCertifyCheckpoint : Shifts scope n m.maybeCertifyCheckpoint := by
  unfold RawNode.maybeCertifyCheckpoint
  split
  · exact hshifts
  split
  · exact hshifts
  dsimp only
  split
  · exact hshifts
  · refine Shifts.persistLocal ?_ _
    exact hshifts

theorem broadcastCheckpointControl (round : CheckpointRound)
    (type : MessageType) (control : CheckpointControl) :
    Shifts scope n (m.broadcastCheckpointControl round type control) :=
  hshifts.sendAll _ _

theorem retryCheckpointControl : Shifts scope n m.retryCheckpointControl := by
  unfold RawNode.retryCheckpointControl
  split
  · exact hshifts
  split
  · exact hshifts
  split
  · exact hshifts
  · exact hshifts.broadcastCheckpointControl _ _ _

/-- The answer of the application is kept with the round that has asked for it. -/
theorem provideCheckpoint (result : CheckpointResult) :
    Shifts scope n (m.provideCheckpoint result).1 := by
  unfold RawNode.provideCheckpoint
  split
  · exact hshifts
  split
  · exact hshifts
  split
  · exact hshifts
  split
  · exact hshifts
  split
  · exact hshifts
  split
  · exact hshifts
  split
  · exact hshifts
  · refine Shifts.persistLocal ?_ _
    exact hshifts

theorem enqueueLatestCheckpointControl (target : ReplicaID)
    (type : MessageType) (control : Checkpoint → CheckpointControl) :
    Shifts scope n (m.enqueueLatestCheckpointControl target type control) := by
  unfold RawNode.enqueueLatestCheckpointControl
  dsimp only
  split
  · exact hshifts
  · exact hshifts.enqueueMessage _

/-- A vote of another replica is kept with the round it is for. -/
theorem handleCheckpointVote (sender : ReplicaID)
    (descriptor : CheckpointDescriptor) (vote : VoterAcknowledgement) :
    Shifts scope n (m.handleCheckpointVote sender descriptor vote).1 := by
  unfold RawNode.handleCheckpointVote
  split
  · exact hshifts
  split
  · exact (hshifts.enqueueLatestCheckpointControl _ _ _).enqueueLatestCheckpointControl _ _ _
  split
  · exact hshifts
  split
  · exact hshifts
  · refine Shifts.maybeCertifyCheckpoint ?_
    exact hshifts

end

/-- The node takes a checkpoint that was offered, to install it. -/
def Takes (m m' : RawNode) : Prop :=
  ∃ round localized, m' =
    { m with executionPaused := true, checkpointRound := some round }.proposeSnapshot .install
      localized

/-- An incoming checkpoint is kept for the running round, ignored or refused, unless it is an offer
that is taken. -/
theorem handleCheckpointOffer (m : RawNode) (checkpoint : Checkpoint) (offer : Bool) :
    Shifts scope m (m.handleCheckpointOffer checkpoint offer).1 ∨
      Takes m (m.handleCheckpointOffer checkpoint offer).1 := by
  have hrefl : Shifts scope m m := Shifts.refl m
  unfold RawNode.handleCheckpointOffer
  dsimp only
  split
  · exact Or.inl hrefl
  split
  · exact Or.inl hrefl
  split
  · exact Or.inl hrefl
  split
  · exact Or.inl hrefl
  split
  · split
    · exact Or.inl hrefl
    · refine Or.inl (Shifts.persistLocal ?_ _)
      exact hrefl
  split
  · exact Or.inl hrefl
  split
  · exact Or.inl hrefl
  · exact Or.inr ⟨_, _, rfl⟩

theorem handleCheckpointControl (m : RawNode) (msg : Message) :
    Shifts scope m (m.handleCheckpointControl msg).1 ∨
      Takes m (m.handleCheckpointControl msg).1 := by
  unfold RawNode.handleCheckpointControl
  split
  · exact Or.inl ((Shifts.refl m).handleCheckpointVote _ _ _)
  · exact handleCheckpointOffer m _ _
  · exact handleCheckpointOffer m _ _
  · exact Or.inl (Shifts.refl m)

/-! ### Messages and ticks -/

/-- Every message but a PreAccept goes to a handler. -/
theorem dispatch_other (hshifts : Shifts scope n m) {msg : Message} (hother : msg.type ≠ .preAccept)
    (hmsg : msg.isCheckpointControl = false) : Shifts scope n (m.dispatch msg).1 := by
  unfold RawNode.dispatch
  split
  · next htype => exact absurd htype hother
  · exact hshifts.handlePreAcceptResp drive _
  · exact hshifts.handleAccept _
  · exact hshifts.handleAcceptResp drive _
  · exact hshifts.handleCommit drive _
  · exact hshifts.handlePrepare _
  · exact hshifts.handlePrepareResp drive _
  · exact hshifts.handleTryPreAccept _
  · exact hshifts.handleTryPreAcceptResp drive _
  · exact hshifts.handleEvidence _
  · exact hshifts.handleEvidenceResp drive _
  all_goals next htype => simp [Message.isCheckpointControl, htype] at hmsg

theorem dispatch (hshifts : Shifts .call n m) {msg : Message}
    (hmsg : msg.isCheckpointControl = false) : Shifts .call n (m.dispatch msg).1 := by
  by_cases htype : msg.type = .preAccept
  · unfold RawNode.dispatch
    rw [htype]
    dsimp only
    cases hdefer : m.deferPreAccept msg with
    | none => exact hshifts.handlePreAccept _ _
    | some result => exact hshifts.deferPreAccept hdefer
  · exact hshifts.dispatch_other htype hmsg

/-- A message of the protocol that passed its checks. -/
structure Checks (m : RawNode) (msg : Message) : Prop where
  protocol : msg.isCheckpointControl = false
  valid : ∃ conf, m.lookupConf msg.ref.conf = some conf ∧ Message.validate conf msg = none

/-- A message is dispatched, or it is an offer that is taken, or nothing much happens. -/
theorem step_cases (m : RawNode) (msg : Message) :
    Shifts .handler m (m.step msg).1 ∨ Takes m (m.step msg).1 ∨
      Checks m msg ∧ m.step msg = m.beginDrive.dispatch msg := by
  have hrefl : Shifts .handler m m := Shifts.refl m
  unfold RawNode.step
  split
  · exact Or.inl hrefl
  next conf hconf =>
  split
  · exact Or.inl hrefl
  next hrefusal =>
  split
  · exact (handleCheckpointControl m msg).imp_right Or.inl
  next hcontrol =>
  split
  · exact Or.inl (hrefl.enqueueLatestCheckpointControl _ _ _)
  split
  · exact Or.inl (hrefl.deferRecordLoadWith _ _ _)
  split
  · exact Or.inl hrefl
  split
  · exact Or.inl hrefl
  · refine Or.inr (Or.inr ⟨⟨by simpa using hcontrol, conf, hconf, ?_⟩, rfl⟩)
    unfold stepRefusal at hrefusal
    split at hrefusal
    · simp at hrefusal
    split at hrefusal
    · simp at hrefusal
    · assumption

/-- A message shifts the frame, or offers a checkpoint that is taken. -/
theorem step (m : RawNode) (msg : Message) :
    Shifts .call m (m.step msg).1 ∨ Takes m (m.step msg).1 := by
  rcases step_cases m msg with hshifts | htakes | ⟨hchecks, hstep⟩
  · exact Or.inl hshifts.within
  · exact Or.inr htakes
  · rw [hstep]
    exact Or.inl (Shifts.dispatch (m := m.beginDrive) (Shifts.refl m) hchecks.protocol)

theorem advanceTick (hshifts : Shifts .call n m) : Shifts .call n m.advanceTick.1 := by
  unfold RawNode.advanceTick
  split
  · exact hshifts
  next next _ =>
  extract_lets started hardState ticked repeated
  have hticked : Shifts .call n ticked := hshifts.of_timing rfl nofun
  have hrepeated : Shifts .call n repeated := by
    simp only [repeated]
    split
    · exact hticked.rebroadcastCommits.retryCheckpointControl
    · exact hticked
  let deferred := repeated.processDeferredPreAccepts .logical next
  let fired := RawNode.fireTimers deferred.1.timers.length deferred
  change Shifts .call n fired.1.maybeScheduleCheckpointBarrier.1.runExecution
  exact (fireTimers _ (hrepeated.processDeferredPreAccepts .logical
    next)).maybeScheduleCheckpointBarrier.runExecution

end Shifts

end RawNode

end MoreConsensus
