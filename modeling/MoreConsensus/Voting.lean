import MoreConsensus.Execution

/-!
# Voting

The handlers of PreAccept, Accept and Commit and of their answers (`epaxos/node.go`). A handler
returns the node together with the error of the source, if any; an error does not undo what was
done before it.
-/

set_option autoImplicit false

namespace MoreConsensus

open Library

namespace RawNode

/-! ### PreAccept -/

/-- Whether a PreAccept is processed at a time its owner fixed. -/
def timedPreAccept (n : RawNode) (m : Message) : Bool :=
  m.toq || (n.cfg.timeOptimization && decide (0 < m.processAt))

/-- Whether a vote for a PreAccept may count for the fast path. -/
def liveFastPathEligible (n : RawNode) (m : Message) (ordered : Bool) : Bool :=
  m.ballot.isInitialFor m.ref.replica && (!n.timedPreAccept m || ordered)

/-- The attributes a voter gives a PreAccept. -/
def preAcceptAttrs (n : RawNode) (m : Message) (ordered : Bool) : Attributes :=
  let attrs := n.computeAttrsAt (orderingCommand m.kind m.command) m.ref m.processAt
    (ordered && n.timedPreAccept m)
  if m.toq then attrs else mergeAttrs attrs m.attributes

def preAcceptRecord (n : RawNode) (m : Message) (ordered : Bool) : InstanceRecord :=
  let attrs := n.preAcceptAttrs m ordered
  { ref := m.ref, ballot := m.ballot, recordBallot := m.ballot, status := .preAccepted,
    seq := attrs.seq, deps := attrs.deps, kind := m.kind, command := m.command,
    confChange := m.confChange, protocolControl := m.protocolControl,
    fastPathEligible := n.liveFastPathEligible m ordered && (m.toq || m.attributes == attrs),
    processAt := m.processAt, timingDomain := timingDomainFromMessage m }

/-- The answer to a PreAccept. -/
def preAcceptResp (n : RawNode) (m : Message) (rec : InstanceRecord) (eligible : Bool) : Message :=
  { type := .preAcceptResp, source := n.id, target := m.source, ref := m.ref, ballot := rec.ballot,
    seq := rec.seq, deps := rec.deps, fastPathEligible := eligible,
    depsCommitted := n.committedDepsMask rec.attributes m.ref.conf }

/-- Whether a PreAccept repeats the command and timing of a record. -/
def samePreAccept (rec : InstanceRecord) (m : Message) : Bool :=
  rec.command == m.command && rec.processAt == m.processAt &&
    rec.timingDomain == timingDomainFromMessage m

/-- Replaces an instance by a voter's record, with a recovery timer, and answers. -/
def installVote (n : RawNode) (rec : InstanceRecord) (processAt : ℕ) (resp : Message) :
    RawNode × Option Err :=
  let generation := (n.instances.get? rec.ref).elim 0 fun old ↦ old.generation + 1
  let n := (n.removeDeferredPreAccepts rec.ref).observeInstanceRef rec.ref
  let n := n.installInstance { record := rec, processAt := processAt, generation := generation }
  let n := (n.enqueueRecord rec).markPendingConf rec
  match n.scheduleRecovery rec.ref with
  | (n, some err) => (n, some err)
  | (n, none) => (n.enqueueMessage resp, none)

def votePreAccept (n : RawNode) (m : Message) (ordered : Bool) : RawNode × Option Err :=
  let vote := n.preAcceptRecord m ordered
  let resp := n.preAcceptResp m vote (n.liveFastPathEligible m ordered)
  if n.record? m.ref = some vote then (n.enqueueMessage resp, none)
  else (n.noteSkips (orderingCommand m.kind m.command) m.ref m.processAt
    (ordered && n.timedPreAccept m)).installVote vote m.processAt resp

def handlePreAccept (n : RawNode) (m : Message) (ordered : Bool) : RawNode × Option Err :=
  match n.record? m.ref with
  | none => n.votePreAccept m ordered
  | some old =>
    if Status.committed ≤ old.status then
      match n.requirePayload m.ref m with
      | some deferred => deferred
      | none =>
        if old.recordBallot = m.ballot && !samePreAccept old m then (n, some .invalidMessage)
        else (n.sendCommitTo m.source m.ref, none)
    else if m.ballot < old.ballot then
      (n.sendReject .preAcceptResp m.source m.ref old.ballot, none)
    else if m.ballot = old.ballot && !samePreAccept old m then (n, some .invalidMessage)
    else if old.status = .accepted then
      if m.ballot = old.ballot then
        (n.enqueueMessage { n.preAcceptResp m old false with depsCommitted := [] }, none)
      else (n, none)
    else if old.status = .preAccepted && m.ballot = old.ballot &&
        old.timingDomain = timingDomainFromMessage m then
      (n.enqueueMessage (n.preAcceptResp m old old.fastPathEligible), none)
    else n.votePreAccept m ordered

section Drive

variable (drive : RawNode → RawNode)

/-- Whether outstanding votes could still complete a fast quorum. -/
def canStillFastCommitPreAccept (n : RawNode) (inst : Instance) : Bool :=
  let record := inst.record
  let conf := n.confFor record.ref.conf
  if !record.fastPathEligible || !record.ballot.isInitialFor record.ref.replica then false
  else
    let votes := (VoteSet.each inst.preOK conf).filter fun vote ↦
      vote.1 != n.id && vote.2.fastPathEligible
    let unanswered := conf.voters.length - VoteSet.len inst.preOK conf
    let canReach := fun (candidate : Attributes) ↦
      (candidate == record.attributes || attrsCover record.attributes candidate) &&
        decide (n.fastQuorumForConf record.ref.conf ≤
          1 + (votes.filter fun vote ↦ vote.2.attributes == candidate).length + unanswered)
    canReach record.attributes || votes.any fun vote ↦ canReach vote.2.attributes

/-- Decides what the owner does after a PreAccept vote: commit on the fast path, fall back to
Accept, or wait. -/
def maybeFinalizePreAccept (n : RawNode) (ref : InstanceRef) : RawNode :=
  match n.instances.get? ref with
  | none => n
  | some inst =>
    if inst.record.toqPending then n
    else
      let conf := n.confFor ref.conf
      let attrs := attrsFromVotes conf inst.preOK
      let answered := VoteSet.len inst.preOK conf
      match n.fastCommitAttrsPreAccept inst with
      | some fast =>
        (n.note (.fastCommitted ref inst.record.attributes fast inst.record.value)).commit drive ref
          fast
      | none =>
        if answered < n.slowQuorumForConf ref.conf then n
        else if n.fastQuorumForConf ref.conf ≤ answered || !n.canStillFastCommitPreAccept inst then
          n.startAccept drive ref attrs
        else if n.cfg.timeOptimization && n.tick < inst.record.processAt &&
            answered < conf.voters.length then
          let deadline := inst.record.processAt
          ((n.updateInstance ref fun inst ↦ { inst with waitDeadline := deadline }).schedule ref
            .fastWait (deadline - n.tick)).1
        else n

def handlePreAcceptResp (n : RawNode) (m : Message) : RawNode × Option Err :=
  match n.instances.get? m.ref with
  | none => (n, none)
  | some inst =>
    let conf := n.confFor m.ref.conf
    if inst.phase ≠ .preAccept || m.ref.replica ≠ n.id || inst.record.ballot.replica ≠ n.id then
      (n, none)
    else if m.reject then
      if inst.record.ballot < m.rejectHint then n.startPrepareFrom drive m.ref m.rejectHint
      else (n, none)
    else if m.ballot ≠ inst.record.ballot then (n, none)
    else match newAttrVote conf m.seq m.deps m.depsCommitted m.fastPathEligible with
      | none => (n, none)
      | some vote =>
        match VoteSet.add inst.preOK conf m.source vote with
        | none => (n, none)
        | some votes =>
          ((n.updateInstance m.ref fun inst ↦
            { inst with preOK := votes }).maybeFinalizePreAccept drive m.ref, none)

/-- The owner's own vote for an instance whose processing time has come. -/
def handleLocalTOQPreAccept (n : RawNode) (m : Message) : RawNode :=
  match n.instances.get? m.ref with
  | none => n
  | some inst =>
    if inst.phase ≠ .preAccept || !inst.record.toqPending then n
    else
      let record := inst.record
      let conf := n.confFor m.ref.conf
      let ordering := orderingCommand record.kind record.command
      let attrs := n.computeAttrsAt ordering record.ref m.processAt true
      let n := n.noteSkips ordering record.ref m.processAt true
      let next := { record with
        status := .preAccepted, seq := attrs.seq, deps := attrs.deps, fastPathEligible := true,
        processAt := m.processAt, toqPending := false, recordBallot := record.ballot }
      let n := n.setInstance m.ref fun inst ↦
        { inst with record := next, processAt := m.processAt }
      let added := (newAttrVote conf next.seq next.deps
        (n.committedDepsMask next.attributes m.ref.conf) true).bind fun vote ↦
          VoteSet.add inst.preOK conf n.id vote
      match added with
      | none => n
      | some votes =>
        let n := (n.updateInstance m.ref fun inst ↦ { inst with preOK := votes }).enqueueRecord next
        if n.slowQuorumForConf m.ref.conf = 1 then n.commit drive m.ref next.attributes
        else n.maybeFinalizePreAccept drive m.ref

/-! ### Accept -/

/-- A record keeps the processing time it has when the command stays the same and the message
brings none. -/
def keepTiming (rec : InstanceRecord) : Option InstanceRecord → InstanceRecord
  | none => rec
  | some old =>
    if old.command ≠ rec.command then rec
    else if rec.processAt = 0 && old.processAt ≠ 0 then
      { rec with processAt := old.processAt, timingDomain := old.timingDomain }
    else if rec.processAt = old.processAt && old.timingDomain ≠ .untimed then
      { rec with timingDomain := old.timingDomain }
    else rec

def acceptRecord (n : RawNode) (m : Message) (old : Option InstanceRecord) : InstanceRecord :=
  let next := keepTiming
    { ref := m.ref, ballot := m.ballot, recordBallot := m.ballot, status := .accepted,
      seq := m.seq, deps := m.deps, kind := m.kind, command := m.command,
      confChange := m.confChange, protocolControl := m.protocolControl, processAt := m.processAt,
      timingDomain := timingDomainFromMessage m } old
  let attrs := mergeAttrs (acceptEvidenceFromMessage m)
    (n.computeAttrs (orderingCommand m.kind m.command) m.ref)
  let same := old.filter fun old ↦ old.status == .accepted && old.recordBallot == m.ballot &&
    old.seq == m.seq && old.deps == m.deps && old.command == m.command
  let attrs := match same.bind InstanceRecord.acceptAttributes with
    | none => attrs
    | some oldAttrs => mergeAttrs attrs oldAttrs
  let next := mergeSenderAcceptEvidence next (same.elim [] InstanceRecord.acceptEvidence)
  let next := mergeSenderAcceptEvidence (mergeAcceptEvidence next attrs) m.acceptEvidence
  mergeOwnAcceptEvidence next n.id attrs

def acceptResp (n : RawNode) (m : Message) (rec : InstanceRecord) : Message :=
  { type := .acceptResp, source := n.id, target := m.source, ref := m.ref, ballot := rec.ballot,
    recordBallot := rec.recordBallot, seq := rec.seq, deps := rec.deps,
    acceptSeq := rec.acceptSeq, acceptDeps := rec.acceptDeps,
    acceptEvidence := rec.acceptEvidence, recordStatus := rec.status }

def handleAccept (n : RawNode) (m : Message) : RawNode × Option Err :=
  let vote := fun (old : Option InstanceRecord) ↦
    let next := n.acceptRecord m old
    n.installVote next next.processAt (n.acceptResp m next)
  match n.record? m.ref with
  | none => vote none
  | some old =>
    if Status.committed ≤ old.status then
      match n.requirePayload m.ref m with
      | some deferred => deferred
      | none =>
        if old.recordBallot = m.ballot && !phaseMessageTupleEqual old m then
          (n, some .invalidMessage)
        else (n.sendCommitTo m.source m.ref, none)
    else if m.ballot < old.ballot then
      (n.sendReject .acceptResp m.source m.ref old.ballot, none)
    else if old.status = .accepted && m.ballot = old.ballot && old.recordBallot = m.ballot then
      if phaseMessageTupleEqual old m then (n.enqueueMessage (n.acceptResp m old), none)
      else (n, some .invalidMessage)
    else if old.status = .preAccepted && old.recordBallot = m.ballot &&
        !phaseMessageValueEqual old m then (n, some .invalidMessage)
    else vote (some old)

def handleAcceptResp (n : RawNode) (m : Message) : RawNode × Option Err :=
  match n.instances.get? m.ref with
  | none => (n, none)
  | some inst =>
    let conf := n.confFor m.ref.conf
    if inst.phase ≠ .accept || !n.coordinatesInstance inst then (n, none)
    else if m.reject then
      if inst.record.ballot < m.rejectHint then n.startPrepareFrom drive m.ref m.rejectHint
      else (n, none)
    else if m.ballot ≠ inst.record.ballot || m.recordBallot ≠ inst.record.recordBallot ||
        m.recordStatus ≠ .accepted || m.attributes ≠ inst.record.attributes then (n, none)
    else match VoterMask.add inst.accOK conf m.source with
      | none => (n, none)
      | some mask =>
        let next := mergeSenderAcceptEvidence
          (mergeAcceptEvidence inst.record (acceptEvidenceFromMessage m)) m.acceptEvidence
        let n := n.updateInstance m.ref fun inst ↦ { inst with accOK := mask, record := next }
        let n := if next = inst.record then n else n.enqueueRecord next
        if n.slowQuorumForConf m.ref.conf ≤ VoterMask.len mask conf then
          ((n.note (.acceptCounted m.ref next.recordBallot next.attributes next.value)).commit drive
            m.ref next.attributes, none)
        else (n, none)

/-! ### Commit -/

/-- The Accept evidence a commit is recorded with. -/
def commitEvidence (m : Message) (old : Option InstanceRecord) : Option Attributes :=
  match m.acceptAttributes, old.bind InstanceRecord.acceptAttributes with
  | some attrs, some oldAttrs => some (mergeAttrs attrs oldAttrs)
  | some attrs, none => some attrs
  | none, oldAttrs => oldAttrs

/-- The record a Commit leaves: the tuple of the message, under the higher of the two ballots. -/
def commitRecord (m : Message) (old : Option InstanceRecord) : InstanceRecord :=
  let next : InstanceRecord := { recordFromMessage m with status := .committed }
  let next := match old with
    | some old => if next.ballot < old.ballot then { next with ballot := old.ballot } else next
    | none => next
  let next := keepTiming next old
  let same := old.filter fun old ↦ old.recordBallot == next.recordBallot && old.seq == next.seq &&
    old.deps == next.deps && old.command == next.command
  let next := mergeSenderAcceptEvidence next (same.elim [] InstanceRecord.acceptEvidence)
  match commitEvidence m old with
  | none => next
  | some attrs => mergeAcceptEvidence next attrs

/-- Whether a Commit repeats the tuple of an executed instance whose payload was dropped. -/
def payloadStubMessageTupleEqual (rec full : InstanceRecord) (m : Message) : Bool :=
  let restored := { rec with kind := m.kind, confChange := m.confChange,
                             protocolControl := m.protocolControl, command := m.command }
  restored == full && phaseMessageTupleEqual restored m

/-- Whether a Commit contradicts what is recorded under its tuple ballot. -/
def commitConflict (inst : Instance) (m : Message) : Bool :=
  let old := inst.record
  old.recordBallot == m.recordBallot &&
    if Status.committed ≤ old.status then
      !(inst.payloadAbsent.elim (phaseMessageTupleEqual old m) fun full ↦
        payloadStubMessageTupleEqual old full m)
    else if old.status = .accepted then !phaseMessageTupleEqual old m
    else if old.status = .preAccepted then !phaseMessageValueEqual old m
    else false

def handleCommit (n : RawNode) (m : Message) : RawNode × Option Err :=
  let old := n.instances.get? m.ref
  if old.elim false fun inst ↦ commitConflict inst m then (n, some .invalidMessage)
  else if old.elim false fun inst ↦ decide (Status.committed ≤ inst.record.status) then (n, none)
  else
    let n := n.removeDeferredPreAccepts m.ref
    let next := commitRecord m (old.map Instance.record)
    if next.recordBallot = {} then (n, none)
    else
      let n := n.observeInstanceRef next.ref
      let n := n.installInstance
        { record := next, phase := .committed, processAt := next.processAt }
      (drive ((n.enqueueRecord next).markPendingConf next), none)

end Drive

end RawNode

end MoreConsensus
