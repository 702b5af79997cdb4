import MoreConsensus.Drive

/-!
# Steps of a node

The checkpoint rounds of `epaxos/checkpoint_node.go`, and with them the two entry points that drive
everything: `step`, which takes one message, and `advanceTick`, which moves logical time.
-/

set_option autoImplicit false

namespace MoreConsensus

open Library

namespace RawNode

/-! ### Checkpoint rounds -/

/-- Whether some lane has executed enough since the durable checkpoint. -/
def checkpointDue (n : RawNode) : Bool :=
  n.confHistory.entries.any fun entry ↦ entry.2.voters.any fun voter ↦
    let lane : InstanceLane := ⟨entry.1, voter⟩
    let base := executionFrontierLane n.durableCheckpoint.descriptor.through lane
    let through := n.durableExecuted.throughOf lane
    decide (base ≤ through) && decide (n.cfg.retainExecutedPerLane ≤ through - base)

def maybeScheduleCheckpointBarrier (n : RawNode) : RawNode × Option Err :=
  let running := n.instances.entries.any fun entry ↦ entry.1.replica == n.id &&
    entry.2.record.kind == .checkpoint && !n.executed.contains entry.1
  if n.cfg.retainExecutedPerLane = 0 || n.executionPaused || n.checkpointRound.isSome ||
      n.pendingConf || running || !n.checkpointDue then (n, none)
  else if !n.requireLocalVoter then (n, some .bootstrapEligibility)
  else n.proposeEntry { kind := .checkpoint, protocolControl := checkpointBarrierPayload }

/-- A control message to every other voter of the barrier's configuration. -/
def broadcastCheckpointControl (n : RawNode) (round : CheckpointRound) (type : MessageType)
    (control : CheckpointControl) : RawNode :=
  let ballot := (n.record? round.barrier).elim { replica := round.barrier.replica }
    InstanceRecord.recordBallot
  n.sendAll round.barrier.conf fun target ↦
    { type := type, source := n.id, target := target, ref := round.barrier, ballot := ballot,
      kind := .checkpoint, control := some control }

def proposeSnapshot (n : RawNode) (mode : SnapshotMode) (checkpoint : Checkpoint) : RawNode :=
  n.modifyReady fun ready ↦ { ready with snapshot := some ⟨mode, checkpoint⟩, mustSync := true }

/-- A descriptor gets its certificate when a slow quorum attested it. -/
def maybeCertifyCheckpoint (n : RawNode) : RawNode :=
  match n.checkpointRound with
  | none => n
  | some round =>
    if !round.preparedDurable || checkpointCertified round.checkpoint then n
    else
      let voters := round.checkpoint.descriptor.conf.voters
      let acks := (voters.filterMap round.votes.get?).take (slowQuorumSize voters.length)
      match buildCheckpointCertificate round.checkpoint.descriptor acks with
      | none => n
      | some certificate =>
        let checkpoint := { round.checkpoint with certificate := certificate }
        { n with checkpointRound := some { round with checkpoint := checkpoint } }.proposeSnapshot
          .persistLocal checkpoint

def retryCheckpointControl (n : RawNode) : RawNode :=
  match n.checkpointRound with
  | none => n
  | some round =>
    match round.votes.get? n.id with
    | none => n
    | some vote =>
      if !round.preparedDurable || checkpointCertified round.checkpoint then n
      else n.broadcastCheckpointControl round .checkpointVote
        (.vote round.checkpoint.descriptor vote)

/-- The fences of the allocators past a frontier. -/
def allocatorFences (n : RawNode) (through : ExecutionFrontier) : Option (List AllocatorFence) :=
  through.laneList.mapM fun entry ↦ (instanceSuccessor entry.2.through).map fun next ↦
    ⟨entry.1, entry.2.replica,
      if entry.1 = n.current && entry.2.replica = n.id then max next n.nextInstance else next⟩

/-- The application's answer to a checkpoint request. -/
def provideCheckpoint (n : RawNode) (result : CheckpointResult) : RawNode × Option Err :=
  match n.checkpointRound with
  | none => (n, some .unrequestedCheckpoint)
  | some round =>
    if result.id ≠ round.request.id then (n, some .checkpointMismatch)
    else if result.applicationDigest = 0 || result.applicationSnapshot.isEmpty ||
        maxApplicationSnapshotHandle < result.applicationSnapshot.length then
      (n, some .invalidCheckpoint)
    else if round.result.id ≠ {} then
      (n, if round.result = result then none else some .checkpointMismatch)
    else match (n.record? round.barrier).filter fun barrier ↦
        barrier.status == .executed && barrier.kind == .checkpoint with
      | none => (n, some .invalidCheckpoint)
      | some barrier =>
        match (n.lookupConf barrier.ref.conf).filter fun _ ↦ !n.pendingConf with
        | none => (n, some .invalidCheckpoint)
        | some conf =>
          match n.allocatorFences round.request.through with
          | none => (n, some .instanceExhausted)
          | some fences =>
            let tuple := checkpointBarrierTupleDigest barrier
            let descriptor : CheckpointDescriptor :=
              { id := round.request.id, conf := conf, barrier := barrier.ref,
                barrierTupleDigest := tuple, through := round.request.through,
                allocatorFences := fences, applicationDigest := result.applicationDigest,
                protocolStateDigest := checkpointProtocolStateDigest n.confHistory
                  round.request.through tuple fences }
            let checkpoint : Checkpoint :=
              { descriptor := descriptor, applicationSnapshot := result.applicationSnapshot,
                compactedThrough := n.durableCheckpoint.compactedThrough }
            let round := { round with result := result, checkpoint := checkpoint }
            ({ n with checkpointRound := some round }.proposeSnapshot .persistLocal checkpoint,
              none)

/-- A persisted snapshot moves its round on: a prepared descriptor is voted for, a certified one is
announced and compacted. -/
def checkpointSnapshotAdvanced (n : RawNode) (snapshot : Snapshot) : RawNode :=
  match n.checkpointRound.filter fun round ↦
      snapshot.checkpoint.descriptor.id == round.request.id with
  | none => n
  | some round =>
    let checkpoint := snapshot.checkpoint
    let round := { round with checkpoint := checkpoint }
    if !checkpointCertified checkpoint then
      if round.preparedDurable then { n with checkpointRound := some round }
      else
        let vote : VoterAcknowledgement := ⟨n.id, checkpoint.descriptor⟩
        let round := { round with
          preparedDurable := true, votes := round.votes.insert n.id vote }
        ({ n with checkpointRound := some round }.broadcastCheckpointControl round .checkpointVote
          (.vote checkpoint.descriptor vote)).maybeCertifyCheckpoint
    else if round.certificateDurable then { n with checkpointRound := some round }
    else
      let round := { round with certificateDurable := true }
      let n := { n with checkpointRound := some round, durableCheckpoint := checkpoint }
      let n := n.broadcastCheckpointControl round .checkpointCertificate (.certificate checkpoint)
      let n := n.broadcastCheckpointControl round .checkpointOffer (.offer checkpoint)
      { n with checkpointCompacting := true }.modifyReady fun ready ↦
        { ready with compact := canonicalCompactionRanges checkpoint, mustSync := true }

/-- Sends the latest certified checkpoint to a replica. -/
def enqueueLatestCheckpointControl (n : RawNode) (target : ReplicaID) (type : MessageType)
    (control : Checkpoint → CheckpointControl) : RawNode :=
  let checkpoint := n.durableCheckpoint
  if !checkpointCertified checkpoint || checkpoint.applicationSnapshot.isEmpty then n
  else
    let barrier := checkpoint.descriptor.barrier
    n.enqueueMessage
      { type := type, source := n.id, target := target, ref := barrier,
        ballot := { replica := barrier.replica }, kind := .checkpoint,
        control := some (control checkpoint) }

def enqueueLatestCheckpointCertificate (n : RawNode) (target : ReplicaID) : RawNode :=
  n.enqueueLatestCheckpointControl target .checkpointCertificate .certificate

def enqueueLatestCheckpointOffer (n : RawNode) (target : ReplicaID) : RawNode :=
  n.enqueueLatestCheckpointControl target .checkpointOffer .offer

def durableCheckpointCovers (n : RawNode) (descriptor : CheckpointDescriptor) : Bool :=
  checkpointCertified n.durableCheckpoint &&
    descriptor.id == deriveCheckpointID descriptor.barrierTupleDigest descriptor.through &&
    !frontierRegressesExecution descriptor.through n.durableCheckpoint.descriptor.through

def handleCheckpointVote (n : RawNode) (sender : ReplicaID) (descriptor : CheckpointDescriptor)
    (vote : VoterAcknowledgement) : RawNode × Option Err :=
  if vote.voter ≠ sender || vote.attestedDigest ≠ descriptor then (n, some .checkpointMismatch)
  else if n.durableCheckpointCovers descriptor then
    ((n.enqueueLatestCheckpointCertificate sender).enqueueLatestCheckpointOffer sender, none)
  else match n.checkpointRound.filter fun round ↦ round.checkpoint.descriptor == descriptor with
    | none => (n, none)
    | some round =>
      if (round.votes.get? sender).elim false fun existing ↦ existing != vote then
        (n, some .checkpointMismatch)
      else
        let round := { round with votes := round.votes.insert sender vote }
        ({ n with checkpointRound := some round }.maybeCertifyCheckpoint, none)

/-- Takes a certified checkpoint of another replica: for the running round as it is, otherwise, if
it is an offer, to install it. -/
def handleCheckpointOffer (n : RawNode) (checkpoint : Checkpoint) (offer : Bool) :
    RawNode × Option Err :=
  let durable := n.durableCheckpoint
  let through := checkpoint.descriptor.through
  let localized := { checkpoint with compactedThrough := durable.compactedThrough }
  if !validateCheckpoint checkpoint n.confHistory then (n, some .invalidCheckpoint)
  else if checkpointCertified durable && durable.descriptor.id = checkpoint.descriptor.id then
    (n, none)
  else if !durable.compactedThrough.configs.isEmpty &&
      !frontierRegressesExecution through durable.compactedThrough then (n, none)
  else if checkpointCertified durable &&
      !frontierRegressesExecution through durable.descriptor.through then (n, none)
  else match n.checkpointRound.filter fun round ↦
      round.request.id == checkpoint.descriptor.id &&
        round.checkpoint.descriptor == checkpoint.descriptor with
    | some round =>
      let localized := { localized with
        applicationSnapshot := round.checkpoint.applicationSnapshot }
      if !validateCheckpoint localized n.confHistory then (n, some .invalidCheckpoint)
      else
        let round := { round with checkpoint := localized }
        ({ n with checkpointRound := some round }.proposeSnapshot .persistLocal localized, none)
    | none =>
      if !offer then (n, none)
      else if !validateCheckpoint localized n.confHistory then (n, some .invalidCheckpoint)
      else
        let round : CheckpointRound :=
          { barrier := checkpoint.descriptor.barrier, checkpoint := localized,
            request := ⟨checkpoint.descriptor.id, through⟩ }
        ({ n with executionPaused := true, checkpointRound := some round }.proposeSnapshot
          .install localized, none)

def handleCheckpointControl (n : RawNode) (m : Message) : RawNode × Option Err :=
  match m.control with
  | some (.vote descriptor vote) => n.handleCheckpointVote m.source descriptor vote
  | some (.certificate checkpoint) => n.handleCheckpointOffer checkpoint false
  | some (.offer checkpoint) => n.handleCheckpointOffer checkpoint true
  | none => (n, some .invalidCheckpoint)

/-- Whether something was folded beyond the compacted frontier. -/
def foldedAhead (n : RawNode) : Bool :=
  n.retired.entries.any fun entry ↦ (entry.2.folded :: entry.2.pendingFold).any fun inst ↦
    decide (executionFrontierLane n.durableCheckpoint.compactedThrough entry.1 < inst)

def noteReleased (n : RawNode) (refs : List InstanceRef) : RawNode :=
  refs.foldl (fun node ref ↦ node.note (.released ref)) n

/-- The conflict engine after a compaction: it knows the barrier, as an executed instance, and the
instances that stay. -/
def compactedEngine (barrier : InstanceRecord) (retained : List (InstanceRef × Instance)) :
    ConflictEngine :=
  retained.foldl (fun e entry ↦ e.apply none entry.2.record)
    (({} : ConflictEngine).apply none { barrier with status := .executed })

/-- Drops what a compacted checkpoint covers: resident instances, folded state and trackers are
rebuilt from the checkpoint and the instances above it. The barrier of a checkpoint is never the
zero reference. -/
def compactCheckpointMetadata (n : RawNode) : RawNode :=
  let checkpoint := n.durableCheckpoint
  if !checkpointCertified checkpoint then n
  else
    let barrierRef := checkpoint.descriptor.barrier
    let barrier : Instance :=
      { record := { ref := barrierRef, ballot := { replica := barrierRef.replica },
                    recordBallot := { replica := barrierRef.replica }, status := .executed,
                    deps := List.replicate checkpoint.descriptor.conf.voters.length 0,
                    kind := .checkpoint, protocolControl := checkpointBarrierPayload }
        phase := .committed }
    let retained := n.instances.entries.filter fun entry ↦
      !frontierCovers checkpoint.compactedThrough entry.1
    let covered := n.instances.entries.filter fun entry ↦
      frontierCovers checkpoint.compactedThrough entry.1 && entry.1 != barrierRef
    let n := (n.note (.compacted n.foldedAhead)).noteReleased (covered.map Prod.fst)
    let instances := covered.foldl (fun instances entry ↦ instances.erase entry.1) n.instances
    let instances := if instances.contains barrierRef then instances
      else instances.insert barrierRef barrier
    let through := checkpoint.compactedThrough.laneList.foldl
      (fun (through : FiniteMap InstanceLane InstanceNum) entry ↦
        through.insert ⟨entry.1, entry.2.replica⟩ entry.2.through) ∅
    let engine := compactedEngine ((n.record? barrierRef).getD barrier.record) retained
    let n := { n with instances := instances, engine := engine, retired := ∅
                      executed := ⟨[], through⟩, durableExecuted := ⟨[], through⟩
                      committedThrough := through }
    retained.foldl (fun node entry ↦
      let ref := entry.1
      let node := if Status.committed ≤ entry.2.record.status then node.noteCommitted ref else node
      if entry.2.record.status = .executed then
        { node with executed := node.executed.add ref
                    durableExecuted := node.durableExecuted.add ref }
      else node) n

/-! ### Messages -/

def messageCarriesValue (m : Message) : Bool :=
  match m.type with
  | .preAccept | .accept | .commit | .tryPreAccept => true
  | .prepareResp | .evidenceResp => decide (Status.preAccepted ≤ m.recordStatus)
  | .tryPreAcceptResp => (!m.reject && decide (Status.preAccepted ≤ m.recordStatus)) ||
      (m.reject && m.rejectReason == .acceptedTarget)
  | _ => false

def messageNeedsPayload (m : Message) : Bool :=
  m.type == .preAccept || m.type == .accept || m.type == .tryPreAccept

/-- What a fenced configuration refuses. -/
def admitWhileFenced (n : RawNode) (m : Message) : Option Err :=
  match n.membership.closedConfigs.get? m.ref.conf with
  | none => none
  | some closed =>
    if (n.findBootstrapControl m.ref).isSome then
      if m.type = .prepare then if m.ballot.isRecovery then none else some .bootstrapControl
      else if (m.type = .preAcceptResp || m.type = .prepareResp || m.type = .acceptResp) &&
          m.valueEmpty then none
      else match n.cfg.decodeControl m.ref m.protocolControl with
        | .invalid => some .bootstrapControl
        | _ => none
    else match closed.observedThrough.find? fun lane ↦ lane.1 == m.ref.replica with
      | none => some .bootstrapAdmission
      | some lane =>
        let same := (n.record? m.ref).elim false fun rec ↦ phaseMessageValueEqual rec m
        if lane.2 < m.ref.inst then
          some (if m.type = .commit then .bootstrapContradiction else .bootstrapAdmission)
        else match m.type with
          | .preAccept => if same then none else some .bootstrapAdmission
          | .accept => if m.ballot.isRecovery || same then none else some .bootstrapAdmission
          | .prepare => if m.ballot.isRecovery then none else some .bootstrapAdmission
          | .commit => if (n.record? m.ref).isSome then none else some .bootstrapContradiction
          | _ => none

/-- Whether the owner's PreAccept is of a clock domain this node does not run. -/
def preAcceptDomainRefused (n : RawNode) (m : Message) : Bool :=
  m.type == .preAccept && !untimedKind m.kind && m.ballot.isInitialFor m.ref.replica &&
    match timingDomainFromMessage m with
    | .toq => !n.cfg.toqEnabled
    | .logical => !n.cfg.timeOptimization
    | .untimed => n.cfg.toqEnabled

/-- The handler of a message's type. -/
def dispatch (n : RawNode) (m : Message) : RawNode × Option Err :=
  match m.type with
  | .preAccept => (n.deferPreAccept m).getD (n.handlePreAccept m false)
  | .preAcceptResp => n.handlePreAcceptResp runExecution m
  | .accept => n.handleAccept m
  | .acceptResp => n.handleAcceptResp runExecution m
  | .commit => n.handleCommit runExecution m
  | .prepare => n.handlePrepare m
  | .prepareResp => n.handlePrepareResp runExecution m
  | .tryPreAccept => n.handleTryPreAccept m
  | .tryPreAcceptResp => n.handleTryPreAcceptResp runExecution m
  | .evidence => n.handleEvidence m
  | .evidenceResp => (n.handleEvidenceResp runExecution m, none)
  | .checkpointVote | .checkpointCertificate | .checkpointOffer => n.handleCheckpointControl m

/-- What refuses a message before any handler sees it. -/
def stepRefusal (n : RawNode) (m : Message) (conf : ConfState) : Option Err :=
  if m.target ≠ n.id then some .messageRejected
  else match Message.validate conf m with
    | some err => some err
    | none =>
      if m.kind ≠ .unset && !m.isCheckpointControl &&
          !n.entryValueValidForConfiguration m.value m.ref conf then
        some (if (n.findBootstrapControl m.ref).isSome &&
            n.membership.closedConfigs.contains m.ref.conf then .bootstrapControl
          else .invalidMessage)
      else if !n.requireLocalVoterForConf conf then some .bootstrapEligibility
      else none

/-- Takes one message of the transport. -/
def step (n : RawNode) (m : Message) : RawNode × Option Err :=
  match n.lookupConf m.ref.conf with
  | none => (n, some .messageRejected)
  | some conf =>
    match n.stepRefusal m conf with
    | some err => (n, some err)
    | none =>
      if m.isCheckpointControl then n.handleCheckpointControl m
      else if frontierCovers n.durableCheckpoint.compactedThrough m.ref then
        (n.enqueueLatestCheckpointOffer m.source, some .messageRejected)
      else if n.payloadAbsent m.ref && messageNeedsPayload m then n.deferRecordLoadRequired m.ref m
      else match n.admitWhileFenced m with
        | some err => (n, some err)
        | none =>
          if (messageCarriesValue m && !n.messageTimingDomainEnabled m) ||
              n.preAcceptDomainRefused m then (n, some .messageRejected)
          else n.beginDrive.dispatch m

/-! ### Ticks -/

/-- Moves logical time by one tick (`Tick` in the source). -/
def advanceTick (n : RawNode) : RawNode × Option Err :=
  match checkedLogicalAdd n.tick 1 with
  | none => (n, some .logicalTimeExhausted)
  | some next =>
    let n := { n.beginDrive with
      tick := next, currentHardState := { n.currentHardState with tick := next } }
    let n := if 0 < n.cfg.recoveryTicks && next % n.cfg.recoveryTicks = 0 then
      n.rebroadcastCommits.retryCheckpointControl else n
    let (n, err) := n.processDeferredPreAccepts .logical next
    let (n, err) := fireTimers n.timers.length (n, err)
    let (n, barrierErr) := n.maybeScheduleCheckpointBarrier
    (n.runExecution, err.or barrierErr)

end RawNode

end MoreConsensus
