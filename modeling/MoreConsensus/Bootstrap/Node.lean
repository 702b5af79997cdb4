import MoreConsensus.Bootstrap.Records
import MoreConsensus.Compaction
import MoreConsensus.Host

/-!
# Nodes with plans

The bootstrap calls of `epaxos/bootstrap.go`. A `VoterNode` is a node of the protocol with the plans
it knows and the fences it has put up; the plane acts on the node underneath through the calls that
`Host` lists for it, and nothing else. A call that changes the plan before a later step fails
returns the changed node, as in the source.

The queues of the node underneath carry records, frontiers and messages of the plane by name;
`queued` and `mail` have them whole. The execution of a control reaches the plans when the call that
executed it ends. An activation is compared with the node's own fence quorum where the plan takes
note of it, not where the protocol executes it.
-/

set_option autoImplicit false

namespace MoreConsensus.Bootstrap

open Library

/-- What a node keeps of one plan. -/
structure BootstrapState where
  record : BootstrapRecord := {}
  fenceAcks : FiniteMap ReplicaID LocalAdmissionFence := ∅
  durablePhase : BootstrapPhase := .unspecified
  durableDigest : StateDigest := 0
  snapshotVotes : Votes := {}
  readyVotes : Votes := {}

/-- What is done once a record is durable. -/
structure BootstrapDurabilityAction where
  plan : BootstrapID
  recordDigest : StateDigest
  message : Option BootstrapMessage := none
  unfence : Bool := false

structure VoterNode where
  codec : Codec
  raw : RawNode
  cluster : ClusterID := 0
  localIdentity : VoterIdentity := {}
  voterIdentities : FiniteMap ReplicaID VoterIdentity := ∅
  plans : FiniteMap BootstrapID BootstrapState := ∅
  byBase : FiniteMap ConfID BootstrapID := ∅
  closed : FiniteMap ConfID ClosedConfig := ∅
  durability : List BootstrapDurabilityAction := []
  /-- The records that were queued and not acknowledged, and the messages that were ever queued. -/
  queued : List BootstrapRecord := []
  mail : List BootstrapMessage := []

/-- The control that a recovery of a reserved exit may decide on its own. -/
def Codec.membershipAllNoneCommand (codec : Codec) (state : BootstrapState) :
    MembershipOperation → Option Bytes
  | .prepare => none
  | .activate =>
    if state.durableDigest ≠ state.record.digest || state.record.snapshotCertificate.digest = 0 ||
        state.record.readyCertificate.digest = 0 then none
    else codec.encodeCommand
      { operation := .activate, plan := state.record.plan
        snapshot := state.record.snapshotCertificate, ready := state.record.readyCertificate
        fenceDigest := state.record.fenceQuorum.digest }
  | .abort =>
    if state.durableDigest ≠ state.record.digest then none
    else codec.encodeCommand
      { operation := .abort, plan := state.record.plan
        fenceDigest := state.record.fenceQuorum.digest }

/-- The fence that a stored record stands for. -/
def BootstrapRecord.fence (record : BootstrapRecord) : Option ClosedConfig :=
  if record.phase.number < BootstrapPhase.localFenced.number || record.phase = .aborted then none
  else
    let closed := if record.closed.conf ≠ {} then record.closed
      else ⟨record.plan.request.base, record.localFence.frontier, record.plan.reservations, 0⟩
    if record.fenceQuorum.digest = 0 then some closed
    else some { closed with
      frontier := record.fenceQuorum.frontier, certificateDigest := record.fenceQuorum.digest }

/-- The state of a plan of which only the record is known. -/
def Codec.restoredState (codec : Codec) (record : BootstrapRecord) : BootstrapState :=
  { record := record, durablePhase := record.phase, durableDigest := record.digest
    snapshotVotes := { digest := if record.snapshotCertificate.digest = 0 then 0
      else digestSnapshotDescriptor codec.domainDigest record.snapshotCertificate.descriptor }
    readyVotes := { digest := if record.readyCertificate.digest = 0 then 0
      else digestVoterReadyProof codec.domainDigest record.readyCertificate.proof } }

namespace VoterNode

/-! ### The node underneath -/

/-- The reserved references of all plans, with the controls of their exits. -/
def reservedControls (node : VoterNode) : List (InstanceRef × Option Bytes) :=
  node.plans.entries.flatMap fun entry ↦
    [.prepare, .activate, .abort].map fun operation ↦
      (entry.2.record.plan.reservations.refOf operation,
        node.codec.membershipAllNoneCommand entry.2 operation)

/-- Tells the node underneath what is reserved and fenced. -/
def sync (node : VoterNode) : VoterNode :=
  let membership := { node.raw.membership with
    reservations := node.reservedControls
    closedConfigs := node.closed.mapValues ClosedConfig.admission }
  { node with raw := node.raw.reserve membership 0 }

/-- Keeps the state of a plan with a new record digest, and queues the record. -/
def enqueueBootstrapRecord (node : VoterNode) (state : BootstrapState) : VoterNode :=
  let record := { state.record with digest := node.codec.digestBootstrapRecord state.record }
  { node with
    plans := node.plans.insert record.plan.request.plan { state with record := record }
    queued := node.queued ++ [record]
    raw := node.raw.publish [node.codec.entry record] [] [] }.sync

def enqueueFrontierUpdate (node : VoterNode) (frontier : BootstrapFrontier) : VoterNode :=
  let evidence := node.codec.domainDigest "epaxos/bootstrap/frontier/v1" (appendFrontier frontier)
  { node with raw := node.raw.publish [] [⟨frontier.conf, evidence⟩] [] }

/-- Puts something off until the record of a plan, as it is now, is durable. -/
def enqueueBootstrapAfterAdvance (node : VoterNode) (plan : BootstrapID)
    (message : Option BootstrapMessage) (unfence : Bool) : VoterNode :=
  let digest := (node.plans.get? plan).elim 0 fun state ↦ state.record.digest
  { node with durability := node.durability ++ [⟨plan, digest, message, unfence⟩] }

def sendBootstrapMessage (node : VoterNode) (message : BootstrapMessage) : VoterNode :=
  { node with mail := node.mail ++ [message], raw := node.raw.publish [] [] [message.entry] }

def prepareBootstrapMessage (node : VoterNode) (type : BootstrapMessageType)
    (state : BootstrapState) (receiver : ReplicaID) (payload : Payload) :
    Except Fault BootstrapMessage := do
  refuseIf (!node.localIdentity.valid) .eligibility
  refuseIf (node.codec.encodePayload payload).isNone .bounds
  node.codec.buildBootstrapMessage
    { type := type, cluster := state.record.plan.request.cluster
      plan := state.record.plan.request.plan, sender := node.raw.id
      senderIncarnation := node.localIdentity.incarnation, receiver := receiver
      baseID := state.record.plan.request.base.id, baseDigest := state.record.plan.requestDigest
      payload := payload }

/-- The state of a plan, if this is the plan. -/
def planState (node : VoterNode) (plan : VoterPlan) : Option BootstrapState :=
  (node.plans.get? plan.request.plan).filter fun state ↦ voterPlanEqual state.record.plan plan

/-- A call that reports an error of its checks and otherwise goes on. -/
def attempt {α : Type} (node : VoterNode) (checks : Except Fault α)
    (act : α → VoterNode × Option Fault) : VoterNode × Option Fault :=
  match checks with
  | .error fault => (node, some fault)
  | .ok value => act value

/-! ### Preparing a plan -/

/-- The highest instance of a replica in memory, in any configuration. -/
def highestInstance (node : VoterNode) (replica : ReplicaID) : InstanceNum :=
  ((node.raw.instances.keys.filter fun ref ↦ ref.replica == replica).map InstanceRef.inst).foldl
    max 0

/-- The identities of the base voters, unless the request names its own. -/
def oldVoters (node : VoterNode) (request : PrepareVoterRequest) :
    Except Fault (List VoterIdentity) :=
  if !request.oldVoters.isEmpty then .ok request.oldVoters
  else (request.base.voters.mapM node.voterIdentities.get?).elim (.error .eligibility) .ok

/-- The plan of a request: its reservations follow what the node has allocated. -/
def proposedPlan (node : VoterNode) (request : PrepareVoterRequest) : VoterPlan :=
  let reserved := fun offset : ℕ ↦
    (⟨node.raw.id, node.raw.nextInstance + offset, request.base.id⟩ : InstanceRef)
  let plan : VoterPlan :=
    { request := request
      reservations := ⟨reserved 0, reserved 1, reserved 2⟩
      successor := ⟨request.base.id + 1,
        (request.base.voters ++ [request.target.replica]).insertionSort (· ≤ ·)⟩ }
  { plan with requestDigest := digestVoterPlan node.codec.domainDigest plan }

/-- A replica that was a voter before comes back as another incarnation, above all it has
proposed. -/
def validateTarget (node : VoterNode) (request : PrepareVoterRequest) : Except Fault Unit :=
  match node.voterIdentities.get? request.target.replica with
  | none => .ok ()
  | some previous => do
    refuseIf (request.target.incarnation ≤ previous.incarnation) .eligibility
    let floor := instanceSuccessor (node.highestInstance request.target.replica)
    refuseIf (floor.elim true fun floor ↦ request.targetAllocatorFloor < floor) .instanceExhausted

def validatePrepareRequest (node : VoterNode) (request : PrepareVoterRequest) :
    Except Fault VoterPlan := do
  let conf := node.raw.currentConf
  refuseIf (request.cluster = 0 || request.cluster ≠ node.cluster || request.plan = 0 ||
    request.base ≠ conf || conf.id = maxUint64 || 7 ≤ conf.voters.length ||
    request.target.replica = 0 || conf.contains request.target.replica ||
    request.targetAllocatorFloor = 0 || request.targetAllocatorFloor = maxUint64) .stale
  node.validateTarget request
  let identities ← node.oldVoters request
  let source := if request.source = 0 then node.raw.id else request.source
  let plan := node.proposedPlan { request with oldVoters := identities, source := source }
  refuseIf (node.raw.nextInstance = 0 || maxUint64 - 2 < node.raw.nextInstance) .instanceExhausted
  refuseIf (node.raw.instances.contains plan.reservations.prepare ||
    node.raw.instances.contains plan.reservations.activate ||
    node.raw.instances.contains plan.reservations.abort) .control
  validateVoterPlan node.codec.domainDigest plan
  refuseIf (node.raw.cfg.toqEnabled ≠ request.toq) .snapshot
  refuseIf (request.toq && (node.raw.toqActive.isNone ||
    request.toqClosedThrough ≠ node.raw.toqClosedThrough.getD 0)) .snapshot
  return plan

/-- The answer to a repeated request: the plan it has, if it is the same. -/
def replayPrepare (node : VoterNode) (existing : BootstrapState) (request : PrepareVoterRequest) :
    Except Fault VoterPlan := do
  let plan := existing.record.plan
  refuseIf (existing.record.phase = .aborted) .aborted
  let voters := if request.oldVoters.isEmpty then plan.request.oldVoters else request.oldVoters
  let source := if request.source = 0 then node.raw.id else request.source
  let candidate := { plan with request := { request with oldVoters := voters, source := source } }
  let candidate :=
    { candidate with requestDigest := digestVoterPlan node.codec.domainDigest candidate }
  refuseIf (!decide (validateVoterPlan node.codec.domainDigest candidate = .ok ()) ||
    !voterPlanEqual candidate plan) .busy
  return plan

/-! ### Executed controls -/

/-- The controls that were executed between two states of the node underneath, in order. -/
def executedControls (before after : RawNode) : List (InstanceRef × Bytes) :=
  (after.journal.drop before.journal.length).filterMap fun
    | .executed ref _ _ => ((after.record? ref).filter fun rec ↦ rec.kind == .membership).map
        fun rec ↦ (ref, rec.protocolControl)
    | _ => none

def restoreBootstrapRecord (node : VoterNode) (record : BootstrapRecord) :
    Except Fault VoterNode := do
  let request := record.plan.request
  node.codec.validateBootstrapRecord record
  match node.plans.get? request.plan with
  | some existing =>
    refuseIf (existing.record.digest ≠ record.digest) (.node .invalidConfig)
    return node
  | none =>
    refuseIf (record.phase ≠ .aborted &&
      (node.byBase.get? request.base.id).any fun other ↦ other ≠ request.plan)
      (.node .invalidConfig)
    let abort := record.plan.reservations.abort
    let floor := if abort.replica = node.raw.id && abort.inst < maxUint64 then abort.inst + 1 else 0
    let byBase := if record.phase = .aborted then node.byBase
      else node.byBase.insert request.base.id request.plan
    let restored := { node with
      plans := node.plans.insert request.plan (node.codec.restoredState record)
      byBase := byBase
      closed := record.fence.elim node.closed fun fence ↦ node.closed.insert fence.conf.id fence
      raw := node.raw.reserve node.raw.membership floor }
    return restored.sync

/-- The plan of an executed Prepare is prepared. -/
def applyPrepare (node : VoterNode) (plan : VoterPlan) : VoterNode :=
  let record : BootstrapRecord := { plan := plan, phase := .preparing }
  let record := { record with digest := node.codec.digestBootstrapRecord record }
  let known := if node.plans.contains plan.request.plan then .ok node
    else node.restoreBootstrapRecord record
  match known with
  | .error _ => node
  | .ok node => (node.planState plan).elim node fun state ↦
    if BootstrapPhase.prepared.number ≤ state.record.phase.number then node
    else node.enqueueBootstrapRecord
      { state with record := { state.record with phase := .prepared } }

/-- The plan of an executed Abort is aborted. The fence goes once this is durable. -/
def applyAbort (node : VoterNode) (ref : InstanceRef) (command : MembershipCommand) : VoterNode :=
  (node.planState command.plan).elim node fun state ↦
    if state.record.outcome ≠ .unspecified || (state.record.fenceQuorum.digest ≠ 0 &&
        command.fenceDigest ≠ state.record.fenceQuorum.digest) then node
    else (node.enqueueBootstrapRecord
      { state with
        record := { state.record with phase := .aborted, outcome := .aborted, terminalRef := ref } }
      ).enqueueBootstrapAfterAdvance command.plan.request.plan none true

/-- The plan of an executed Activate is activated, if the protocol has applied it. -/
def applyActivate (node : VoterNode) (ref : InstanceRef) (command : MembershipCommand) :
    VoterNode :=
  let request := command.plan.request
  let applied := (node.raw.record? ref).any fun rec ↦ rec.confChangeResult.outcome == .applied
  (node.planState command.plan).elim node fun state ↦
    if !applied || !node.codec.activationValid command || state.record.outcome ≠ .unspecified ||
        (state.record.fenceQuorum.digest ≠ 0 &&
          command.fenceDigest ≠ state.record.fenceQuorum.digest) then node
    else
      let closed : ClosedConfig :=
        ⟨request.base, command.snapshot.descriptor.frontier, command.plan.reservations,
          command.fenceDigest⟩
      let record := { state.record with
        phase := .activated, outcome := .activated, terminalRef := ref
        snapshotCertificate := command.snapshot
        targetReady := ⟨request.plan, command.ready.proof⟩
        readyCertificate := command.ready, closed := closed }
      let node := { node with
        voterIdentities := node.voterIdentities.insert request.target.replica request.target
        closed := node.closed.insert ref.conf closed }
      let node := node.enqueueBootstrapRecord { state with record := record }
      let result : MembershipResult :=
        ⟨request.plan, .activated, ref, command.ready.digest, command.plan.successor⟩
      match node.prepareBootstrapMessage .activationNotice { state with record := record }
          request.target.replica (.result result) with
      | .error _ => node
      | .ok notice => node.enqueueBootstrapAfterAdvance request.plan (some notice) false

/-- What an executed control does to the plans (`applyMembershipControl` in the source, short of
what the protocol does). -/
def applyMembershipControl (node : VoterNode) (entry : InstanceRef × Bytes) : VoterNode :=
  let (ref, control) := entry
  if !node.codec.membershipCommandValidForRef control ref (node.raw.confFor ref.conf) then node
  else match node.codec.decodeMembershipCommand control with
    | .error _ => node
    | .ok command => match command.operation with
      | .prepare => node.applyPrepare command.plan
      | .activate => node.applyActivate ref command
      | .abort => node.applyAbort ref command

/-- The node after a call of the node underneath, which may have executed controls. -/
def settle (node : VoterNode) (raw : RawNode) : VoterNode :=
  (executedControls node.raw raw).foldl applyMembershipControl { node with raw := raw }

/-! ### Calls of the coordinator -/

/-- Proposes a control; what the protocol underneath reports is passed on. -/
def proposeMembershipAt (node : VoterNode) (ref : InstanceRef) (control : Bytes) :
    VoterNode × Option Fault :=
  if !node.codec.membershipCommandValidForRef control ref (node.raw.confFor ref.conf) then
    (node, some .control)
  else match node.raw.call (.proposeMembershipAt ref control) with
    | (raw, none) => (node.settle raw, none)
    | (raw, some .bootstrapControl) => (node.settle raw, some .control)
    | (raw, some err) => (node.settle raw, some (.node err))

/-- The node with a new plan: its references are reserved and its record queued. -/
def registerPlan (node : VoterNode) (plan : VoterPlan) : VoterNode :=
  { node with
    byBase := node.byBase.insert plan.request.base.id plan.request.plan
    raw := node.raw.reserve node.raw.membership (plan.reservations.abort.inst + 1)
    }.enqueueBootstrapRecord { record := { plan := plan, phase := .preparing } }

/-- The node without a plan whose Prepare could not be proposed. -/
def withdrawPlan (node : VoterNode) (plan : VoterPlan) : VoterNode :=
  { node with
    plans := node.plans.erase plan.request.plan
    byBase := node.byBase.erase plan.request.base.id
    raw := { node.raw with
      nextInstance := plan.reservations.prepare.inst
      allocatorFloor := plan.reservations.prepare.inst } }.sync

/-- A new plan with the control that prepares it. -/
def newPlan (node : VoterNode) (request : PrepareVoterRequest) :
    Except Fault (VoterPlan × Bytes) := do
  refuseIf (node.byBase.contains node.raw.current || node.raw.pendingConf) .busy
  refuseIf (checkedLogicalDeadline node.raw.tick node.raw.cfg.retryTicks).isNone
    (.node .logicalTimeExhausted)
  let plan ← node.validatePrepareRequest request
  let control ← node.codec.encodeMembershipCommand { operation := .prepare, plan := plan }
  refuseIf (instanceSuccessor plan.reservations.abort.inst).isNone .instanceExhausted
  return (plan, control)

def prepareVoter (node : VoterNode) (request : PrepareVoterRequest) : VoterNode × Option Fault :=
  if !node.raw.requireLocalVoter then (node, some (.node .bootstrapEligibility))
  else if node.cluster = 0 then (node, some .eligibility)
  else match node.plans.get? request.plan with
    | some existing => node.attempt (node.replayPrepare existing request) fun _ ↦ (node, none)
    | none => node.attempt (node.newPlan request) fun (plan, control) ↦
        match (node.registerPlan plan).proposeMembershipAt plan.reservations.prepare control with
        | (node, none) => (node, none)
        | (node, some fault) => (node.withdrawPlan plan, some fault)

/-! ### Fences -/

/-- What this node holds of the lanes of a configuration. -/
def localLane (n : RawNode) (base : ConfState) (voter : ReplicaID) : BootstrapLaneFrontier :=
  let lane : InstanceLane := ⟨base.id, voter⟩
  let sparse := (n.instances.keys.filter fun ref ↦ laneFor ref = lane).map InstanceRef.inst
  { replica := voter, observedThrough := sparse.foldl max 0, committedThrough := n.committedOf lane
    executedThrough := n.executed.throughOf lane, sparse := sparse.insertionSort (· ≤ ·) }

def bootstrapLocalFrontier (n : RawNode) (base : ConfState) : Except Fault BootstrapFrontier := do
  let frontier : BootstrapFrontier := ⟨base.id, base.voters.map (localLane n base)⟩
  refuseIf (maxBootstrapSparseRefs <
    (frontier.lanes.map fun lane ↦ lane.sparse.length).sum) .bounds
  validateBootstrapFrontier frontier base
  return frontier

/-- A fence of this node for a plan, with the message that announces it. -/
def localFence (node : VoterNode) (state : BootstrapState) (plan : VoterPlan) :
    Except Fault (LocalAdmissionFence × BootstrapMessage) := do
  refuseIf (state.durablePhase.number < BootstrapPhase.prepared.number) .closure
  refuseIf (!node.localIdentity.valid ||
    identityFor plan node.raw.id ≠ some node.localIdentity) .eligibility
  let frontier ← bootstrapLocalFrontier node.raw plan.request.base
  let fence ← buildLocalAdmissionFence node.codec.domainDigest
    { plan := plan.request.plan, base := plan.request.base, voter := node.localIdentity
      reservations := plan.reservations, frontier := frontier }
  let message ← node.prepareBootstrapMessage .fenceAck state plan.reservations.prepare.replica
    (.fence fence)
  return (fence, message)

/-- Puts up a fence: nothing new of the base configuration is admitted from now on. -/
def closeWith (node : VoterNode) (state : BootstrapState) (closed : ClosedConfig) : VoterNode :=
  ({ node with closed := node.closed.insert closed.conf.id closed }.enqueueBootstrapRecord
    { state with record := { state.record with closed := closed } }
    ).enqueueFrontierUpdate closed.frontier

def beginVoterFence (node : VoterNode) (plan : VoterPlan) : VoterNode × Option Fault :=
  match node.planState plan with
  | none => (node, some .stale)
  | some state =>
    if BootstrapPhase.localFenced.number ≤ state.record.phase.number then (node, none)
    else node.attempt (node.localFence state plan) fun (fence, message) ↦
      let record := { state.record with phase := .localFenced, localFence := fence }
      let closed : ClosedConfig := ⟨plan.request.base, fence.frontier, plan.reservations, 0⟩
      ((node.closeWith { state with record := record } closed).enqueueBootstrapAfterAdvance
        plan.request.plan (some message) false, none)

/-- The references that a certified frontier covers, short of the exits of the plan. -/
def bootstrapClosureRefs (plan : VoterPlan) (frontier : BootstrapFrontier) :
    Except Fault (List InstanceRef) := do
  validateBootstrapFrontier frontier plan.request.base
  let covered := frontier.lanes.flatMap fun lane ↦
    (List.range (lane.observedThrough - lane.compactedExecutedThrough)).map fun offset ↦
      (⟨lane.replica, lane.compactedExecutedThrough + 1 + offset, plan.request.base.id⟩ :
        InstanceRef)
  return covered.filter fun ref ↦ ref ≠ plan.reservations.activate && ref ≠ plan.reservations.abort

/-- The messages with which a coordinator hands out a fence quorum. -/
def quorumMessages (node : VoterNode) (state : BootstrapState) (certificate : FenceQuorum) :
    Except Fault (List BootstrapMessage) :=
  let plan := state.record.plan
  if node.raw.id ≠ plan.reservations.prepare.replica then .ok []
  else (plan.request.base.voters.filter fun voter ↦ voter ≠ node.raw.id).mapM fun voter ↦
    node.prepareBootstrapMessage .fenceQuorum state voter (.quorum certificate)

/-- Takes a valid fence quorum, recovers what it covers and puts up its fence. -/
def adoptFenceQuorum (node : VoterNode) (state : BootstrapState) (certificate : FenceQuorum) :
    VoterNode × Option Fault :=
  let plan := state.record.plan
  let checks : Except Fault (List BootstrapMessage × List InstanceRef) := do
    refuseIf (state.record.phase.number < BootstrapPhase.prepared.number) .notFenced
    let messages ← node.quorumMessages state certificate
    let refs ← bootstrapClosureRefs plan certificate.frontier
    return (messages, refs)
  node.attempt checks fun (messages, refs) ↦
    match node.raw.call (.closeConfig refs) with
    | (raw, some err) => ({ node with raw := raw }, some (.node err))
    | (raw, none) =>
      let record := { state.record with phase := .fenced, fenceQuorum := certificate }
      let closed : ClosedConfig :=
        ⟨plan.request.base, certificate.frontier, plan.reservations, certificate.digest⟩
      (messages.foldl (fun node message ↦
          node.enqueueBootstrapAfterAdvance plan.request.plan (some message) false)
        ({ node with raw := raw }.closeWith { state with record := record } closed), none)

def applyFenceQuorum (node : VoterNode) (certificate : FenceQuorum) : VoterNode × Option Fault :=
  match node.plans.get? certificate.plan with
  | none => (node, some .stale)
  | some state =>
    node.attempt (validateFenceQuorum node.codec.domainDigest state.record.plan certificate)
      fun _ ↦
        if state.record.fenceQuorum.digest ≠ 0 then
          (node, if state.record.fenceQuorum.digest = certificate.digest then none
            else some .certificate)
        else node.adoptFenceQuorum state certificate

structure BootstrapClosureStatus where
  plan : BootstrapID
  complete : Bool := false
  missing : List InstanceRef := []
  retained : ℕ := 0
  deriving DecidableEq, Repr, Inhabited

/-- Whether an instance is in memory and executed. -/
def executedHere (n : RawNode) (ref : InstanceRef) : Bool :=
  (n.record? ref).any fun rec ↦ rec.status == .executed

def bootstrapClosure (node : VoterNode) (plan : VoterPlan) : BootstrapClosureStatus :=
  match (node.planState plan).filter fun state ↦ state.record.fenceQuorum.digest ≠ 0 with
  | none => { plan := plan.request.plan }
  | some state =>
    match bootstrapClosureRefs plan state.record.fenceQuorum.frontier with
    | .error _ => { plan := plan.request.plan }
    | .ok refs =>
      let missing := refs.filter fun ref ↦ !executedHere node.raw ref
      ⟨plan.request.plan, missing.isEmpty, missing, refs.length⟩

/-! ### The target -/

def recordTargetReady (node : VoterNode) (plan : VoterPlan) (proof : VoterReadyProof) :
    VoterNode × Option Fault :=
  match node.planState plan with
  | none => (node, some .stale)
  | some state =>
    let digest := digestVoterReadyProof node.codec.domainDigest
    let valid : Except Fault Unit := do
      refuseIf (state.record.snapshotCertificate.digest = 0) .snapshot
      validateVoterReadyProof plan state.record.snapshotCertificate proof
    node.attempt valid fun _ ↦
      if state.record.targetReady.plan ≠ 0 then
        (node, if state.record.targetReady.plan = plan.request.plan &&
          digest state.record.targetReady.proof = digest proof then none else some .snapshot)
      else
        let message : Except Fault BootstrapMessage := do
          let acknowledgement ← buildVoterAcknowledgement (digest proof) node.localIdentity
          node.prepareBootstrapMessage .readyAck state plan.reservations.prepare.replica
            (.acknowledgement acknowledgement)
        node.attempt message fun message ↦
          let record := { state.record with
            phase := .targetReady, targetReady := ⟨plan.request.plan, proof⟩ }
          ((node.enqueueBootstrapRecord { state with record := record }
            ).enqueueBootstrapAfterAdvance plan.request.plan (some message) false, none)

/-! ### The exits of a plan -/

/-- The two ways a plan ends. -/
inductive BootstrapExit
  | activate | abort
  deriving DecidableEq, Repr

/-- The control that activates a plan. -/
def activation (node : VoterNode) (state : BootstrapState) (plan : VoterPlan)
    (snapshot : SnapshotCertificate) (ready : ReadyCertificate) : Except Fault Bytes := do
  refuseIf (state.record.phase = .aborted) .aborted
  refuseIf (!(node.bootstrapClosure plan).complete) .closure
  refuseIf (decide (validateSnapshotCertificate node.codec.domainDigest plan snapshot ≠ .ok ()) ||
    snapshot.descriptor.fenceDigest ≠ state.record.fenceQuorum.digest ||
    (state.record.snapshotCertificate.digest ≠ 0 &&
      state.record.snapshotCertificate.digest ≠ snapshot.digest)) .snapshot
  refuseIf (
    decide (validateReadyCertificate node.codec.domainDigest plan snapshot ready ≠ .ok ()) ||
    (state.record.readyCertificate.digest ≠ 0 &&
      state.record.readyCertificate.digest ≠ ready.digest)) .certificate
  refuseIf (plan.reservations.activate.replica ≠ node.raw.id) .control
  node.codec.encodeMembershipCommand
    { operation := .activate, plan := plan, snapshot := snapshot, ready := ready
      fenceDigest := state.record.fenceQuorum.digest }

def activateVoter (node : VoterNode) (plan : VoterPlan) (snapshot : SnapshotCertificate)
    (ready : ReadyCertificate) : VoterNode × Option Fault :=
  match (node.planState plan).filter fun _ ↦ node.raw.currentConf = plan.request.base with
  | none => (node, some .stale)
  | some state =>
    node.attempt (node.activation state plan snapshot ready) fun control ↦
      let record := { state.record with
        phase := .finalizing, snapshotCertificate := snapshot
        targetReady := ⟨plan.request.plan, ready.proof⟩, readyCertificate := ready }
      (node.enqueueBootstrapRecord { state with record := record }).proposeMembershipAt
        plan.reservations.activate control

/-- The control that aborts a plan. -/
def abortion (node : VoterNode) (state : BootstrapState) (plan : VoterPlan) :
    Except Fault Bytes := do
  refuseIf (plan.reservations.abort.replica ≠ node.raw.id) .control
  refuseIf (state.durablePhase.number < BootstrapPhase.prepared.number) .closure
  node.codec.encodeMembershipCommand
    { operation := .abort, plan := plan, fenceDigest := state.record.fenceQuorum.digest }

def abortVoter (node : VoterNode) (plan : VoterPlan) : VoterNode × Option Fault :=
  match node.planState plan with
  | none => (node, some .stale)
  | some state =>
    if state.record.phase = .activated then (node, some .control)
    else if state.record.phase = .aborted then (node, none)
    else node.attempt (node.abortion state plan) fun control ↦
      (node.enqueueBootstrapRecord
        { state with record := { state.record with phase := .finalizing } }).proposeMembershipAt
          plan.reservations.abort control

/-- What a recovery of a reserved exit needs. -/
def recoverable (state : BootstrapState) : BootstrapExit → Except Fault Unit
  | .activate => do
    refuseIf (state.durablePhase.number < BootstrapPhase.prepared.number) .closure
    refuseIf (state.record.snapshotCertificate.digest = 0 ||
      state.record.readyCertificate.digest = 0) .snapshot
  | .abort => refuseIf (state.durablePhase.number < BootstrapPhase.prepared.number) .closure

def recoverVoterControl (node : VoterNode) (plan : VoterPlan) (exit : BootstrapExit) :
    VoterNode × Option Fault :=
  if !node.raw.requireLocalVoter then (node, some (.node .bootstrapEligibility))
  else match node.planState plan with
    | none => (node, some .stale)
    | some state => node.attempt (recoverable state exit) fun _ ↦
        let ref := match exit with
          | .activate => plan.reservations.activate
          | .abort => plan.reservations.abort
        match node.raw.call (.recoverVoterControl ref) with
        | (raw, none) => (node.settle raw, none)
        | (raw, some .bootstrapControl) => (node.settle raw, some .control)
        | (raw, some err) => (node.settle raw, some (.node err))

end VoterNode

end MoreConsensus.Bootstrap
