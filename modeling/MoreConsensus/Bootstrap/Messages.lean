import MoreConsensus.Bootstrap.Node

/-!
# Messages about plans

The voters of a plan send each other fences, votes and acknowledgements outside of the protocol
(`StepBootstrapAuthenticated` in `epaxos/bootstrap.go`), and act on their own records once these are
durable (`applyBootstrapDurability`). With the calls of `Node` this is all that can happen at a node
with plans (`VoterCall`).
-/

set_option autoImplicit false

namespace MoreConsensus.Bootstrap

open Library

namespace VoterNode

/-! ### Messages -/

def bootstrapMessageIdentity (state : BootstrapState) (message : BootstrapMessage) :
    Option VoterIdentity :=
  let plan := state.record.plan
  if message.type = .installProof && message.sender = plan.request.target.replica then
    some plan.request.target
  else identityFor plan message.sender

/-- The checks that every message of the plane passes first. -/
def admitBootstrap (node : VoterNode) (message : BootstrapMessage) (authenticated : VoterIdentity) :
    Except Fault BootstrapState := do
  refuseIf (authenticated.replica = 0 || authenticated.incarnation = 0 ||
    message.sender ≠ authenticated.replica ||
    message.senderIncarnation ≠ authenticated.incarnation) .invalidMessage
  refuseIf (message.receiver ≠ node.raw.id || message.cluster ≠ node.cluster) .invalidMessage
  match node.plans.get? message.plan with
  | none => .error .stale
  | some state =>
    let plan := state.record.plan
    refuseIf (decide (node.codec.validateBootstrapMessage message ≠ .ok ()) ||
      message.baseID ≠ plan.request.base.id || message.baseDigest ≠ plan.requestDigest)
      .invalidMessage
    refuseIf (bootstrapMessageIdentity state message ≠ some authenticated) .invalidMessage
    refuseIf (state.record.phase = .aborted) .aborted
    refuseIf (state.record.phase = .activated && message.type ≠ .readyQuery &&
      message.type ≠ .activationNotice) .control
    return state

/-- The checks of a fence of another voter. -/
def admitFence (node : VoterNode) (state : BootstrapState) (sender : ReplicaID)
    (fence : LocalAdmissionFence) : Except Fault Unit :=
  let plan := state.record.plan
  refuseIf (identityFor plan sender ≠ some fence.voter ||
    decide (validateLocalAdmissionFence node.codec.domainDigest fence ≠ .ok ()) ||
    fence.plan ≠ plan.request.plan || fence.base ≠ plan.request.base ||
    fence.reservations ≠ plan.reservations ||
    decide (validateBootstrapFrontier fence.frontier plan.request.base ≠ .ok ())) .invalidMessage

/-- A fence of another voter is collected; a slow quorum of them is applied. -/
def handleFenceAck (node : VoterNode) (state : BootstrapState) (sender : ReplicaID)
    (fence : LocalAdmissionFence) : VoterNode × Option Fault :=
  let plan := state.record.plan
  if state.record.fenceQuorum.digest ≠ 0 then
    (node, if state.record.fenceQuorum.fences.any fun certified ↦
        certified.voter.replica = sender && certified.digest = fence.digest then none
      else some .certificate)
  else match state.fenceAcks.get? sender with
    | some existing => (node, if existing.digest = fence.digest then none else some .certificate)
    | none =>
      let acks := state.fenceAcks.insert sender fence
      let node := { node with
        plans := node.plans.insert plan.request.plan { state with fenceAcks := acks } }
      if acks.entries.length < slowQuorumSize plan.request.base.voters.length then (node, none)
      else node.attempt
        (buildFenceQuorum node.codec.domainDigest plan (acks.entries.map Prod.snd))
        node.applyFenceQuorum

/-- The checks of a vote for a snapshot. -/
def admitSnapshotVote (node : VoterNode) (state : BootstrapState) (sender : ReplicaID)
    (descriptor : SnapshotDescriptor) (acknowledgement : VoterAcknowledgement) :
    Except Fault Unit := do
  let plan := state.record.plan
  let digest := digestSnapshotDescriptor node.codec.domainDigest descriptor
  refuseIf (acknowledgement.voter.replica ≠ sender ||
    decide (validateBootstrapAcknowledgement plan digest acknowledgement ≠ .ok ())) .invalidMessage
  validateSnapshotDescriptor node.codec.domainDigest plan descriptor
  refuseIf (descriptor.fenceDigest ≠ state.record.fenceQuorum.digest) .certificate

def collectSnapshot (node : VoterNode) (state : BootstrapState) (sender : ReplicaID)
    (descriptor : SnapshotDescriptor) (acknowledgement : VoterAcknowledgement) :
    Votes × Except Fault (Option SnapshotCertificate) :=
  state.snapshotVotes.collect state.record.plan
    (buildSnapshotCertificate node.codec.domainDigest state.record.plan descriptor) sender
    (digestSnapshotDescriptor node.codec.domainDigest descriptor) acknowledgement

/-- A vote for a snapshot is collected; a slow quorum of them is certified. -/
def handleSnapshotVote (node : VoterNode) (state : BootstrapState) (sender : ReplicaID)
    (descriptor : SnapshotDescriptor) (acknowledgement : VoterAcknowledgement) :
    VoterNode × Option Fault :=
  let plan := state.record.plan
  let digest := digestSnapshotDescriptor node.codec.domainDigest descriptor
  let certified := state.record.snapshotCertificate
  if certified.digest ≠ 0 then
    (node, if digestSnapshotDescriptor node.codec.domainDigest certified.descriptor = digest &&
        acknowledgement ∈ certified.acknowledgements then none else some .certificate)
  else
    let (votes, result) := node.collectSnapshot state sender descriptor acknowledgement
    let state := { state with snapshotVotes := votes }
    let voted := { node with plans := node.plans.insert plan.request.plan state }
    match result with
    | .error fault => (voted, some fault)
    | .ok none => (voted, none)
    | .ok (some certificate) =>
      let record := { state.record with phase := .certified, snapshotCertificate := certificate }
      (voted.enqueueBootstrapRecord { state with record := record }, none)

/-- The checks of what the target reports. -/
def admitInstallProof (node : VoterNode) (state : BootstrapState) (snapshot : SnapshotCertificate)
    (proof : VoterReadyProof) : Except Fault Unit := do
  let plan := state.record.plan
  refuseIf (decide (validateSnapshotCertificate node.codec.domainDigest plan snapshot ≠ .ok ()) ||
    state.record.fenceQuorum.digest = 0 ||
    snapshot.descriptor.fenceDigest ≠ state.record.fenceQuorum.digest ||
    decide (validateVoterReadyProof plan snapshot proof ≠ .ok ())) .invalidMessage
  refuseIf (state.record.snapshotCertificate.digest ≠ 0 &&
    state.record.snapshotCertificate.digest ≠ snapshot.digest) .snapshot

/-- The target has installed a snapshot: its certificate is adopted if there is none yet. -/
def handleInstallProof (node : VoterNode) (state : BootstrapState) (snapshot : SnapshotCertificate)
    (proof : VoterReadyProof) : VoterNode × Option Fault :=
  let plan := state.record.plan
  if state.record.snapshotCertificate.digest = 0 then
    let digest := digestSnapshotDescriptor node.codec.domainDigest snapshot.descriptor
    (node.enqueueBootstrapRecord
      { state with
        record := { state.record with phase := .certified, snapshotCertificate := snapshot }
        snapshotVotes := { state.snapshotVotes with digest := digest } }
      ).recordTargetReady plan proof
  else node.recordTargetReady plan proof

/-- The checks of an acknowledgement that the target is ready. -/
def admitReadyAck (node : VoterNode) (state : BootstrapState) (sender : ReplicaID)
    (acknowledgement : VoterAcknowledgement) : Except Fault Unit :=
  let digest := digestVoterReadyProof node.codec.domainDigest state.record.targetReady.proof
  refuseIf (acknowledgement.voter.replica ≠ sender || decide
    (validateBootstrapAcknowledgement state.record.plan digest acknowledgement ≠ .ok ()))
    .invalidMessage

def collectReady (node : VoterNode) (state : BootstrapState) (sender : ReplicaID)
    (acknowledgement : VoterAcknowledgement) : Votes × Except Fault (Option ReadyCertificate) :=
  let proof := state.record.targetReady.proof
  state.readyVotes.collect state.record.plan
    (buildReadyCertificate node.codec.domainDigest state.record.plan proof) sender
    (digestVoterReadyProof node.codec.domainDigest proof) acknowledgement

/-- An acknowledgement is collected; a slow quorum of them is certified. -/
def handleReadyAck (node : VoterNode) (state : BootstrapState) (sender : ReplicaID)
    (acknowledgement : VoterAcknowledgement) : VoterNode × Option Fault :=
  let plan := state.record.plan
  let certified := state.record.readyCertificate
  if certified.digest ≠ 0 then
    (node, if acknowledgement ∈ certified.acknowledgements then none else some .certificate)
  else
    let (votes, result) := node.collectReady state sender acknowledgement
    let state := { state with readyVotes := votes }
    let voted := { node with plans := node.plans.insert plan.request.plan state }
    match result with
    | .error fault => (voted, some fault)
    | .ok none => (voted, none)
    | .ok (some certificate) =>
      let record := { state.record with phase := .finalizing, readyCertificate := certificate }
      (voted.enqueueBootstrapRecord { state with record := record }, none)

/-- The answer to a query: the ready certificate, once its record is durable. -/
def readyResponse (node : VoterNode) (state : BootstrapState) (sender : ReplicaID) :
    Except Fault BootstrapMessage := do
  refuseIf (state.record.readyCertificate.digest = 0 ||
    state.durableDigest ≠ state.record.digest) .snapshot
  node.prepareBootstrapMessage .readyResponse state sender (.ready state.record.readyCertificate)

/-- The checks of a ready certificate that another voter sends. -/
def admitReadyResponse (node : VoterNode) (state : BootstrapState)
    (certificate : ReadyCertificate) : Except Fault Unit := do
  let record := state.record
  let plan := record.plan
  let digest := digestVoterReadyProof node.codec.domainDigest
  refuseIf (decide (validateReadyCertificate node.codec.domainDigest plan
    record.snapshotCertificate certificate ≠ .ok ())) .invalidMessage
  let matching := record.targetReady.plan = plan.request.plan &&
    digest record.targetReady.proof = digest certificate.proof
  refuseIf (record.readyCertificate.digest ≠ 0 &&
    (record.readyCertificate.digest ≠ certificate.digest || !matching)) .certificate
  refuseIf (record.readyCertificate.digest = 0 &&
    (if record.targetReady.plan ≠ 0 then !matching
      else decide (record.targetReady ≠ {}))) .certificate

/-- A ready certificate is adopted if there is none yet. -/
def handleReadyResponse (node : VoterNode) (state : BootstrapState)
    (certificate : ReadyCertificate) : VoterNode × Option Fault :=
  if state.record.readyCertificate.digest ≠ 0 then (node, none)
  else
    let digest := digestVoterReadyProof node.codec.domainDigest certificate.proof
    let record := { state.record with
      phase := .finalizing
      targetReady := ⟨state.record.plan.request.plan, certificate.proof⟩
      readyCertificate := certificate }
    let votes := { state.readyVotes with digest := digest }
    (node.enqueueBootstrapRecord { state with record := record, readyVotes := votes }, none)

/-- Whether a notice is of the activation that this node has seen itself. -/
def activationNoticed (state : BootstrapState) (result : MembershipResult) : Bool :=
  let plan := state.record.plan
  state.record.phase = .activated && result.plan = plan.request.plan &&
    result.outcome = .activated && result.exitRef = plan.reservations.activate &&
    result.certificateDigest = state.record.readyCertificate.digest &&
    result.successor = plan.successor

/-- Whether all that the fence quorum of a plan covers is executed. -/
def closureComplete (node : VoterNode) (state : BootstrapState) : Except Fault Unit :=
  refuseIf (!(node.bootstrapClosure state.record.plan).complete) .closure

/-- What one message of the plane does to its plan. -/
def handleBootstrap (node : VoterNode) (state : BootstrapState) (message : BootstrapMessage) :
    VoterNode × Option Fault :=
  match message.type, message.payload with
  | .fenceRequest, .plan plan =>
    if voterPlanEqual plan state.record.plan then node.beginVoterFence plan
    else (node, some .invalidMessage)
  | .fenceAck, .fence fence =>
    node.attempt (node.admitFence state message.sender fence) fun _ ↦
      node.handleFenceAck state message.sender fence
  | .fenceQuorum, .quorum quorum => node.applyFenceQuorum quorum
  | .snapshotVote, .vote descriptor acknowledgement =>
    node.attempt (node.closureComplete state) fun _ ↦
      node.attempt (node.admitSnapshotVote state message.sender descriptor acknowledgement) fun _ ↦
        node.handleSnapshotVote state message.sender descriptor acknowledgement
  | .snapshotVote, _ =>
    node.attempt (node.closureComplete state) fun _ ↦ (node, some .invalidMessage)
  | .installProof, .install snapshot proof =>
    node.attempt (node.closureComplete state) fun _ ↦
      node.attempt (node.admitInstallProof state snapshot proof) fun _ ↦
        node.handleInstallProof state snapshot proof
  | .installProof, _ =>
    node.attempt (node.closureComplete state) fun _ ↦ (node, some .invalidMessage)
  | .readyAck, payload =>
    if state.record.targetReady.plan ≠ state.record.plan.request.plan ||
        state.record.targetReady = {} then (node, some .snapshot)
    else match payload with
      | .acknowledgement acknowledgement =>
        node.attempt (node.admitReadyAck state message.sender acknowledgement) fun _ ↦
          node.handleReadyAck state message.sender acknowledgement
      | _ => (node, some .invalidMessage)
  | .readyQuery, _ =>
    node.attempt (node.readyResponse state message.sender) fun response ↦
      (node.sendBootstrapMessage response, none)
  | .readyResponse, .ready certificate =>
    node.attempt (node.admitReadyResponse state certificate) fun _ ↦
      node.handleReadyResponse state certificate
  | .activationNotice, .result result =>
    (node, if activationNoticed state result then none else some .control)
  | .activationNotice, _ => (node, some .control)
  | _, _ => (node, some .invalidMessage)

def stepBootstrapAuthenticated (node : VoterNode) (message : BootstrapMessage)
    (authenticated : VoterIdentity) : VoterNode × Option Fault :=
  node.attempt (node.admitBootstrap message authenticated) fun state ↦
    node.handleBootstrap state message

/-! ### Durable records -/

/-- A record of a plan is durable. -/
def noteDurable (node : VoterNode) (record : BootstrapRecord) : VoterNode :=
  match node.plans.get? record.plan.request.plan with
  | none => node
  | some state =>
    if record.phase.number < state.durablePhase.number then node
    else
      let state := { state with durablePhase := record.phase, durableDigest := record.digest }
      { node with plans := node.plans.insert record.plan.request.plan state }

/-- Does what was put off until a record was durable. -/
def discharge (node : VoterNode) (action : BootstrapDurabilityAction) : VoterNode :=
  let node := match (node.plans.get? action.plan).filter fun _ ↦ action.unfence with
    | none => node
    | some state =>
      let base := state.record.plan.request.base.id
      { node with closed := node.closed.erase base, byBase := node.byBase.erase base }
  action.message.elim node node.sendBootstrapMessage

def applyBootstrapDurability (node : VoterNode) (records : List BootstrapRecord) : VoterNode :=
  let acked := fun action : BootstrapDurabilityAction ↦ records.any fun record ↦
    record.plan.request.plan = action.plan && record.digest = action.recordDigest
  let node := records.foldl noteDurable node
  ((node.durability.filter acked).foldl discharge
    { node with durability := node.durability.filter fun action ↦ !acked action }).sync

/-! ### Calls -/

/-- What can happen at a node with plans. -/
inductive VoterCall
  /-- A call of the node underneath. -/
  | node (call : Call)
  | prepareVoter (request : PrepareVoterRequest)
  | beginVoterFence (plan : VoterPlan)
  | applyFenceQuorum (certificate : FenceQuorum)
  | recordTargetReady (plan : VoterPlan) (proof : VoterReadyProof)
  | activateVoter (plan : VoterPlan) (snapshot : SnapshotCertificate) (ready : ReadyCertificate)
  | abortVoter (plan : VoterPlan)
  | recoverVoterControl (plan : VoterPlan) (exit : BootstrapExit)
  | stepBootstrap (message : BootstrapMessage) (authenticated : VoterIdentity)

/-- A call of the node underneath that is not one of the plane. An acknowledged batch makes the
records durable that it has. -/
def callNode (node : VoterNode) : Call → VoterNode × Option Fault
  | .reserve .. | .publish .. | .proposeMembershipAt .. | .closeConfig _ | .recoverVoterControl _ =>
    (node, none)
  | .advance rd =>
    match node.raw.call (.advance rd) with
    | (_, some err) => (node, some (.node err))
    | (raw, none) =>
      let acked := node.queued.take rd.bootstrapRecords.length
      let rest := node.queued.drop rd.bootstrapRecords.length
      (({ node with queued := rest }.settle raw).applyBootstrapDurability acked, none)
  | call =>
    match node.raw.call call with
    | (raw, err) => (node.settle raw, err.map .node)

def call (node : VoterNode) : VoterCall → VoterNode × Option Fault
  | .node call => node.callNode call
  | .prepareVoter request => node.prepareVoter request
  | .beginVoterFence plan => node.beginVoterFence plan
  | .applyFenceQuorum certificate => node.applyFenceQuorum certificate
  | .recordTargetReady plan proof => node.recordTargetReady plan proof
  | .activateVoter plan snapshot ready => node.activateVoter plan snapshot ready
  | .abortVoter plan => node.abortVoter plan
  | .recoverVoterControl plan exit => node.recoverVoterControl plan exit
  | .stepBootstrap message authenticated => node.stepBootstrapAuthenticated message authenticated

def run (node : VoterNode) (calls : List VoterCall) : VoterNode :=
  calls.foldl (fun node call ↦ (node.call call).1) node

/-- A batch is taken and acknowledged whole. -/
def flush (node : VoterNode) : VoterNode :=
  let taken := (node.call (.node .ready)).1
  (taken.call (.node (.advance taken.raw.frozenReady))).1

/-- A node as it starts: with the identities of its configuration, and the plans it has stored. -/
def boot (codec : Codec) (cluster : ClusterID) (localIdentity : VoterIdentity)
    (identities : List VoterIdentity) (raw : RawNode) (records : List BootstrapRecord) :
    Except Fault VoterNode :=
  records.foldlM restoreBootstrapRecord
    { codec := codec, raw := raw, cluster := cluster, localIdentity := localIdentity
      voterIdentities := identities.foldl
        (fun known identity ↦ known.insert identity.replica identity) ∅ }

/-- What a node with plans can come to: it starts from its storage, and is called. -/
inductive Reachable : VoterNode → Prop
  | boot {codec : Codec} {cluster : ClusterID} {localIdentity : VoterIdentity}
      {identities : List VoterIdentity} {id : ReplicaID} {cfg : Config} {base : VoterSet}
      {storage : Storage} {raw : RawNode} {records : List BootstrapRecord} {node : VoterNode}
      (hraw : RawNode.newRawNode id cfg base storage = some raw)
      (hcontrol : cfg.decodeControl = codec.control)
      (hboot : VoterNode.boot codec cluster localIdentity identities raw records = .ok node) :
      Reachable node
  | call {node : VoterNode} (hnode : Reachable node) (call : VoterCall) :
      Reachable (node.call call).1

theorem Reachable.flush {node : VoterNode} (hnode : Reachable node) : Reachable node.flush :=
  (hnode.call _).call _

theorem Reachable.run {node : VoterNode} (hnode : Reachable node) (calls : List VoterCall) :
    Reachable (node.run calls) := by
  induction calls generalizing node with
  | nil => exact hnode
  | cons c rest ih => exact ih (hnode.call c)

end VoterNode

end MoreConsensus.Bootstrap
