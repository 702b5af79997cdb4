import MoreConsensus.Bootstrap.Certificates

/-!
# Records, messages and controls of a plan

The durable record of a plan, the messages that voters exchange about it outside of the protocol,
and the commands that the protocol decides under the reserved references (`epaxos/bootstrap.go`).
The JSON encodings of payloads and commands are a parameter (`Codec`): a payload of one kind never
reads as another, a command is read back as written, and what is longer than `maxBootstrapPayload`
has no encoding. The digest is a parameter as in `Plan`; nothing digests to zero.
-/

set_option autoImplicit false

namespace MoreConsensus.Bootstrap

open Library

/-! ### Records -/

inductive BootstrapPhase
  | unspecified | preparing | prepared | localFenced | fenced | certified | targetReady | finalizing
  | activated | aborted
  deriving DecidableEq, Repr, Inhabited

/-- The number of a phase in the source, by which phases are compared. -/
def BootstrapPhase.number (phase : BootstrapPhase) : ℕ := phase.ctorIdx

inductive BootstrapOutcome
  | unspecified | activated | aborted | rejectedSuperseded | rejectedInvalid
  deriving DecidableEq, Repr, Inhabited

/-- The fence of a configuration as the plane keeps it. -/
structure ClosedConfig where
  conf : ConfState := {}
  frontier : BootstrapFrontier := {}
  reservations : ControlReservations := {}
  certificateDigest : StateDigest := 0
  deriving DecidableEq, Repr, Inhabited

/-- What the protocol reads of a fence. -/
def ClosedConfig.admission (closed : ClosedConfig) : MoreConsensus.ClosedConfig :=
  ⟨closed.frontier.lanes.map fun lane ↦ (lane.replica, lane.observedThrough)⟩

/-- One phase of a plan, as it is stored. -/
structure BootstrapRecord where
  plan : VoterPlan := {}
  phase : BootstrapPhase := .unspecified
  outcome : BootstrapOutcome := .unspecified
  localFence : LocalAdmissionFence := {}
  fenceQuorum : FenceQuorum := {}
  snapshotCertificate : SnapshotCertificate := {}
  targetReady : TargetReadyRecord := {}
  readyCertificate : ReadyCertificate := {}
  terminalRef : InstanceRef := {}
  closed : ClosedConfig := {}
  digest : StateDigest := 0
  deriving DecidableEq, Repr, Inhabited

structure MembershipResult where
  plan : BootstrapID := 0
  outcome : BootstrapOutcome := .unspecified
  exitRef : InstanceRef := {}
  certificateDigest : StateDigest := 0
  successor : ConfState := {}
  deriving DecidableEq, Repr, Inhabited

/-! ### Messages -/

inductive BootstrapMessageType
  | fenceRequest | fenceAck | fenceQuorum | snapshotVote | installProof | readyAck | readyQuery
  | readyResponse | activationNotice
  deriving DecidableEq, Repr, Inhabited

/-- What a message carries. -/
inductive Payload
  | empty
  | plan (plan : VoterPlan)
  | fence (fence : LocalAdmissionFence)
  | quorum (quorum : FenceQuorum)
  | vote (descriptor : SnapshotDescriptor) (acknowledgement : VoterAcknowledgement)
  | install (snapshot : SnapshotCertificate) (proof : VoterReadyProof)
  | acknowledgement (acknowledgement : VoterAcknowledgement)
  | ready (certificate : ReadyCertificate)
  | result (result : MembershipResult)
  /-- Bytes that read as none of these. -/
  | malformed (bytes : Bytes)
  deriving DecidableEq, Repr, Inhabited

structure BootstrapMessage where
  type : BootstrapMessageType := .fenceRequest
  cluster : ClusterID := 0
  plan : BootstrapID := 0
  sender : ReplicaID := 0
  senderIncarnation : ℕ := 0
  receiver : ReplicaID := 0
  baseID : ConfID := 0
  baseDigest : StateDigest := 0
  payload : Payload := .empty
  payloadDigest : StateDigest := 0
  deriving DecidableEq, Repr, Inhabited

def BootstrapMessage.entry (message : BootstrapMessage) : MoreConsensus.BootstrapMessage :=
  ⟨message.plan, message.sender, message.receiver, message.payloadDigest⟩

/-! ### Controls -/

/-- The source compares the digests of two plans, which stand for the plans. -/
def voterPlanEqual (a b : VoterPlan) : Bool := a = b

inductive MembershipOperation
  | prepare | activate | abort
  deriving DecidableEq, Repr, Inhabited

/-- A command that the protocol decides under a reserved reference. -/
structure MembershipCommand where
  operation : MembershipOperation := .prepare
  plan : VoterPlan := {}
  snapshot : SnapshotCertificate := {}
  ready : ReadyCertificate := {}
  fenceDigest : StateDigest := 0
  deriving DecidableEq, Repr, Inhabited

/-- The reference that is reserved for an operation. -/
def ControlReservations.refOf (refs : ControlReservations) : MembershipOperation → InstanceRef
  | .prepare => refs.prepare
  | .activate => refs.activate
  | .abort => refs.abort

def maxBootstrapPayload : ℕ := 1048576

/-- What the plane is built on. -/
structure Codec where
  domainDigest : String → Bytes → StateDigest
  encodePayload : Payload → Option Bytes
  encodeCommand : MembershipCommand → Option Bytes
  decodeCommand : Bytes → Option MembershipCommand
  digest_ne_zero : ∀ domain bytes, domainDigest domain bytes ≠ 0
  decode_encode : ∀ command bytes, encodeCommand command = some bytes →
    decodeCommand bytes = some command
  encode_length : ∀ command bytes, encodeCommand command = some bytes →
    bytes ≠ [] ∧ bytes.length ≤ maxBootstrapPayload

namespace Codec

variable (codec : Codec)

def digestBootstrapRecord (record : BootstrapRecord) : StateDigest :=
  codec.domainDigest "epaxos/bootstrap/record/v2"
    (appendVoterPlan record.plan ++
      [UInt8.ofNat record.phase.number, UInt8.ofNat record.outcome.ctorIdx] ++
      appendFixed record.localFence.digest ++ appendFixed record.fenceQuorum.digest ++
      appendFixed record.snapshotCertificate.digest ++
      appendFixed (digestVoterReadyProof codec.domainDigest record.targetReady.proof) ++
      appendFixed record.readyCertificate.digest ++ appendRef record.terminalRef ++
      appendConf record.closed.conf ++ appendFrontier record.closed.frontier ++
      appendReservations record.closed.reservations ++
      appendFixed record.closed.certificateDigest)

/-- What the queue of the node holds of a record. -/
def entry (record : BootstrapRecord) : MoreConsensus.BootstrapRecord where
  plan := record.plan.request.plan
  digest := record.digest
  canonical := codec.digestBootstrapRecord record
  acknowledgements := (record.snapshotCertificate.acknowledgements ++
    record.readyCertificate.acknowledgements).map fun ack ↦ (ack.voter.replica, ack.attestedDigest)

/-- A part of a record is valid if it is there, and otherwise empty. -/
def validatePart (present : Bool) (valid : Except Fault Unit) (zero : Bool) : Except Fault Unit :=
  if present then valid else refuseIf (!zero) .certificate

/-- The certificates of a record are valid, and belong together. -/
def validateRecordParts (record : BootstrapRecord) : Except Fault Unit := do
  let plan := record.plan
  let fence := record.localFence
  let snapshot := record.snapshotCertificate
  validatePart (fence.digest ≠ 0)
    (refuseIf (identityFor plan fence.voter.replica ≠ some fence.voter ||
      fence.plan ≠ plan.request.plan || fence.base ≠ plan.request.base ||
      fence.reservations ≠ plan.reservations ||
      decide (validateLocalAdmissionFence codec.domainDigest fence ≠ .ok ()) ||
      decide (validateBootstrapFrontier fence.frontier plan.request.base ≠ .ok ())) .certificate)
    (fence = {})
  validatePart (record.fenceQuorum.digest ≠ 0)
    (validateFenceQuorum codec.domainDigest plan record.fenceQuorum) (record.fenceQuorum = {})
  validatePart (snapshot.digest ≠ 0)
    (do
      validateSnapshotCertificate codec.domainDigest plan snapshot
      refuseIf (record.fenceQuorum.digest ≠ 0 &&
        snapshot.descriptor.fenceDigest ≠ record.fenceQuorum.digest) .certificate)
    (snapshot = {})
  validatePart (record.targetReady.plan ≠ 0)
    (refuseIf (record.targetReady.plan ≠ plan.request.plan || snapshot.digest = 0 ||
      decide (validateVoterReadyProof plan snapshot record.targetReady.proof ≠ .ok ()))
      .certificate)
    (record.targetReady = {})
  validatePart (record.readyCertificate.digest ≠ 0)
    (refuseIf (snapshot.digest = 0 || record.targetReady.plan ≠ plan.request.plan ||
      decide (validateReadyCertificate codec.domainDigest plan snapshot record.readyCertificate
        ≠ .ok ()) ||
      digestVoterReadyProof codec.domainDigest record.targetReady.proof ≠
        digestVoterReadyProof codec.domainDigest record.readyCertificate.proof) .certificate)
    (record.readyCertificate = {})

/-- The fence of a record belongs to its plan and its certificates. -/
def validateRecordClosed (record : BootstrapRecord) : Except Fault Unit :=
  let closed := record.closed
  if closed.conf ≠ {} then
    refuseIf (closed.conf ≠ record.plan.request.base ||
      closed.reservations ≠ record.plan.reservations ||
      decide (validateBootstrapFrontier closed.frontier record.plan.request.base ≠ .ok ()) ||
      (closed.certificateDigest ≠ 0 &&
        ((record.fenceQuorum.digest ≠ 0 && closed.certificateDigest ≠ record.fenceQuorum.digest) ||
          (record.snapshotCertificate.digest ≠ 0 && closed.certificateDigest ≠
            record.snapshotCertificate.descriptor.fenceDigest)))) .certificate
  else refuseIf (closed ≠ {}) .certificate

/-- A phase has what came before it, and only the last phases have an outcome. -/
def validateRecordPhase (record : BootstrapRecord) : Except Fault Unit := do
  let within := fun lowest highest : BootstrapPhase ↦
    lowest.number ≤ record.phase.number && record.phase.number ≤ highest.number
  refuseIf (record.phase = .localFenced && record.localFence.digest = 0) .certificate
  refuseIf (within .fenced .targetReady && record.fenceQuorum.digest = 0) .certificate
  refuseIf (within .certified .targetReady && record.snapshotCertificate.digest = 0) .certificate
  refuseIf (record.phase = .targetReady && record.targetReady.plan = 0) .certificate
  match record.phase with
  | .activated =>
    refuseIf (record.outcome ≠ .activated ||
      record.terminalRef ≠ record.plan.reservations.activate ||
      record.readyCertificate.digest = 0 || record.closed.conf ≠ record.plan.request.base ||
      record.closed.frontier ≠ record.snapshotCertificate.descriptor.frontier ||
      record.closed.certificateDigest ≠ record.snapshotCertificate.descriptor.fenceDigest) .control
  | .aborted =>
    refuseIf (record.outcome ≠ .aborted || record.terminalRef ≠ record.plan.reservations.abort)
      .control
  | _ => refuseIf (record.outcome ≠ .unspecified || record.terminalRef ≠ {}) .control

def validateBootstrapRecord (record : BootstrapRecord) : Except Fault Unit := do
  validateVoterPlan codec.domainDigest record.plan
  refuseIf (record.phase = .unspecified || record.digest ≠ codec.digestBootstrapRecord record)
    (.node .invalidConfig)
  codec.validateRecordParts record
  validateRecordClosed record
  validateRecordPhase record

def payloadDigest (payload : Bytes) : StateDigest :=
  codec.domainDigest "epaxos/bootstrap/payload/v1" payload

/-- The checks of an envelope, short of its authentication. -/
def validateBootstrapMessage (message : BootstrapMessage) : Except Fault Unit :=
  match codec.encodePayload message.payload with
  | none => .error .invalidMessage
  | some bytes =>
    refuseIf (message.cluster = 0 || message.plan = 0 || message.sender = 0 ||
      message.receiver = 0 || message.senderIncarnation = 0 || message.baseID = 0 ||
      message.baseDigest = 0 ||
      (message.payloadDigest ≠ 0 && message.payloadDigest ≠ codec.payloadDigest bytes))
      .invalidMessage

def buildBootstrapMessage (message : BootstrapMessage) : Except Fault BootstrapMessage := do
  codec.validateBootstrapMessage message
  return { message with
    payloadDigest := (codec.encodePayload message.payload).elim 0 codec.payloadDigest }

def encodeMembershipCommand (command : MembershipCommand) : Except Fault Bytes :=
  (codec.encodeCommand command).elim (.error .bounds) .ok

/-- Whether a command carries what its operation needs and nothing else. -/
def commandShape (command : MembershipCommand) : Bool :=
  match command.operation with
  | .prepare => command.snapshot.digest = 0 && command.ready.digest = 0 && command.fenceDigest = 0
  | .activate => command.snapshot.digest ≠ 0 && command.ready.digest ≠ 0 && command.fenceDigest ≠ 0
  | .abort => command.snapshot.digest = 0 && command.ready.digest = 0

def decodeMembershipCommand (control : Bytes) : Except Fault MembershipCommand :=
  match codec.decodeCommand control with
  | none => .error .control
  | some command => do
    validateVoterPlan codec.domainDigest command.plan
    refuseIf (!commandShape command) .control
    return command

def membershipCommandValidForRef (control : Bytes) (ref : InstanceRef) (conf : ConfState) : Bool :=
  match codec.decodeMembershipCommand control with
  | .error _ => false
  | .ok command => command.plan.request.base = conf &&
      ref = command.plan.reservations.refOf command.operation

/-- Whether the certificates of an activation are valid and belong to the fence it names. -/
def activationValid (command : MembershipCommand) : Bool :=
  decide (validateSnapshotCertificate codec.domainDigest command.plan command.snapshot = .ok ()) &&
    decide (validateReadyCertificate codec.domainDigest command.plan command.snapshot command.ready
      = .ok ()) && command.snapshot.descriptor.fenceDigest = command.fenceDigest

/-- What the protocol reads of a control under a reference. An activation that is not valid is
refused here; the source decides it and refuses to execute it. -/
def control (ref : InstanceRef) (bytes : Bytes) : MembershipControl :=
  match codec.decodeMembershipCommand bytes with
  | .error _ => .invalid
  | .ok command =>
    if ref ≠ command.plan.reservations.refOf command.operation then .invalid
    else match command.operation with
      | .prepare => .prepare command.plan.request.plan
      | .abort => .abort command.plan.request.plan
      | .activate => if !codec.activationValid command then .invalid
          else (newQuorum command.plan.successor.voters).elim .invalid
            (.activate command.plan.request.plan)

end Codec

/-! ### Collected acknowledgements -/

/-- The acknowledgements of one digest that a coordinator has collected
(`snapshotDigest` with `snapshotVotes`, and `readyDigest` with `readyVotes`). -/
structure Votes where
  digest : StateDigest := 0
  votes : FiniteMap ReplicaID VoterAcknowledgement := ∅

/-- One more acknowledgement, and the certificate when there is a slow quorum of them. An
acknowledgement is kept even when no certificate can be built. -/
def Votes.collect {γ : Type} (votes : Votes) (plan : VoterPlan)
    (build : List VoterAcknowledgement → Except Fault γ) (sender : ReplicaID) (digest : StateDigest)
    (acknowledgement : VoterAcknowledgement) : Votes × Except Fault (Option γ) :=
  if votes.digest ≠ 0 && votes.digest ≠ digest then (votes, .error .certificate)
  else match votes.votes.get? sender with
    | some existing => ({ votes with digest := digest },
        if existing = acknowledgement then .ok none else .error .certificate)
    | none =>
      let collected := votes.votes.insert sender acknowledgement
      (⟨digest, collected⟩,
        if collected.entries.length < slowQuorumSize plan.request.base.voters.length then .ok none
        else (build (collected.entries.map Prod.snd)).map some)

end MoreConsensus.Bootstrap
