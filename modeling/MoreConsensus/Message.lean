import MoreConsensus.Checkpoint

/-!
# Transport messages

`epaxos/message.go`: the wire value exchanged by replicas and the envelope checks a replica makes
before it looks at its own state. `Validate` is cut here into the blocks it consists of, in their
order; `Message.validate` reports the error of the first that fails. Checksums and incarnations are
left out: the model has one incarnation of each voter and honest links. The payload of a checkpoint
control message is the control value it encodes.
-/

set_option autoImplicit false

namespace MoreConsensus

inductive MessageType
  | preAccept | preAcceptResp | accept | acceptResp | commit | prepare | prepareResp
  | tryPreAccept | tryPreAcceptResp | evidence | evidenceResp
  | checkpointVote | checkpointCertificate | checkpointOffer
  deriving DecidableEq, Repr, Inhabited

inductive RejectReason
  | none | staleBallot | committedConflict | uncommittedConflict | acceptedTarget
  deriving DecidableEq, Repr, Inhabited

/-- The sentinel errors of the package that the modelled functions return. -/
inductive Err
  | invalidConfig | invalidMessage | messageRejected | toqConfigUnavailable | toqClockRollback
  | toqTimestampOverflow | logicalTimeExhausted | deferredQueueFull | deferredRecordLoadFull
  | unrequestedRecordLoad | invalidRecord | residentInstancesExceeded | ballotExhausted
  | instanceExhausted | unknownInstance | invalidReady | invalidFootprint | bootstrapControl
  | bootstrapEligibility | bootstrapAdmission | bootstrapContradiction | invalidCheckpoint
  | unrequestedCheckpoint | checkpointMismatch | voterCertificateRequired | pendingConfChange
  deriving DecidableEq, Repr, Inhabited

/-- The wire-level transport value. -/
structure Message where
  type : MessageType := .preAccept
  source : ReplicaID := 0
  target : ReplicaID := 0
  ref : InstanceRef := {}
  processAt : ℕ := 0
  toq : Bool := false
  ballot : Ballot := {}
  recordBallot : Ballot := {}
  seq : ℕ := 0
  deps : List InstanceNum := []
  acceptSeq : ℕ := 0
  acceptDeps : List InstanceNum := []
  acceptEvidence : List AcceptEvidence := []
  ignoreDependency : InstanceRef := {}
  kind : EntryKind := .unset
  confChange : ConfChange := {}
  protocolControl : Bytes := []
  command : Command := {}
  reject : Bool := false
  rejectReason : RejectReason := .none
  rejectHint : Ballot := {}
  conflictRef : InstanceRef := {}
  conflictStatus : Status := .none
  fastPathEligible : Bool := false
  depsCommitted : List ReplicaID := []
  recordStatus : Status := .none
  control : Option CheckpointControl := none
  deriving BEq, ReflBEq, LawfulBEq, Repr, Inhabited

instance : DecidableEq Message := instDecidableEqOfLawfulBEq

def Message.attributes (m : Message) : Attributes := ⟨m.seq, m.deps⟩

def Message.value (m : Message) : EntryValue :=
  ⟨m.kind, m.command, m.confChange, m.protocolControl⟩

/-- The Accept-Deps evidence of a message, if it carries any. -/
def Message.acceptAttributes (m : Message) : Option Attributes :=
  if m.acceptSeq = 0 || m.acceptDeps.isEmpty then none else some ⟨m.acceptSeq, m.acceptDeps⟩

def timingDomainFromMessage (m : Message) : TimingDomain :=
  if m.toq then .toq else if m.processAt ≠ 0 then .logical else .untimed

/-- The record a recovery response reports. -/
def recordFromMessage (m : Message) : InstanceRecord :=
  { ref := m.ref, ballot := m.ballot, recordBallot := m.recordBallot, status := m.recordStatus,
    seq := m.seq, deps := m.deps, acceptSeq := m.acceptSeq, acceptDeps := m.acceptDeps,
    acceptEvidence := m.acceptEvidence, kind := m.kind, command := m.command,
    confChange := m.confChange, protocolControl := m.protocolControl,
    fastPathEligible := m.fastPathEligible, processAt := m.processAt,
    timingDomain := timingDomainFromMessage m }

def recordMessageValueEqual (rec : InstanceRecord) (m : Message) : Bool :=
  rec.value == m.value

namespace Message

variable (conf : ConfState) (m : Message)

def isCheckpointControl : Bool :=
  m.type == .checkpointVote || m.type == .checkpointCertificate || m.type == .checkpointOffer

def isResponse : Bool :=
  m.type == .preAcceptResp || m.type == .acceptResp || m.type == .prepareResp ||
    m.type == .tryPreAcceptResp || m.type == .evidenceResp

def isAcceptedTarget : Bool := m.type == .tryPreAcceptResp && m.rejectReason == .acceptedTarget

def valueEmpty : Bool :=
  m.kind == .unset && commandEmpty m.command && m.confChange == {} && m.protocolControl.isEmpty

def depsAllZero : Bool := m.deps.all (· == 0)

def hasAcceptMetadata : Bool :=
  m.acceptSeq != 0 || !m.acceptDeps.isEmpty || !m.acceptEvidence.isEmpty

def validBallot (ballot : Ballot) : Bool :=
  ballot == {} || (ballot.replica != 0 && conf.contains ballot.replica)

def validRef (ref : InstanceRef) : Bool :=
  ref.replica != 0 && ref.inst != 0 && ref.conf == conf.id && conf.contains ref.replica

/-- The configuration and reference of the envelope. -/
def validEnvelope : Bool :=
  !conf.voters.isEmpty && decide (conf.voters.length ≤ 7) && !conf.voters.contains 0 &&
    decide (conf.voters.Pairwise (· < ·)) && conf.id != 0 && m.ref.replica != 0 &&
    m.ref.inst != 0 && m.ref.conf != 0 && m.ref.conf == conf.id && m.source != 0 && m.target != 0

/-- Sender, receiver and owner are voters. -/
def validParties : Bool :=
  conf.contains m.source && conf.contains m.target && conf.contains m.ref.replica

def validValueAndBallots : Bool :=
  (isCheckpointControl m ||
      entryValueCanonical m.kind m.command m.confChange m.protocolControl) &&
    !(m.kind == .noop && (m.processAt != 0 || m.toq)) &&
    validBallot conf m.ballot && validBallot conf m.recordBallot && validBallot conf m.rejectHint &&
    !(m.type != .evidenceResp && m.ballot != {} && m.recordBallot != {} &&
      m.ballot.less m.recordBallot) &&
    m.ballot != {}

/-- A control message carries nothing but its control value. -/
def validCheckpointControl : Bool :=
  m.kind == .checkpoint && commandEmpty m.command && m.confChange == {} && m.recordBallot == {} &&
    m.seq == 0 && m.deps.isEmpty && !hasAcceptMetadata m && m.processAt == 0 && !m.toq &&
    !m.reject && m.rejectHint == {} && m.rejectReason == .none && m.conflictRef == {} &&
    m.conflictStatus == .none && m.recordStatus == .none && !m.fastPathEligible &&
    m.depsCommitted.isEmpty && m.ignoreDependency == {} &&
    match m.type, m.control with
    | .checkpointVote, some (.vote descriptor vote) =>
      descriptor.id != {} && vote.voter == m.source && vote.attestedDigest == descriptor
    | .checkpointCertificate, some (.certificate checkpoint) => checkpointCertified checkpoint
    | .checkpointOffer, some (.offer checkpoint) =>
      checkpointCertified checkpoint && !checkpoint.applicationSnapshot.isEmpty
    | _, _ => false

/-- Requests come from the replica that owns their ballot. -/
def validSender : Bool :=
  match m.type with
  | .preAccept =>
    if m.ballot.isInitialFor m.ref.replica then m.source == m.ref.replica
    else m.ballot.isRecovery && m.source == m.ballot.replica
  | .accept | .prepare | .tryPreAccept | .evidence => m.source == m.ballot.replica
  | _ => true

def validConflict : Bool :=
  let conflictPresent := m.conflictRef != {}
  !(conflictPresent && !validRef conf m.conflictRef) &&
    (if m.type == .evidence || m.type == .evidenceResp then conflictPresent
      else !(conflictPresent && (m.type != .tryPreAcceptResp || !m.reject))) &&
    !(m.ignoreDependency != {} &&
      (m.type != .tryPreAccept || m.reject || !validRef conf m.ignoreDependency)) &&
    !(isResponse m && !m.reject && m.target != m.ballot.replica)

def validRejectReason : Bool :=
  let conflictPresent := m.conflictRef != {}
  if m.reject then
    isResponse m && m.type != .evidenceResp &&
      (if m.type != .tryPreAcceptResp then
        m.rejectReason == .none && !conflictPresent && m.conflictStatus == .none
      else match m.rejectReason with
        | .none | .staleBallot =>
          m.rejectHint != {} && !conflictPresent && m.conflictStatus == .none
        | .committedConflict =>
          conflictPresent && decide (Status.committed ≤ m.conflictStatus) && m.rejectHint == {}
        | .uncommittedConflict =>
          conflictPresent && (m.conflictStatus == .preAccepted || m.conflictStatus == .accepted) &&
            m.rejectHint == {}
        | .acceptedTarget => !conflictPresent && m.conflictStatus == .none && m.rejectHint == {})
  else m.rejectReason == .none && m.rejectHint == {} &&
    (m.type == .evidence || m.type == .evidenceResp || m.conflictStatus == .none)

def validTOQ : Bool :=
  if m.toq then
    if m.type == .preAccept && m.ballot.isInitialFor m.ref.replica then
      m.source == m.ref.replica && m.recordBallot == {} && m.recordStatus == .none
    else match m.type with
      | .accept | .commit | .prepareResp | .tryPreAccept | .evidenceResp => true
      | .tryPreAcceptResp => m.reject && m.rejectReason == .acceptedTarget
      | _ => false
  else true

def validWidth : Bool :=
  if !m.reject && (m.type == .preAccept || m.type == .preAcceptResp || m.type == .accept ||
      m.type == .commit || m.type == .prepareResp || m.type == .tryPreAccept ||
      m.type == .tryPreAcceptResp || m.type == .evidenceResp) then
    if m.type == .preAccept && m.toq && m.ballot.isInitialFor m.ref.replica then
      m.seq == 0 && m.deps.isEmpty
    else m.deps.length == conf.voters.length
  else true

def validSeq : Bool :=
  m.reject || match m.type with
    | .preAccept => m.toq || m.seq != 0
    | .accept | .commit | .tryPreAccept | .preAcceptResp => m.seq != 0
    | .tryPreAcceptResp => m.seq != 0 && m.recordStatus == .preAccepted
    | .prepareResp | .evidenceResp => !(decide (Status.preAccepted ≤ m.recordStatus) && m.seq == 0)
    | _ => true

/-- Evidence entries name voters, and two entries of one sender agree. -/
def validEvidenceEntries : List AcceptEvidence → Bool
  | [] => true
  | entry :: rest =>
    conf.contains entry.sender && entry.seq != 0 && entry.deps.length == conf.voters.length &&
      rest.all (fun other ↦ other.sender != entry.sender || other == entry) &&
      validEvidenceEntries rest

def validAcceptMetadata : Bool :=
  ((m.acceptSeq == 0) == m.acceptDeps.isEmpty) &&
    (m.acceptDeps.isEmpty || m.acceptDeps.length == conf.voters.length) &&
    decide (m.acceptEvidence.length ≤ conf.voters.length) &&
    validEvidenceEntries conf m.acceptEvidence &&
    (match m.type with
      | .accept | .acceptResp | .commit | .prepareResp | .evidenceResp => true
      | .tryPreAcceptResp =>
        !(hasAcceptMetadata m && (!m.reject || m.rejectReason != .acceptedTarget))
      | _ => !hasAcceptMetadata m) &&
    !((m.type == .prepareResp || m.type == .evidenceResp) &&
      decide (m.recordStatus < Status.accepted) && hasAcceptMetadata m)

def validProcessAt : Bool :=
  m.processAt == 0 || match m.type with
    | .preAccept | .accept | .commit | .prepareResp | .tryPreAccept | .tryPreAcceptResp
    | .evidenceResp => true
    | _ => false

def validFastPathEligible : Bool :=
  (!m.fastPathEligible || match m.type with
    | .preAcceptResp => !m.reject && m.recordStatus == .none
    | .prepareResp | .evidenceResp => !m.reject && m.recordStatus == .preAccepted &&
        m.recordBallot == { replica := m.ref.replica }
    | _ => false) &&
    (m.depsCommitted.isEmpty ||
      (m.type == .preAcceptResp && !m.reject && m.recordStatus == .none))

/-- The fields of a rejection. -/
def validRejection : Bool :=
  !m.fastPathEligible && m.depsCommitted.isEmpty &&
    (isAcceptedTarget m || (m.processAt == 0 && !m.toq)) && m.ignoreDependency == {} &&
    (if isAcceptedTarget m then
      m.ballot.isRecovery && m.target == m.ballot.replica && m.rejectHint == {} &&
        m.conflictRef == {} && m.conflictStatus == .none && m.recordBallot != {} &&
        m.recordStatus == .accepted && m.seq != 0 && m.deps.length == conf.voters.length
    else
      m.deps.length == conf.voters.length && depsAllZero m && m.recordBallot == {} && m.seq == 0 &&
        valueEmpty m && m.recordStatus == .none && !hasAcceptMetadata m &&
        match m.type with
        | .preAcceptResp | .acceptResp | .prepareResp =>
          m.rejectReason == .none && m.rejectHint != {} && m.ballot == m.rejectHint
        | .tryPreAcceptResp =>
          match m.rejectReason with
          | .staleBallot => m.rejectHint != {} && m.ballot == m.rejectHint
          | .committedConflict | .uncommittedConflict => m.rejectHint == {}
          | _ => false
        | _ => false)

/-- The record a recovery response reports is empty or complete. -/
def validReport : Bool :=
  if m.recordStatus == .none then
    m.recordBallot == {} && m.seq == 0 && depsAllZero m && valueEmpty m && !hasAcceptMetadata m &&
      !m.fastPathEligible
  else m.recordBallot != {} && m.seq != 0

/-- The fields of a message that is not a rejection. -/
def validFields : Bool :=
  (match m.type with
    | .preAccept => m.recordBallot == {} && m.recordStatus == .none && !m.fastPathEligible &&
        m.depsCommitted.isEmpty
    | .preAcceptResp => m.recordBallot == {} && m.recordStatus == .none && valueEmpty m &&
        !hasAcceptMetadata m
    | .accept => m.recordStatus == .none && m.recordBallot == {}
    | .acceptResp => m.recordStatus == .accepted && m.recordBallot != {} &&
        m.recordBallot == m.ballot && m.seq != 0 && m.deps.length == conf.voters.length &&
        valueEmpty m
    | .commit => m.recordStatus == .none && m.recordBallot != {}
    | .prepare => m.ballot.isRecovery && m.recordBallot == {} && m.recordStatus == .none &&
        m.seq == 0 && m.deps.isEmpty && valueEmpty m && !hasAcceptMetadata m &&
        !m.fastPathEligible && m.depsCommitted.isEmpty
    | .prepareResp => m.ballot.isRecovery && validReport m
    | .tryPreAccept => m.ballot.isRecovery && m.recordStatus == .none && m.recordBallot == {}
    | .tryPreAcceptResp => m.recordStatus == .preAccepted && m.recordBallot == {} && valueEmpty m
    | .evidence => m.recordBallot == {} && m.seq == 0 && m.deps.isEmpty && valueEmpty m &&
        m.recordStatus == .none && !hasAcceptMetadata m && !m.fastPathEligible
    | .evidenceResp => validReport m
    | _ => true) &&
    m.depsCommitted.all conf.contains

/-- The envelope checks of the source; `none` when the message passes them. -/
def validate : Option Err :=
  if !validEnvelope conf m then some .invalidMessage
  else if !validParties conf m then some .messageRejected
  else if !validValueAndBallots conf m then some .invalidMessage
  else if isCheckpointControl m then
    if validCheckpointControl m then none else some .invalidMessage
  else if !(validSender m && validConflict conf m && validRejectReason m && validTOQ m &&
      validWidth conf m && validSeq m && validAcceptMetadata conf m && validProcessAt m &&
      validFastPathEligible m) then some .invalidMessage
  else if m.reject then if validRejection conf m then none else some .invalidMessage
  else if validFields conf m then none else some .invalidMessage

variable {conf m}

theorem validSender_of_validate (hvalid : validate conf m = none)
    (hcontrol : m.isCheckpointControl = false) : validSender m = true := by
  unfold validate at hvalid
  simp only [hcontrol, Bool.false_eq_true, if_false] at hvalid
  split_ifs at hvalid with _ _ _ hrest
  all_goals
    simp only [Bool.not_eq_true', Bool.not_eq_false, Bool.and_eq_true] at hrest
    exact hrest.1.1.1.1.1.1.1.1

end Message

end MoreConsensus
