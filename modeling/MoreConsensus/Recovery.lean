import MoreConsensus.Voting

/-!
# Recovery

The handlers of Prepare, TryPreAccept and Evidence and of their answers (`epaxos/node.go`). The
long body of `handlePrepareResp` is cut in two: `prepareDecision` says what a quorum of answers
decides, and `applyDecision` carries it out.
-/

set_option autoImplicit false

namespace MoreConsensus

open Library

namespace RawNode

/-! ### Prepare -/

/-- The report of a record in an answer to Prepare or Evidence. -/
def reportRecord (m : Message) (rec : InstanceRecord) : Message :=
  { m with recordBallot := rec.recordBallot, seq := rec.seq, deps := rec.deps,
           command := rec.command, kind := rec.kind, confChange := rec.confChange,
           protocolControl := rec.protocolControl, recordStatus := rec.status,
           fastPathEligible := rec.fastPathEligible, acceptSeq := rec.acceptSeq,
           acceptDeps := rec.acceptDeps, acceptEvidence := rec.acceptEvidence,
           processAt := rec.processAt, toq := recordUsesTOQ rec }

def prepareResp (n : RawNode) (m : Message) (rec : InstanceRecord) : Message :=
  reportRecord { type := .prepareResp, source := n.id, target := m.source, ref := m.ref,
                 ballot := rec.ballot } rec

/-- Gives up the coordination of an instance to another replica, with a recovery timer. -/
def yieldInstance (n : RawNode) (ref : InstanceRef) (deadline : ℕ) : RawNode × Option Err :=
  let n := (n.cancelTimersForRef ref).updateInstance ref fun inst ↦
    { releaseInstanceVolatile inst with
      phase := .idle, generation := inst.generation + 1, waitDeadline := deadline }
  n.schedule ref .prepare n.cfg.recoveryTicks

/-- The promise of an instance that is not resident. -/
def promiseNew (n : RawNode) (m : Message) (deadline : Option ℕ) : RawNode × Option Err :=
  let blank : InstanceRecord :=
    { ref := m.ref, ballot := m.ballot, deps := n.depsForConf m.ref.conf }
  let n := (n.installInstance { record := blank }).observeInstanceRef m.ref
  let scheduled := match deadline with
    | none => (n, none)
    | some deadline => (n.updateInstance m.ref fun inst ↦
        { inst with waitDeadline := deadline }).schedule m.ref .prepare n.cfg.recoveryTicks
  match scheduled with
  | (n, some err) => (n, some err)
  | (n, none) => ((n.enqueueRecord blank).enqueueMessage (n.prepareResp m blank), none)

/-- The promise of a resident instance. -/
def promiseResident (n : RawNode) (m : Message) (old : InstanceRecord) (deadline : ℕ) :
    RawNode × Option Err :=
  let raised := decide (old.ballot < m.ballot)
  let n := if raised then n.updateRecord m.ref fun rec ↦ { rec with ballot := m.ballot } else n
  let yielded :=
    if raised && m.ballot.replica ≠ n.id then
      (n.dropTryEvidenceChecksForTarget m.ref).yieldInstance m.ref deadline
    else (n, none)
  match yielded with
  | (n, some err) => (n, some err)
  | (n, none) =>
    let next := n.ensureRecordDeps { old with ballot := max old.ballot m.ballot }
    let n := n.updateRecord m.ref fun _ ↦ next
    let n := if next = old then n else n.enqueueRecord next
    (n.enqueueMessage (n.prepareResp m next), none)

def handlePrepare (n : RawNode) (m : Message) : RawNode × Option Err :=
  let old := n.record? m.ref
  if n.needsRecordLoad m.ref then n.deferRecordLoad m.ref m
  else if old.elim false InstanceRecord.toqPending then (n, none)
  else match old.filter fun old ↦ decide (m.ballot < old.ballot) with
    | some old => (n.sendReject .prepareResp m.source m.ref old.ballot, none)
    | none =>
      match n.requirePayload m.ref m with
      | some deferred => deferred
      | none =>
        let n := n.removeDeferredPreAccepts m.ref
        let needsWait := m.ballot.isRecovery && m.ballot.replica != n.id &&
          old.elim true fun old ↦ decide (old.ballot < m.ballot)
        let deadline := checkedLogicalDeadline n.tick n.cfg.recoveryTicks
        if needsWait && deadline.isNone then (n, some .logicalTimeExhausted)
        else match old with
          | none => n.promiseNew m (if needsWait then deadline else none)
          | some old => n.promiseResident m old (if needsWait then deadline.getD 0 else 0)

/-! ### Decisions -/

/-- The answers a decision is taken from: those to Prepare, completed by the evidence of voters
that answered a TryPreAccept with an accepted record. -/
def prepareAnswers (conf : ConfState) (inst : Instance) : List (ReplicaID × InstanceRecord) :=
  conf.voters.filterMap fun id ↦
    ((VoteSet.get inst.prepareOK conf id).or (VoteSet.get inst.prepareEvidence conf id)).map
      fun rec ↦ (id, rec)

/-- The accepted record of the highest ballot, with the attributes of the records that agree with
it merged in. -/
def chooseAccepted (best : Option (InstanceRecord × Attributes)) (rec : InstanceRecord) :
    Option (InstanceRecord × Attributes) :=
  match best with
  | none => some (rec, rec.attributes)
  | some (chosen, attrs) =>
    if chosen.recordBallot < rec.recordBallot then some (rec, rec.attributes)
    else if rec.recordBallot = chosen.recordBallot && rec.value = chosen.value then
      some (chosen, mergeAttrs attrs rec.attributes)
    else best

/-- A tuple that may have been committed on the fast path, with its witnesses. -/
structure TryCandidate where
  record : InstanceRecord
  voters : VoterMask
  deriving BEq, ReflBEq, LawfulBEq, Repr, Inhabited

def TryCandidate.agrees (candidate : TryCandidate) (rec : InstanceRecord) : Bool :=
  candidate.record.processAt == rec.processAt &&
    candidate.record.timingDomain == rec.timingDomain &&
    candidate.record.command == rec.command && candidate.record.attributes == rec.attributes

def addTryCandidate (rec : InstanceRecord) (voter : ReplicaID) :
    List TryCandidate → List TryCandidate
  | [] => [⟨rec, [voter]⟩]
  | head :: rest =>
    if head.agrees rec then { head with voters := voter :: head.voters } :: rest
    else head :: addTryCandidate rec voter rest

/-- The highest ballot of the PreAccepted records of some answers. -/
def highestPreAccepted (answers : List (ReplicaID × InstanceRecord)) : Option Ballot :=
  ((answers.filter fun answer ↦ answer.2.status == .preAccepted).map fun answer ↦
    answer.2.recordBallot).foldl
      (fun best ballot ↦ some (best.elim ballot fun best ↦ if best < ballot then ballot else best))
      none

/-- The PreAccepted answers of the highest ballot. -/
def preAcceptedAnswers (answers : List (ReplicaID × InstanceRecord)) :
    List (ReplicaID × InstanceRecord) :=
  answers.filter fun answer ↦ answer.2.status == .preAccepted &&
    highestPreAccepted answers == some answer.2.recordBallot

/-- The tuples for which fast-path evidence was found, with their witnesses. -/
def tryCandidates (answers : List (ReplicaID × InstanceRecord)) : List TryCandidate :=
  ((preAcceptedAnswers answers).filter fun answer ↦ answer.2.fastPathEligible).foldl
    (fun candidates answer ↦ addTryCandidate answer.2 answer.1 candidates) []

def prepareDecision (n : RawNode) (conf : ConfState) (inst : Instance) : PrepareDecision :=
  let answers := prepareAnswers conf inst
  match answers.find? fun answer ↦ decide (Status.committed ≤ answer.2.status) with
  | some answer => .committed answer.2
  | none =>
    let accepted := answers.filter fun answer ↦ answer.2.status == .accepted
    match (accepted.map Prod.snd).foldl chooseAccepted none with
    | some (chosen, attrs) => .accepted chosen attrs
    | none =>
      let enough := fun (candidate : TryCandidate) ↦
        decide (n.tryWitnessQuorumForConf conf.id ≤ VoterMask.len candidate.voters conf)
      match (tryCandidates answers).find? enough with
      | some candidate => .tryTuple candidate.record candidate.voters
      | none =>
        match preAcceptedAnswers answers with
        | [] => .noValue
        | first :: rest => .preAccepted first.2
            ((first :: rest).foldl (fun attrs answer ↦ mergeAttrs attrs answer.2.attributes) {})

/-- Takes over the value and timing of a record. -/
def adoptValue (n : RawNode) (ref : InstanceRef) (src : InstanceRecord) : RawNode :=
  n.setInstance ref fun inst ↦
    { inst with
      record := { copyEntryValue inst.record src with
                  processAt := src.processAt, timingDomain := src.timingDomain }
      processAt := src.processAt }

section Drive

variable (drive : RawNode → RawNode)

def applyDecision (n : RawNode) (ref : InstanceRef) : PrepareDecision → RawNode × Option Err
  | .committed rec =>
    ((n.setInstanceRecord ref { rec with status := .committed }).commit drive ref rec.attributes,
      none)
  | .accepted chosen attrs => ((n.adoptValue ref chosen).startAccept drive ref attrs, none)
  | .tryTuple candidate witnesses =>
    ((n.adoptValue ref candidate).startTryPreAccept drive ref candidate.attributes witnesses, none)
  | .preAccepted chosen attrs =>
    let n := n.adoptValue ref chosen
    let own := n.computeAttrs (orderingCommand chosen.kind chosen.command) ref
    (n.startAccept drive ref (mergeAttrs attrs own), none)
  | .noValue =>
    match (n.record? ref).bind n.valueOfNone with
    | none => (n, some .bootstrapControl)
    | some next => (n.acceptNone drive ref next, none)

def handlePrepareResp (n : RawNode) (m : Message) : RawNode × Option Err :=
  match n.instances.get? m.ref with
  | none => (n, none)
  | some inst =>
    let conf := n.confFor m.ref.conf
    let ballot := inst.record.ballot
    if inst.phase ≠ .prepare || !ballot.isRecovery || ballot.replica ≠ n.id then (n, none)
    else if m.reject then
      if ballot < m.rejectHint then n.startPrepareFrom drive m.ref m.rejectHint else (n, none)
    else if m.ballot < ballot then (n, none)
    else if ballot < m.ballot then n.startPrepareFrom drive m.ref m.ballot
    else if recordHasValue m.recordStatus && m.recordBallot = {} then (n, none)
    else
      match VoteSet.add inst.prepareOK conf m.source (n.ensureRecordDeps (recordFromMessage m)) with
      | none => (n, none)
      | some votes =>
        let n := n.updateInstance m.ref fun inst ↦ { inst with prepareOK := votes }
        if VoteSet.len votes conf < n.slowQuorumForConf m.ref.conf then (n, none)
        else
          let inst := { inst with prepareOK := votes }
          let decision := n.prepareDecision conf inst
          (n.note (.decided m.ref ballot (prepareAnswers conf inst) decision)).applyDecision drive
            m.ref decision

/-! ### Evidence -/

def handleEvidence (n : RawNode) (m : Message) : RawNode × Option Err :=
  if n.needsRecordLoad m.ref then n.deferRecordLoad m.ref m
  else match n.requirePayload m.ref m with
    | some deferred => deferred
    | none =>
      let resp : Message :=
        { type := .evidenceResp, source := n.id, target := m.source, ref := m.ref,
          conflictRef := m.conflictRef, ballot := m.ballot, deps := n.depsForConf m.ref.conf }
      match n.record? m.ref with
      | none => (n.enqueueMessage resp, none)
      | some rec =>
        if rec.toqPending then (n.enqueueMessage resp, none)
        else (n.enqueueMessage (reportRecord resp
          { rec with deps := padDeps (n.votersForConf m.ref.conf).length rec.deps }), none)

def faultTolerance (n : RawNode) (conf : ConfID) : ℕ :=
  (n.votersForConf conf).length - n.slowQuorumForConf conf

/-- Whether a voter could have voted for the tuple that is tried, as far as the Prepare answers
still held say. -/
def replicaCouldBeInCandidateFastQuorum (n : RawNode) (inst : Instance) (id : ReplicaID) : Bool :=
  (VoteSet.get inst.prepareOK (n.confFor inst.record.ref.conf) id).elim true fun rec ↦
    rec.status == .preAccepted && rec.fastPathEligible && rec.command == inst.record.command &&
      rec.attributes == inst.record.attributes

def leaderMustBeInCandidateFastQuorum (n : RawNode) (inst : Instance) (leader : ReplicaID) : Bool :=
  let conf := n.confFor inst.record.ref.conf
  let possible := conf.voters.filter (n.replicaCouldBeInCandidateFastQuorum inst)
  leader != 0 && possible.contains leader &&
    decide (possible.length - 1 < n.fastQuorumForConf inst.record.ref.conf)

/-- The committed tuple of a conflicting instance: resident, or reported by a voter. -/
def committedConflictTuple (n : RawNode) (conflict : InstanceRef)
    (records : FiniteMap ReplicaID InstanceRecord) : Option InstanceRecord :=
  let committed := fun (rec : InstanceRecord) ↦ decide (Status.committed ≤ rec.status)
  ((n.record? conflict).filter committed).or ((records.entries.map Prod.snd).find? committed)

def sameValueTuple (a b : InstanceRecord) : Bool :=
  a.ref == b.ref && a.seq == b.seq && a.processAt == b.processAt &&
    a.timingDomain == b.timingDomain && a.deps == b.deps && a.command == b.command

/-- What one voter's record says about ignoring a committed conflict: it forbids it, it is of no
use, or it supports it. -/
inductive EvidenceVerdict
  | failClosed | unusable | usable
  deriving DecidableEq, Repr

def tryEvidenceRecordDecision (n : RawNode) (inst : Instance) (tuple rec : InstanceRecord) :
    EvidenceVerdict :=
  let conf := n.confFor tuple.ref.conf
  if rec.ref ≠ tuple.ref then .failClosed
  else if rec.status = .none then .unusable
  else if rec.recordBallot = {} || !sameValueTuple rec tuple || rec.acceptEvidence.isEmpty then
    .failClosed
  else if rec.acceptEvidence.all (fun entry ↦ entry.sender != 0 && conf.contains entry.sender &&
      entry.seq != 0 && entry.deps.length == conf.voters.length &&
      rec.acceptEvidence.all (fun other ↦ other.sender != entry.sender || other == entry) &&
      (!n.leaderMustBeInCandidateFastQuorum inst entry.sender ||
        n.attrsDependsOn ⟨entry.seq, entry.deps⟩ inst.record.ref tuple.ref.conf)) then .usable
  else .failClosed

def allRemoteEvidenceResponses (n : RawNode) (conf : ConfID)
    (records : FiniteMap ReplicaID InstanceRecord) : Bool :=
  decide (((n.votersForConf conf).filter fun id ↦ id != n.id).length ≤ records.entries.length)

/-- Whether the evidence gathered allows ignoring the conflict (`usable`), forbids it, or is not
complete yet. -/
def tryEvidenceDecision (n : RawNode) (inst : Instance) (conflict : InstanceRef)
    (records : FiniteMap ReplicaID InstanceRecord) : EvidenceVerdict :=
  let undecided := if n.allRemoteEvidenceResponses inst.record.ref.conf records then
    EvidenceVerdict.failClosed else .unusable
  match n.committedConflictTuple conflict records with
  | none => undecided
  | some tuple =>
    let verdicts := (records.entries.filter fun entry ↦ entry.1 != n.id).map fun entry ↦
      n.tryEvidenceRecordDecision inst tuple entry.2
    if verdicts.contains .failClosed then .failClosed
    else if n.faultTolerance inst.record.ref.conf ≤ verdicts.count .usable then .usable
    else undecided

/-- Gives up trying a tuple because of a committed conflict: Accept with attributes that cover the
conflict, whose sequence number is the given one or that of the resident record. -/
def startAcceptAfterTryCommittedConflict (n : RawNode) (ref conflict : InstanceRef)
    (conflictSeq : Option ℕ) : RawNode :=
  match n.record? ref with
  | none => n
  | some rec =>
    let attrs := mergeAttrs (n.computeAttrs rec.command ref) rec.attributes
    let attrs := match conflictSeq with
      | none => n.attrsWithConflictDependency attrs conflict ref.conf
      | some seq => n.attrsWithConflictDependencySeq attrs conflict seq ref.conf
    ((n.dropTryEvidenceChecksForTarget ref).note (.tryAbandoned ref)).startAccept drive ref attrs

/-- Gives up trying after an evidence check, with the tuple it found if there is one. -/
def failTryEvidenceCheck (n : RawNode) (ref : InstanceRef) (check : TryEvidenceCheck) : RawNode :=
  match n.committedConflictTuple check.conflict check.records with
  | some tuple => n.startAcceptAfterTryCommittedConflict drive ref tuple.ref (some tuple.seq)
  | none => n.startAcceptAfterTryCommittedConflict drive ref check.conflict none

def broadcastTryEvidenceCheck (n : RawNode) (rec : InstanceRecord) (conflict : InstanceRef) :
    RawNode :=
  n.sendAll rec.ref.conf fun target ↦
    { type := .evidence, source := n.id, target := target, ref := conflict,
      conflictRef := rec.ref, ballot := rec.ballot }

/-- Asks the voters for evidence that a committed conflict may be ignored; `none` when the conflict
does not qualify. -/
def maybeStartTryEvidenceCheck (n : RawNode) (inst : Instance) (conflict : InstanceRef) :
    Option RawNode :=
  let ref := inst.record.ref
  if conflict.isZero || conflict.conf ≠ ref.conf ||
      !n.attrsDependsOn inst.record.attributes conflict ref.conf ||
      !inst.tryIgnored.isEmpty || n.faultTolerance ref.conf = 0 then none
  else match n.tryEvidenceChecks.get? ref with
    | some check =>
      if check.conflict = conflict && check.ballot = inst.record.ballot then some n
      else some (n.failTryEvidenceCheck drive ref check)
    | none =>
      if n.cfg.maxConcurrentRecoveries ≤ n.tryEvidenceChecks.entries.length then
        some (n.startAcceptAfterTryCommittedConflict drive ref conflict none)
      else
        let check : TryEvidenceCheck := ⟨conflict, inst.record.ballot, ∅⟩
        some ({ n with tryEvidenceChecks :=
          n.tryEvidenceChecks.insert ref check }.broadcastTryEvidenceCheck inst.record conflict)

def resolveTryEvidenceCheck (n : RawNode) (inst : Instance) (check : TryEvidenceCheck) : RawNode :=
  let ref := inst.record.ref
  match n.tryEvidenceDecision inst check.conflict check.records with
  | .unusable => n
  | .failClosed => (n.failTryEvidenceCheck drive ref check)
  | .usable =>
    let n := (n.dropTryEvidenceChecksForTarget ref).note (.conflictIgnored ref check.conflict)
    (n.updateInstance ref fun inst ↦
      { inst with tryIgnored := [check.conflict] }).broadcastTryPreAcceptIgnore ref check.conflict

def handleEvidenceResp (n : RawNode) (m : Message) : RawNode :=
  match n.tryEvidenceChecks.get? m.conflictRef with
  | none => n
  | some check =>
    if check.conflict ≠ m.ref || check.ballot ≠ m.ballot then n
    else match (n.instances.get? m.conflictRef).filter fun inst ↦ inst.phase == .tryPreAccept &&
        n.coordinatesInstance inst && inst.record.ballot == m.ballot with
      | none => n.dropTryEvidenceChecksForTarget m.conflictRef
      | some inst =>
        if check.records.contains m.source then n
        else
          let check := { check with records := check.records.insert m.source (recordFromMessage m) }
          let n := { n with tryEvidenceChecks := n.tryEvidenceChecks.insert m.conflictRef check }
          n.resolveTryEvidenceCheck drive inst check

/-- A retry of TryPreAccept gives up on a pending evidence check; `none` when there is none. -/
def failPendingTryEvidenceCheck (n : RawNode) (inst : Instance) : Option RawNode :=
  match n.tryEvidenceChecks.get? inst.record.ref with
  | none => none
  | some check =>
    if check.ballot ≠ inst.record.ballot then none
    else some (n.startAcceptAfterTryCommittedConflict drive inst.record.ref check.conflict none)

/-! ### TryPreAccept -/

/-- A vote for a TryPreAccept. -/
def tryPreAcceptResp (n : RawNode) (m : Message) (rec : InstanceRecord) : Message :=
  { type := .tryPreAcceptResp, source := n.id, target := m.source, ref := m.ref,
    ballot := rec.ballot, seq := rec.seq, deps := rec.deps, recordStatus := rec.status,
    processAt := rec.processAt, toq := recordUsesTOQ rec }

/-- The refusal of a TryPreAccept by a voter that has accepted a value. -/
def acceptedTargetResp (n : RawNode) (m : Message) (old : InstanceRecord) : Message :=
  { type := .tryPreAcceptResp, source := n.id, target := m.source, ref := m.ref, ballot := m.ballot,
    recordBallot := old.recordBallot, seq := old.seq, deps := old.deps,
    acceptSeq := old.acceptSeq, acceptDeps := old.acceptDeps,
    acceptEvidence := old.acceptEvidence, kind := old.kind, confChange := old.confChange,
    protocolControl := old.protocolControl, command := old.command, reject := true,
    rejectReason := .acceptedTarget, recordStatus := .accepted, processAt := old.processAt,
    toq := recordUsesTOQ old }

/-- The refusal of a TryPreAccept because of a conflicting instance. -/
def conflictResp (n : RawNode) (m : Message) (conflict : InstanceRef × Status) : Message :=
  { type := .tryPreAcceptResp, source := n.id, target := m.source, ref := m.ref, ballot := m.ballot,
    reject := true,
    rejectReason :=
      if Status.committed ≤ conflict.2 then .committedConflict else .uncommittedConflict,
    conflictRef := conflict.1, conflictStatus := conflict.2, deps := n.depsForConf m.ref.conf }

/-- Answers a TryPreAccept of a resident accepted record, promising its ballot. It is refused as a
whole when the recovery timer could not be set. -/
def refuseAccepted (n : RawNode) (m : Message) (old : InstanceRecord) : RawNode × Option Err :=
  let yields := decide (old.ballot < m.ballot) && m.ballot.replica != n.id
  let deadline := checkedLogicalDeadline n.tick n.cfg.recoveryTicks
  if yields && deadline.isNone then (n, some .logicalTimeExhausted)
  else
    let n := n.removeDeferredPreAccepts m.ref
    if old.ballot < m.ballot then
      let next := { old with ballot := m.ballot }
      let n := n.updateRecord m.ref fun _ ↦ next
      match if yields then n.yieldInstance m.ref (deadline.getD 0) else (n, none) with
      | (n, some err) => (n, some err)
      | (n, none) => ((n.enqueueRecord next).enqueueMessage (n.acceptedTargetResp m old), none)
    else (n.enqueueMessage (n.acceptedTargetResp m old), none)

/-- Votes for the tuple of a TryPreAccept unless a conflict stands in the way. -/
def voteTryPreAccept (n : RawNode) (m : Message) : RawNode × Option Err :=
  match n.tryPreAcceptConflict m with
  | some conflict => (n.enqueueMessage (n.conflictResp m conflict), none)
  | none =>
    let vote := { recordFromMessage m with recordBallot := m.ballot, status := .preAccepted }
    if n.record? m.ref = some vote then (n.enqueueMessage (n.tryPreAcceptResp m vote), none)
    else n.installVote vote 0 (n.tryPreAcceptResp m vote)

def handleTryPreAccept (n : RawNode) (m : Message) : RawNode × Option Err :=
  match n.record? m.ref with
  | none => n.voteTryPreAccept m
  | some old =>
    if Status.committed ≤ old.status then
      match n.requirePayload m.ref m with
      | some deferred => deferred
      | none =>
        if old.recordBallot = m.ballot && !phaseMessageTupleEqual old m then
          (n, some .invalidMessage)
        else (n.sendCommitTo m.source m.ref, none)
    else if m.ballot < old.ballot then
      (n.sendReject .tryPreAcceptResp m.source m.ref old.ballot, none)
    else if old.status = .accepted then
      if m.ballot = old.ballot && old.recordBallot = m.ballot && !phaseMessageTupleEqual old m then
        (n, some .invalidMessage)
      else n.refuseAccepted m old
    else if old.status = .preAccepted && m.ballot = old.ballot && old.recordBallot = m.ballot then
      if phaseMessageTupleEqual old m then (n.enqueueMessage (n.tryPreAcceptResp m old), none)
      else (n, some .invalidMessage)
    else n.voteTryPreAccept m

/-- The record a coordinator keeps of an accepted target: its command, but not its kind,
configuration change or control. -/
def acceptedTargetEvidence (m : Message) : InstanceRecord :=
  { ref := m.ref, ballot := m.ballot, recordBallot := m.recordBallot, status := .accepted,
    seq := m.seq, deps := m.deps, acceptSeq := m.acceptSeq, acceptDeps := m.acceptDeps,
    acceptEvidence := m.acceptEvidence, command := m.command, processAt := m.processAt,
    timingDomain := timingDomainFromMessage m }

/-- Whether some instance that waits for this one was proposed by a replica without which the tried
tuple has no fast quorum. -/
def hasDeferredCommandLeaderInFastQuorum (n : RawNode) (inst : Instance) : Bool :=
  n.instances.entries.any fun entry ↦ entry.1 != inst.record.ref &&
    entry.2.tryDeferred.contains inst.record.ref &&
    n.leaderMustBeInCandidateFastQuorum inst entry.1.replica

def tryConflictForcesSlowAccept (n : RawNode) (inst : Instance) (conflict : InstanceRef) : Bool :=
  !conflict.isZero &&
    ((!n.attrsDependsOn inst.record.attributes conflict inst.record.ref.conf &&
        n.leaderMustBeInCandidateFastQuorum inst conflict.replica) ||
      n.hasDeferredCommandLeaderInFastQuorum inst)

/-- A refused TryPreAccept. -/
def tryRejected (n : RawNode) (inst : Instance) (m : Message) : RawNode × Option Err :=
  match m.rejectReason with
  | .none | .staleBallot =>
    if inst.record.ballot < m.rejectHint then n.startPrepareFrom drive m.ref m.rejectHint
    else (n, none)
  | .acceptedTarget =>
    if m.ballot ≠ inst.record.ballot then (n, none)
    else match n.startPrepare drive m.ref with
      | (n, some err) => (n, some err)
      | (n, none) =>
        let conf := n.confFor m.ref.conf
        let evidence := acceptedTargetEvidence m
        (n.updateInstance m.ref fun inst ↦ { inst with
          prepareEvidence := VoteSet.addOrKeep inst.prepareEvidence conf m.source evidence }, none)
  | .committedConflict =>
    let check := if Status.committed ≤ m.conflictStatus then
      n.maybeStartTryEvidenceCheck drive inst m.conflictRef else none
    (check.getD (n.startAcceptAfterTryCommittedConflict drive m.ref m.conflictRef none), none)
  | .uncommittedConflict =>
    if m.conflictRef.isZero then (n, none)
    else if n.tryConflictForcesSlowAccept inst m.conflictRef then
      ((n.note (.tryAbandoned m.ref)).startAccept drive m.ref
        (mergeAttrs (n.computeAttrs inst.record.command m.ref) inst.record.attributes), none)
    else
      let n := n.updateInstance m.ref fun inst ↦
        { inst with tryDeferred := insertRef m.conflictRef inst.tryDeferred }
      ((n.maybeStartDependencyRecovery drive m.conflictRef).1, none)

def handleTryPreAcceptResp (n : RawNode) (m : Message) : RawNode × Option Err :=
  match n.instances.get? m.ref with
  | none => (n, none)
  | some inst =>
    let conf := n.confFor m.ref.conf
    if inst.phase ≠ .tryPreAccept || !n.coordinatesInstance inst then (n, none)
    else if m.reject then n.tryRejected drive inst m
    else if m.ballot ≠ inst.record.ballot || m.recordStatus ≠ .preAccepted ||
        m.attributes ≠ inst.record.attributes then (n, none)
    else match VoterMask.add inst.tryOK conf m.source with
      | none => (n, none)
      | some mask =>
        let n := n.updateInstance m.ref fun inst ↦ { inst with tryOK := mask }
        if n.slowQuorumForConf m.ref.conf ≤ VoterMask.len mask conf then
          (n.startAccept drive m.ref inst.record.attributes, none)
        else (n, none)

end Drive

end RawNode

end MoreConsensus
