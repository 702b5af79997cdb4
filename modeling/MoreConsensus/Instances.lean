import MoreConsensus.Attributes

/-!
# The instance table

Elementary operations of `epaxos/node.go` and `epaxos/sparse_progress.go` that handlers are built
from: installing and changing instances, timers, deferred PreAccepts, Accept evidence, and the
messages that a record is sent with. An instance of the source is a pointer; here it is the value
stored under its reference, so an operation on an instance takes the reference.
-/

set_option autoImplicit false

namespace MoreConsensus

open Library

/-! ### Accept evidence -/

/-- One evidence entry merged into a list: the entry of the same sender grows, or the entry is
added at the end. -/
def mergeAcceptEvidenceEntry (entry : AcceptEvidence) : List AcceptEvidence → List AcceptEvidence
  | [] => [entry]
  | head :: rest =>
    if head.sender = entry.sender then
      let attrs := mergeAttrs ⟨head.seq, head.deps⟩ ⟨entry.seq, entry.deps⟩
      { head with seq := attrs.seq, deps := attrs.deps } :: rest
    else head :: mergeAcceptEvidenceEntry entry rest

def mergeAcceptEvidenceEntries (dst src : List AcceptEvidence) : List AcceptEvidence :=
  (src.filter fun entry ↦ entry.sender != 0).foldl
    (fun out entry ↦ mergeAcceptEvidenceEntry entry out) dst

def acceptEvidenceFromMessage (m : Message) : Attributes := m.acceptAttributes.getD m.attributes

def mergeAcceptEvidence (rec : InstanceRecord) (attrs : Attributes) : InstanceRecord :=
  if attrs.seq = 0 || attrs.deps.isEmpty then rec
  else
    let merged := rec.acceptAttributes.elim attrs fun existing ↦ mergeAttrs existing attrs
    { rec with acceptSeq := merged.seq, acceptDeps := merged.deps }

def mergeSenderAcceptEvidence (rec : InstanceRecord) (evidence : List AcceptEvidence) :
    InstanceRecord :=
  { rec with acceptEvidence := mergeAcceptEvidenceEntries rec.acceptEvidence evidence }

def mergeOwnAcceptEvidence (rec : InstanceRecord) (sender : ReplicaID) (attrs : Attributes) :
    InstanceRecord :=
  if sender = 0 || attrs.seq = 0 || attrs.deps.isEmpty then rec
  else mergeSenderAcceptEvidence rec [⟨sender, attrs.seq, attrs.deps⟩]

def clearRecordAcceptEvidence (rec : InstanceRecord) : InstanceRecord :=
  { rec with acceptSeq := 0, acceptDeps := [], acceptEvidence := [] }

/-! ### Values and messages -/

def recordHasValue (status : Status) : Bool := decide (Status.preAccepted ≤ status)

def recordUsesTOQ (rec : InstanceRecord) : Bool := rec.timingDomain == .toq

def copyEntryValue (dst src : InstanceRecord) : InstanceRecord :=
  { dst with kind := src.kind, command := src.command, confChange := src.confChange,
             protocolControl := src.protocolControl }

def phaseMessageTimingEqual (rec : InstanceRecord) (m : Message) : Bool :=
  (rec.processAt == m.processAt && rec.timingDomain == timingDomainFromMessage m) ||
    ((m.type == .accept || m.type == .commit) && m.processAt == 0 && !m.toq &&
      rec.processAt != 0 && rec.timingDomain != .untimed)

def phaseMessageValueEqual (rec : InstanceRecord) (m : Message) : Bool :=
  recordMessageValueEqual rec m && phaseMessageTimingEqual rec m

def phaseMessageTupleEqual (rec : InstanceRecord) (m : Message) : Bool :=
  rec.seq == m.seq && rec.deps == m.deps && recordMessageValueEqual rec m &&
    phaseMessageTimingEqual rec m

def phaseFromStatus : Status → Phase
  | .preAccepted => .preAccept
  | .accepted => .accept
  | .committed | .executed => .committed
  | .none => .idle

def checkedLogicalAdd (now after : ℕ) : Option ℕ :=
  if maxUint64 - now < after then none else some (now + after)

def checkedLogicalDeadline (now after : ℕ) : Option ℕ :=
  checkedLogicalAdd now (if after = 0 then 1 else after)

namespace RawNode

/-! ### Instances -/

def updateInstance (n : RawNode) (ref : InstanceRef) (f : Instance → Instance) : RawNode :=
  match n.instances.get? ref with
  | none => n
  | some inst => { n with instances := n.instances.insert ref (f inst) }

/-- A change of an instance that sets its record through the conflict engine. -/
def setInstance (n : RawNode) (ref : InstanceRef) (f : Instance → Instance) : RawNode :=
  match n.instances.get? ref with
  | none => n
  | some inst =>
    { n with instances := n.instances.insert ref (f inst)
             engine := n.engine.apply (some inst.record) (f inst).record }

def setInstanceRecord (n : RawNode) (ref : InstanceRef) (rec : InstanceRecord) : RawNode :=
  n.setInstance ref fun inst ↦ { inst with record := rec }

/-- A change of a record in place, past the conflict engine. -/
def updateRecord (n : RawNode) (ref : InstanceRef) (f : InstanceRecord → InstanceRecord) :
    RawNode :=
  n.updateInstance ref fun inst ↦ { inst with record := f inst.record }

def cancelTimersForRef (n : RawNode) (ref : InstanceRef) : RawNode :=
  { n with timers := n.timers.filter fun timer ↦ timer.ref != ref }

def dropTryEvidenceChecksForTarget (n : RawNode) (target : InstanceRef) : RawNode :=
  { n with tryEvidenceChecks := n.tryEvidenceChecks.erase target }

def removeDeferredPreAccepts (n : RawNode) (ref : InstanceRef) : RawNode :=
  { n with deferred := n.deferred.detachAll fun key ↦ key.ref == ref }

def observeInstanceRef (n : RawNode) (ref : InstanceRef) : RawNode :=
  if ref.replica ≠ n.id || n.nextInstance = 0 || ref.inst < n.nextInstance then n
  else { n with nextInstance := (instanceSuccessor ref.inst).getD 0 }

/-- The committed prefix of a lane moves over the committed residents that follow it. -/
def advanceCommitted (n : RawNode) (lane : InstanceLane) : ℕ → RawNode
  | 0 => n
  | bound + 1 =>
    match instanceSuccessor ((n.committedThrough.get? lane).getD 0) with
    | none => n
    | some next =>
      match n.record? (lane.ref next) with
      | none => n
      | some rec =>
        if rec.status < .committed then n
        else
          { n with committedThrough := n.committedThrough.insert lane next }.advanceCommitted
            lane bound

def noteCommitted (n : RawNode) (ref : InstanceRef) : RawNode :=
  let through := (n.committedThrough.get? (laneFor ref)).getD 0
  if ref.isZero || ref.inst = 0 || ref.inst ≤ through then n
  else if instanceSuccessor through ≠ some ref.inst then n
  else n.advanceCommitted (laneFor ref) n.instances.entries.length

/-- Installs a new instance in place of what was resident. -/
def installInstance (n : RawNode) (inst : Instance) : RawNode :=
  let ref := inst.record.ref
  let n := if n.instances.contains ref then n.cancelTimersForRef ref else n
  let n := n.dropTryEvidenceChecksForTarget ref
  let committed := decide (Status.committed ≤ inst.record.status)
  let installed := if committed then releaseInstanceVolatile inst else inst
  let n := { n with instances := n.instances.insert ref installed
                    engine := n.engine.apply (n.record? ref) inst.record }
  let n := if committed then n.noteCommitted ref else n
  if inst.record.status = .executed then { n with executed := n.executed.add ref } else n

/-- A dependency vector of the width of the record's configuration. -/
def ensureRecordDeps (n : RawNode) (rec : InstanceRecord) : InstanceRecord :=
  let width := (n.votersForConf rec.ref.conf).length
  if rec.deps.length = width then rec else { rec with deps := padDeps width (rec.deps.take width) }

def markPendingConf (n : RawNode) (rec : InstanceRecord) : RawNode :=
  if rec.kind = .confChange && rec.status < .executed &&
      (Status.preAccepted ≤ rec.status || rec.toqPending) then { n with pendingConf := true }
  else n

def refreshPendingConf (n : RawNode) : RawNode :=
  (n.instances.entries.filter fun entry ↦ !n.executed.contains entry.1).foldl
    (fun node entry ↦ node.markPendingConf entry.2.record) { n with pendingConf := false }

/-- Whether this node runs the phases of an instance: it owns it or has its recovery ballot. -/
def coordinatesInstance (n : RawNode) (inst : Instance) : Bool :=
  inst.record.ref.replica == n.id ||
    (inst.record.ballot.isRecovery && inst.record.ballot.replica == n.id)

/-! ### Timers -/

/-- Sets the timer of a kind for an instance, replacing the one it has. -/
def schedule (n : RawNode) (ref : InstanceRef) (kind : TimerKind) (after : ℕ) :
    RawNode × Option Err :=
  match n.instances.get? ref, checkedLogicalDeadline n.tick after with
  | some inst, some deadline =>
    let others := n.timers.filter fun timer ↦ !(timer.ref == ref && timer.kind == kind)
    ({ n with timers := insertTimer ⟨deadline, ref, kind, inst.generation⟩ others }, none)
  | _, none => (n, some .logicalTimeExhausted)
  | none, _ => (n, none)

def scheduleRecovery (n : RawNode) (ref : InstanceRef) : RawNode × Option Err :=
  match n.instances.get? ref with
  | none => (n, none)
  | some inst =>
    if Status.committed ≤ inst.record.status || inst.phase = .prepare ||
        n.tick < inst.waitDeadline then (n, none)
    else match checkedLogicalDeadline n.tick n.cfg.recoveryTicks with
      | none => (n, some .logicalTimeExhausted)
      | some deadline =>
        ((n.schedule ref .prepare n.cfg.recoveryTicks).1.updateInstance ref fun inst ↦
          { inst with waitDeadline := deadline }, none)

def promisedToOtherCoordinator (n : RawNode) (inst : Instance) : Bool :=
  inst.record.ballot.isRecovery && inst.record.ballot.replica != n.id &&
    decide (n.tick < inst.waitDeadline)

/-- The replica whose turn it is to recover an instance: the voters other than the owner take turns
of `recoveryTicks` ticks. -/
def recoveryCoordinator (n : RawNode) (ref : InstanceRef) : ReplicaID :=
  let voters := n.votersForConf ref.conf
  let candidates := voters.filter fun id ↦ id != ref.replica
  if candidates.isEmpty then if voters.length = 1 then voters.headD 0 else 0
  else
    let round := if 0 < n.tick && 0 < n.cfg.recoveryTicks then (n.tick - 1) / n.cfg.recoveryTicks
      else 0
    (candidates[round % candidates.length]?).getD 0

def shouldCoordinateRecovery (n : RawNode) (ref : InstanceRef) : Bool :=
  n.recoveryCoordinator ref == n.id

def activeRecoveryCount (n : RawNode) : ℕ :=
  (n.instances.entries.filter fun entry ↦ decide (entry.2.record.status < .committed) &&
    entry.2.record.ballot.isRecovery && entry.2.record.ballot.replica == n.id).length

/-! ### Outgoing messages -/

def messageFromRecord (n : RawNode) (type : MessageType) (target : ReplicaID)
    (rec : InstanceRecord) : Message :=
  { type := type, source := n.id, target := target, ref := rec.ref, ballot := rec.ballot,
    seq := rec.seq, deps := rec.deps, kind := rec.kind, command := rec.command,
    confChange := rec.confChange, protocolControl := rec.protocolControl,
    processAt := rec.processAt, toq := recordUsesTOQ rec }

/-- One message to every other voter of a configuration. -/
def sendAll (n : RawNode) (conf : ConfID) (message : ReplicaID → Message) : RawNode :=
  ((n.votersForConf conf).filter fun target ↦ target != n.id).foldl
    (fun node target ↦ node.enqueueMessage (message target)) n

/-- The owner's request for PreAccept votes; with TOQ every voter computes its own attributes. -/
def preAcceptMessage (n : RawNode) (processAt : ℕ) (rec : InstanceRecord) (target : ReplicaID) :
    Message :=
  let m := { n.messageFromRecord .preAccept target rec with processAt := processAt }
  if recordUsesTOQ rec && rec.ref.replica == n.id && rec.ballot.isInitialFor rec.ref.replica then
    { m with toq := true, seq := 0, deps := [] }
  else m

def broadcastPreAccept (n : RawNode) (ref : InstanceRef) : RawNode :=
  match n.exportRecord ref with
  | none => n.deferRecordLoadExport ref .preAccept 0
  | some rec =>
    let processAt := (n.instances.get? ref).elim 0 Instance.processAt
    n.sendAll rec.ref.conf (n.preAcceptMessage processAt rec)

def broadcastPrepare (n : RawNode) (rec : InstanceRecord) : RawNode :=
  n.sendAll rec.ref.conf fun target ↦
    { type := .prepare, source := n.id, target := target, ref := rec.ref, ballot := rec.ballot }

/-- The message of a phase for a record, with the evidence that Accept and Commit carry. -/
def phaseMessage (n : RawNode) (type : MessageType) (target : ReplicaID) (rec : InstanceRecord) :
    Message :=
  let m := n.messageFromRecord type target rec
  let m := if type = .commit then { m with recordBallot := rec.recordBallot } else m
  if type = .accept || type = .commit then
    { m with acceptSeq := rec.acceptSeq, acceptDeps := rec.acceptDeps,
             acceptEvidence := rec.acceptEvidence }
  else m

def broadcast (n : RawNode) (type : MessageType) (ref : InstanceRef) : RawNode :=
  match n.exportRecord ref with
  | none => n.deferRecordLoadExport ref type 0
  | some rec => n.sendAll rec.ref.conf fun target ↦ n.phaseMessage type target rec

def broadcastTryPreAcceptIgnore (n : RawNode) (ref ignore : InstanceRef) : RawNode :=
  match n.exportRecord ref with
  | none => n.deferRecordLoadExport ref .tryPreAccept 0
  | some rec => n.sendAll rec.ref.conf fun target ↦
      { n.messageFromRecord .tryPreAccept target rec with ignoreDependency := ignore }

def broadcastTryPreAccept (n : RawNode) (ref : InstanceRef) : RawNode :=
  match n.instances.get? ref with
  | none => n
  | some inst =>
    if inst.tryIgnored.isEmpty then n.broadcast .tryPreAccept ref
    else (inst.tryIgnored.insertionSort (· ≤ ·)).foldl
      (fun node ignore ↦ node.broadcastTryPreAcceptIgnore ref ignore) n

def sendReject (n : RawNode) (type : MessageType) (target : ReplicaID) (ref : InstanceRef)
    (hint : Ballot) : RawNode :=
  n.enqueueMessage
    { type := type, source := n.id, target := target, ref := ref, ballot := hint, reject := true,
      rejectReason := if type = .tryPreAcceptResp then .staleBallot else .none,
      rejectHint := hint, deps := n.depsForConf ref.conf }

def sendCommitTo (n : RawNode) (target : ReplicaID) (ref : InstanceRef) : RawNode :=
  match n.exportRecord ref with
  | none => n.deferRecordLoadExport ref .commit target
  | some rec => n.enqueueMessage (n.phaseMessage .commit target rec)

end RawNode

end MoreConsensus
