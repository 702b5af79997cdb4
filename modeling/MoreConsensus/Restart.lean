import MoreConsensus.Ready

/-!
# Storage and restart

The durable state of a replica as `epaxos/storage.go` keeps it, and the construction of a node from
it (`NewRawNode` in `epaxos/node.go`). A batch is stored as a whole or refused. Records of versions
that had no timing domain or no configuration outcome are not modelled. The membership plane stores
its reservations here at once; in the source they pass through the batches like everything else.
-/

set_option autoImplicit false

namespace MoreConsensus

open Library

structure Storage where
  hardState : HardState := {}
  configHistory : List ConfigHistoryEntry := []
  localVoter : LocalVoterState := {}
  checkpoint : Checkpoint := {}
  records : FiniteMap InstanceRef InstanceRecord := ∅
  membership : Membership := {}
  allocatorFloor : InstanceNum := 0

/-! ### Storing a batch -/

/-- Adds a configuration to a history kept by id; `none` when it contradicts the entry it has. -/
def rememberEntry (entry : ConfigHistoryEntry) :
    List ConfigHistoryEntry → Option (List ConfigHistoryEntry)
  | [] => some [entry]
  | head :: rest =>
    if entry.conf.id < head.conf.id then some (entry :: head :: rest)
    else if entry.conf.id = head.conf.id then
      if head.conf.voters ≠ entry.conf.voters || (!head.appliedRef.isZero &&
          !entry.appliedRef.isZero && head.appliedRef ≠ entry.appliedRef) then none
      else some ({ head with appliedRef :=
        if head.appliedRef.isZero then entry.appliedRef else head.appliedRef } :: rest)
    else (rememberEntry entry rest).map (head :: ·)

/-- Whether an executed record may be replaced: only by itself, or by its promise raised. -/
def terminalUpdate (current next : InstanceRecord) : Bool :=
  current == next ||
    (decide (current.ballot < next.ballot) && { current with ballot := next.ballot } == next)

/-- Whether a record may follow the stored one of its reference. -/
def recordFollows (current : Option InstanceRecord) (next : InstanceRecord) : Bool :=
  current.elim true fun current ↦ decide (current.status ≤ next.status) &&
    decide (current.ballot ≤ next.ballot) &&
    (current.status != .executed || terminalUpdate current next)

/-- The last record of a batch for each reference. -/
def lastRecords : List InstanceRecord → List InstanceRecord
  | [] => []
  | rec :: rest =>
    if rest.any fun other ↦ other.ref == rec.ref then lastRecords rest
    else rec :: lastRecords rest

namespace Storage

/-- The configurations a batch adds, in the order in which the source remembers them. -/
def rememberConfigs (storage : Storage) (rd : Ready) : Option (List ConfigHistoryEntry) :=
  let hard := if storage.hardState.empty then [] else [⟨storage.hardState.conf, {}⟩]
  let next := if rd.hardState.empty then [] else [⟨rd.hardState.conf, {}⟩]
  let applied := ((lastRecords rd.records).filter fun rec ↦
    rec.confChangeResult.outcome == .applied).map fun rec ↦ ⟨rec.confChangeResult.conf, rec.ref⟩
  (hard ++ rd.configHistory ++ next ++ applied).foldlM (fun history entry ↦
    rememberEntry entry history) storage.configHistory

def hardStateFollows (storage : Storage) (rd : Ready) : Bool :=
  storage.hardState.empty || rd.hardState.empty ||
    (decide (storage.hardState.tick ≤ rd.hardState.tick) &&
      decide (storage.hardState.conf.id ≤ rd.hardState.conf.id))

def recordsFollow (storage : Storage) (rd : Ready) : Bool :=
  (rd.records.all fun rec ↦ !frontierCovers storage.checkpoint.compactedThrough rec.ref) &&
    (lastRecords rd.records).all fun rec ↦ recordFollows (storage.records.get? rec.ref) rec

/-- The known configurations of a history. -/
def confsOf (history : List ConfigHistoryEntry) : FiniteMap ConfID VoterSet :=
  history.foldl (fun confs entry ↦
    (newQuorum entry.conf.voters).elim confs fun voters ↦ confs.insert entry.conf.id voters) ∅

/-- The checkpoint after a batch. -/
def nextCheckpoint (storage : Storage) (history : List ConfigHistoryEntry) (rd : Ready) :
    Option Checkpoint :=
  let current := storage.checkpoint
  let replaced := match rd.snapshot with
    | none => some current
    | some snapshot =>
      let next := snapshot.checkpoint
      if (snapshot.mode == SnapshotMode.install && !checkpointCertified next) ||
          !validateCheckpoint next (confsOf history) ||
          (!current.empty &&
            (frontierRegressesExecution current.descriptor.through next.descriptor.through ||
              frontierRegressesExecution current.compactedThrough next.compactedThrough ||
              (current.descriptor.id == next.descriptor.id && checkpointCertified current &&
                !checkpointCertified next))) then none
      else some next
  replaced.bind fun checkpoint ↦
    if rd.compact.isEmpty then some checkpoint
    else if !checkpointCertified checkpoint ||
        rd.compact ≠ canonicalCompactionRanges checkpoint then
      none
    else some { checkpoint with compactedThrough := checkpoint.descriptor.through }

/-- Stores a batch, or refuses it. -/
def applyReady (storage : Storage) (rd : Ready) : Option Storage :=
  if !storage.hardStateFollows rd || !storage.recordsFollow rd then none
  else (storage.rememberConfigs rd).bind fun history ↦
    (storage.nextCheckpoint history rd).map fun checkpoint ↦
      let records := rd.records.foldl (fun records rec ↦ records.insert rec.ref rec)
        storage.records
      let covered := if rd.compact.isEmpty then [] else records.keys.filter fun ref ↦
        frontierCovers checkpoint.compactedThrough ref
      { storage with
        hardState := if rd.hardState.empty then storage.hardState else rd.hardState
        configHistory := history
        localVoter := rd.localVoterState.getD storage.localVoter
        checkpoint := checkpoint
        records := covered.foldl (fun records ref ↦ records.erase ref) records }

/-- A non-compacted durable record. -/
def loadInstance (storage : Storage) (ref : InstanceRef) : Option InstanceRecord :=
  if frontierCovers storage.checkpoint.compactedThrough ref then none else storage.records.get? ref

/-- The records a restart loads. What a certified checkpoint covers is part of its snapshot; the
commands executed since are executed again on top of it. -/
def loadedRecords (storage : Storage) : List InstanceRecord :=
  let checkpoint := storage.checkpoint
  let certified := checkpointCertified checkpoint
  let loaded := (storage.records.entries.map Prod.snd).filter fun rec ↦
    !frontierCovers checkpoint.compactedThrough rec.ref &&
      !(certified && frontierCovers checkpoint.descriptor.through rec.ref)
  loaded.map fun rec ↦
    if certified && rec.kind = .command && rec.status = .executed then
      { rec with status := .committed } else rec

/-- The records a restart leaves out because a certified checkpoint that was not compacted yet
covers them. -/
def skippedRefs (storage : Storage) : List InstanceRef :=
  let checkpoint := storage.checkpoint
  storage.records.keys.filter fun ref ↦ checkpointCertified checkpoint &&
    !frontierCovers checkpoint.compactedThrough ref &&
    frontierCovers checkpoint.descriptor.through ref

end Storage

/-! ### Stored records -/

def recordTimingInvariant (rec : InstanceRecord) : Bool :=
  match rec.timingDomain with
  | .untimed => rec.processAt == 0 && !rec.toqPending
  | .logical => rec.kind != .noop && rec.processAt != 0 && !rec.toqPending
  | .toq => rec.kind != .noop

namespace RawNode

def storedBallotValid (conf : ConfState) (ballot : Ballot) (allowZero : Bool) : Bool :=
  if ballot = {} then allowZero else ballot.replica != 0 && conf.contains ballot.replica

def storedValueValid (n : RawNode) (rec : InstanceRecord) (conf : ConfState) : Bool :=
  (rec.status == .none && rec.value == {}) ||
    n.entryValueValidForConfiguration rec.value rec.ref conf ||
    (rec.kind == .confChange && rec.status == .executed &&
      rec.confChangeResult.outcome == .rejectedInvalid)

def storedEvidenceValid (rec : InstanceRecord) (conf : ConfState) : Bool :=
  let hasAcceptAttrs := rec.acceptSeq != 0 || !rec.acceptDeps.isEmpty
  ((rec.acceptSeq == 0) == rec.acceptDeps.isEmpty) &&
    (rec.acceptDeps.isEmpty || rec.acceptDeps.length == conf.voters.length) &&
    !(decide (rec.status < .accepted) && (hasAcceptAttrs || !rec.acceptEvidence.isEmpty)) &&
    decide ((rec.acceptEvidence.map AcceptEvidence.sender).Nodup) &&
    rec.acceptEvidence.all fun evidence ↦ evidence.sender != 0 && conf.contains evidence.sender &&
      evidence.seq != 0 && evidence.deps.length == conf.voters.length

def validateStoredInstanceRecord (n : RawNode) (rec : InstanceRecord) (conf : ConfState) : Bool :=
  rec.ref.replica != 0 && rec.ref.inst != 0 && rec.ref.conf != 0 && rec.ref.conf == conf.id &&
    conf.contains rec.ref.replica && recordTimingInvariant rec && n.storedValueValid rec conf &&
    rec.deps.length == conf.voters.length &&
    storedBallotValid conf rec.ballot (rec.status == .none && !rec.toqPending) &&
    (if Status.preAccepted ≤ rec.status then
        rec.seq != 0 && storedBallotValid conf rec.recordBallot false &&
          decide (rec.recordBallot ≤ rec.ballot)
      else rec.recordBallot == {} && rec.seq == 0) &&
    storedEvidenceValid rec conf &&
    (!rec.fastPathEligible ||
      (rec.status == .preAccepted && rec.recordBallot.isInitialFor rec.ref.replica)) &&
    (if rec.toqPending then rec.status == .none && rec.ballot.isInitialFor rec.ref.replica &&
        !rec.fastPathEligible && rec.kind != .noop
      else rec.status != .none || (rec.processAt == 0 && !rec.fastPathEligible && rec.value == {}))

/-! ### Configurations -/

/-- Adds a configuration; `none` when another one is known under its id. -/
def rememberConf (n : RawNode) (id : ConfID) (voters : VoterSet) : Option RawNode :=
  match n.confHistory.get? id with
  | some existing => if existing.voters = voters.voters then some n else none
  | none => some { n with confHistory := n.confHistory.insert id voters }

def rememberAppliedConf (n : RawNode) (ref : InstanceRef) (successor : VoterSet) :
    Option RawNode :=
  if (n.appliedConfByBase.get? ref.conf).elim false fun existing ↦ existing != ref then none
  else (n.rememberConf (ref.conf + 1) successor).map fun n ↦
    { n with appliedConfByBase := n.appliedConfByBase.insert ref.conf ref }

/-- One stored configuration. -/
def loadConfig (n : RawNode) (entry : ConfigHistoryEntry) : Option RawNode :=
  (newQuorum entry.conf.voters).bind fun voters ↦
    if entry.appliedRef.isZero then n.rememberConf entry.conf.id voters
    else if (n.appliedConfByBase.get? entry.appliedRef.conf).elim false fun existing ↦
        existing != entry.appliedRef then none
    else (n.rememberConf entry.conf.id voters).map fun n ↦
      { n with appliedConfByBase :=
          n.appliedConfByBase.insert entry.appliedRef.conf entry.appliedRef }

/-- One executed configuration change: the outcome it was stored with has to fit its base. -/
def replayExecutedConfig (n : RawNode) (rec : InstanceRecord) : Option RawNode :=
  (n.lookupConf rec.ref.conf).bind fun base ↦
    let successor := n.confChangeSuccessor rec.ref rec.confChange base
    match rec.confChangeResult.outcome with
    | .applied => (successor.filter fun voters ↦
        rec.confChangeResult.conf == ⟨rec.ref.conf + 1, voters.voters⟩).bind
          (n.rememberAppliedConf rec.ref)
    | .rejectedInvalid => if successor.isSome then none else some n
    | .rejectedSuperseded =>
      if successor.isSome && (n.appliedConfByBase.contains rec.ref.conf ||
        n.confHistory.contains (rec.ref.conf + 1)) then some n else none
    | .unspecified => none

/-- The executed configuration changes, those that were applied before the others. -/
def replayExecutedConfigRecords (n : RawNode) (records : List InstanceRecord) : Option RawNode :=
  let changes := records.filter fun rec ↦ rec.status == .executed && rec.kind == .confChange
  let applied := changes.filter fun rec ↦ rec.confChangeResult.outcome == .applied
  let others := changes.filter fun rec ↦ rec.confChangeResult.outcome != .applied
  ((applied ++ others).foldlM replayExecutedConfig n).map fun n ↦
    { n with current := n.confHistory.keys.foldl max 0 }

/-! ### Instances -/

/-- The phase in which a stored record is taken up again. -/
def restartPhase (n : RawNode) (rec : InstanceRecord) : Phase :=
  if rec.toqPending then .preAccept
  else if rec.status < .committed && rec.ballot.isRecovery &&
      rec.ballot.replica = n.id then .prepare
  else phaseFromStatus rec.status

/-- The coordinator's own vote is durable and counts again; a PreAccept vote only for the slow
path. -/
def seedLocalRestartVote (n : RawNode) (inst : Instance) : Instance :=
  let rec₀ := inst.record
  let conf := n.confFor rec₀.ref.conf
  if !conf.contains n.id then inst
  else match inst.phase with
    | .preAccept =>
      if rec₀.ref.replica ≠ n.id || rec₀.status ≠ .preAccepted || rec₀.toqPending ||
          !rec₀.ballot.isInitialFor n.id then inst
      else match newAttrVote conf rec₀.seq rec₀.deps [] false with
        | none => inst
        | some vote => { inst with preOK := VoteSet.addOrKeep inst.preOK conf n.id vote }
    | .accept =>
      if rec₀.ref.replica ≠ n.id || rec₀.status ≠ .accepted || rec₀.ballot.replica ≠ n.id then inst
      else { inst with accOK := VoterMask.addOrKeep inst.accOK conf n.id }
    | .prepare =>
      if Status.committed ≤ rec₀.status || !rec₀.ballot.isRecovery || rec₀.ballot.replica ≠ n.id
      then inst
      else { inst with prepareOK := VoteSet.addOrKeep ∅ conf n.id rec₀ }
    | _ => inst

/-- A TOQ record closes the time up to its processing time. -/
def closeTOQ (n : RawNode) (rec : InstanceRecord) : RawNode :=
  if Status.preAccepted ≤ rec.status && !rec.toqPending && rec.timingDomain = .toq &&
      n.cfg.toqEnabled && n.toqClosedThrough.elim true fun closed ↦ decide (closed < rec.processAt)
  then { n with toqClosedThrough := some rec.processAt, toqLastNow := some rec.processAt }
  else n

/-- Takes up one stored record. -/
def loadRecord (n : RawNode) (rec : InstanceRecord) : Option RawNode :=
  (n.lookupConf rec.ref.conf).bind fun conf ↦
    if !n.validateStoredInstanceRecord rec conf ||
        (!untimedKind rec.kind && Status.preAccepted ≤ rec.status &&
          !n.timingDomainEnabled rec.timingDomain) ||
        (rec.toqPending && (!n.cfg.toqEnabled || rec.ref.replica ≠ n.id)) then none
    else
      let inst : Instance :=
        { record := rec, phase := n.restartPhase rec, processAt := rec.processAt }
      let n := n.installInstance (n.seedLocalRestartVote inst)
      let n := if rec.status = .executed then
        { n with durableExecuted := n.durableExecuted.add rec.ref } else n
      some (((n.observeInstanceRef rec.ref).closeTOQ rec).markPendingConf rec)

/-- An error at the end of logical time does not stop a restart. -/
def restartTimer (state : RawNode × Option Err) : Option RawNode :=
  match state with
  | (n, none) => some n
  | (n, some err) => if err = .logicalTimeExhausted && n.tick = maxUint64 then some n else none

/-- Sets the timers of a loaded record, or prepares an own reference without a value. -/
def resumeRecord (n : RawNode) (rec : InstanceRecord) : Option RawNode :=
  match n.instances.get? rec.ref with
  | none => some n
  | some inst =>
    let rec₀ := inst.record
    let own := rec₀.ref.replica == n.id
    if Status.committed ≤ rec₀.status then some n
    else if rec₀.toqPending then
      match n.admitDeferredPreAccept .toq (n.messageFromRecord .preAccept n.id rec₀) with
      | (_, some _) => none
      | (n, none) => restartTimer (n.schedule rec.ref .preAccept n.cfg.retryTicks)
    else match inst.phase with
      | .idle =>
        if rec₀.status = .none && own then restartTimer (n.startPrepare runExecution rec.ref)
        else restartTimer (n.scheduleRecovery rec.ref)
      | .preAccept =>
        if own && rec₀.ballot.isInitialFor n.id then
          restartTimer (n.schedule rec.ref .preAccept n.cfg.retryTicks)
        else restartTimer (n.scheduleRecovery rec.ref)
      | .accept =>
        if own && rec₀.ballot.replica = n.id then
          restartTimer (n.schedule rec.ref .accept n.cfg.retryTicks)
        else restartTimer (n.scheduleRecovery rec.ref)
      | .prepare => restartTimer (n.schedule rec.ref .prepare n.cfg.recoveryTicks)
      | .tryPreAccept | .committed => some n

/-! ### Checkpoints -/

/-- The trackers start at the compacted frontier, and a certified checkpoint is installed first. -/
def loadCheckpoint (n : RawNode) (checkpoint : Checkpoint) : Option RawNode :=
  if checkpoint.empty then some n
  else if !validateCheckpoint checkpoint n.confHistory then none
  else
    let through := checkpoint.compactedThrough.laneList.foldl
      (fun (through : FiniteMap InstanceLane InstanceNum) entry ↦
        through.insert ⟨entry.1, entry.2.replica⟩ entry.2.through) ∅
    let fences := checkpoint.descriptor.allocatorFences.filter fun fence ↦ fence.replica == n.id
    let n := { n with durableCheckpoint := checkpoint, executed := ⟨[], through⟩
                      durableExecuted := ⟨[], through⟩, committedThrough := through
                      nextInstance := (fences.map AllocatorFence.next).foldl max n.nextInstance }
    if checkpointCertified checkpoint then
      some { n.proposeSnapshot .install checkpoint with
        startupSnapshot := true, executionPaused := true }
    else some n

/-- A prepared checkpoint is voted for again. -/
def restorePreparedCheckpoint (n : RawNode) (checkpoint : Checkpoint) : Option RawNode :=
  if checkpoint.empty || checkpointCertified checkpoint then some n
  else match (n.record? checkpoint.descriptor.barrier).filter fun barrier ↦
      barrier.status == .executed && barrier.kind == .checkpoint &&
        checkpointBarrierTupleDigest barrier == checkpoint.descriptor.barrierTupleDigest with
    | none => none
    | some _ =>
      if !checkpoint.descriptor.conf.contains n.id then none
      else
        let vote : VoterAcknowledgement := ⟨n.id, checkpoint.descriptor⟩
        let round : CheckpointRound :=
          { barrier := checkpoint.descriptor.barrier, checkpoint := checkpoint
            request := ⟨checkpoint.descriptor.id, checkpoint.descriptor.through⟩
            result := ⟨checkpoint.descriptor.id, checkpoint.applicationSnapshot,
              checkpoint.descriptor.applicationDigest⟩
            votes := FiniteMap.insert ∅ n.id vote, preparedDurable := true }
        let n := { n with checkpointRound := some round, executionPaused := true }
        some (n.broadcastCheckpointControl round .checkpointVote
          (.vote checkpoint.descriptor vote)).maybeCertifyCheckpoint

/-! ### Construction -/

/-- The node before any record is loaded: its configurations, clock and membership. -/
def bootNode (id : ReplicaID) (cfg : Config) (base : VoterSet) (storage : Storage) :
    Option RawNode :=
  let hard := storage.hardState
  let n : RawNode :=
    { id := id, cfg := cfg, confHistory := FiniteMap.insert ∅ 1 base, tick := hard.tick,
      membership := storage.membership, allocatorFloor := storage.allocatorFloor,
      nextInstance := max 1 storage.allocatorFloor }
  let entries : List ConfigHistoryEntry := if hard.empty then storage.configHistory
    else ⟨hard.conf, {}⟩ :: storage.configHistory
  let latest := entries.foldl (fun latest entry ↦ max latest entry.conf.id) 1
  if !cfg.cluster && !base.voters.contains id then none
  else (entries.foldlM loadConfig n).bind fun n ↦
    let n := { n with current := latest }
    let voter : LocalVoterState := if cfg.cluster then storage.localVoter else ⟨n.currentConf, true⟩
    if cfg.cluster && !(n.currentConf.contains id && voter.isEligible n.currentConf) then none
    else some { n with localVoter := voter, durableLocalVoter := voter }

/-- Constructs a node from its configuration and storage; `none` where the source reports an
error. -/
def newRawNode (id : ReplicaID) (cfg : Config) (base : VoterSet) (storage : Storage) :
    Option RawNode := do
  let records := storage.loadedRecords
  let n ← bootNode id cfg base storage
  let n ← n.loadCheckpoint storage.checkpoint
  let n := n.noteReleased storage.skippedRefs
  let logical := records.filter fun rec ↦ rec.timingDomain == .logical
  let n := if storage.hardState.empty then
    { n with tick := (logical.map InstanceRecord.processAt).foldl max n.tick } else n
  let n ← n.replayExecutedConfigRecords records
  let n := if cfg.cluster then n else { n with localVoter := ⟨n.currentConf, true⟩ }
  let n := n.activateTOQRuntime n.currentConf
  let n ← records.foldlM loadRecord n
  let n ← records.foldlM resumeRecord n
  let n ← n.restorePreparedCheckpoint storage.checkpoint
  let n := if n.executionPaused then n else n.beginDrive.runExecution
  some { n with
    currentHardState := ⟨n.currentConf, n.tick⟩, acknowledgedHardState := storage.hardState
    allocatorFloor := max n.allocatorFloor n.nextInstance }

end RawNode

end MoreConsensus
