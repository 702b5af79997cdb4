import MoreConsensus.Step

/-!
# Ready batches, record loads and folding

`Ready` freezes the pending work; `Advance` acknowledges a prefix of the frozen batch once the
application has persisted it, sent its messages and applied its commands (`epaxos/node.go`). That
makes executed instances durable, so executed prefixes are folded out of memory there
(`epaxos/retire.go`, `epaxos/conflict_engine.go`), and checkpoints move on. A folded record comes
back through `ProvideRecordLoad`.
-/

set_option autoImplicit false

namespace MoreConsensus

open Library

def HardState.empty (state : HardState) : Bool := state == {}

def readyHasDurableUpdate (rd : Ready) : Bool :=
  !rd.hardState.empty || !rd.configHistory.isEmpty || !rd.records.isEmpty ||
    !rd.bootstrapRecords.isEmpty || rd.localVoterState.isSome || !rd.frontierUpdates.isEmpty ||
    rd.allocatorFloor != 0 || rd.snapshot.isSome || !rd.compact.isEmpty

/-! ### Folding -/

def retiredSeqBreakpointCap : ℕ := 64

/-- A breakpoint of the prefix maxima of folded sequence numbers: later breakpoints that do not
exceed it are dropped. -/
def insertBreakpoint (through : InstanceNum) (seq : ℕ) (points : List (InstanceNum × ℕ)) :
    List (InstanceNum × ℕ) :=
  let before := points.takeWhile fun point ↦ decide (point.1 < through)
  let after := points.drop before.length
  let seq := match after with
    | point :: _ => if point.1 = through then max point.2 seq else seq
    | [] => seq
  let after := after.dropWhile fun point ↦ point.1 == through
  before ++ (through, seq) :: after.dropWhile fun point ↦ decide (point.2 ≤ seq)

def RetiredLane.addRetiredSeq (lane : RetiredLane) (through : InstanceNum) (seq : ℕ) :
    RetiredLane :=
  if seq ≤ lane.retiredPrefixMaxSeq through then lane
  else
    let points := insertBreakpoint through seq lane.retiredSeq
    if points.length ≤ retiredSeqBreakpointCap then { lane with retiredSeq := points }
    else { lane with retiredSeq := points.drop (points.length - retiredSeqBreakpointCap)
                     seqCompressed := true }

/-- What the conflict engine keeps of a record that is folded, besides the floors of its
resources. -/
def RetiredLane.foldRecord (lane : RetiredLane) (rec : InstanceRecord) : RetiredLane :=
  let inst := rec.ref.inst
  if inst ≤ lane.folded then lane
  else
    let pending := if lane.pendingFold.contains inst then lane.pendingFold
      else inst :: lane.pendingFold
    let lane := { lane with pendingFold := pending }
    if !recordConflictEligible rec then lane
    else
      let lane := { lane with eligibleAny := max lane.eligibleAny inst }
      let lane := if recordHasGlobalConflictScope rec then
          { lane with globalMax := max lane.globalMax inst }
        else lane
      lane.addRetiredSeq inst rec.seq

/-- The end of the run of folded instances after the watermark, at most `target`. -/
def RetiredLane.contiguous (lane : RetiredLane) (target : InstanceNum) : InstanceNum :=
  let next := (List.range (target - lane.folded)).map fun offset ↦ lane.folded + 1 + offset
  lane.folded + (next.takeWhile lane.pendingFold.contains).length

def RetiredLane.advanceFold (lane : RetiredLane) (through : InstanceNum) : RetiredLane :=
  { lane with folded := through
              pendingFold := lane.pendingFold.filter fun inst ↦ decide (through < inst) }

/-- A record that the application hands back, and the record that its checksum was taken of. -/
structure LoadedRecord where
  record : InstanceRecord
  checksum : InstanceRecord := record

def validateRecordChecksum (loaded : LoadedRecord) : Bool := loaded.checksum == loaded.record

namespace RawNode

/-- Takes a resident instance out of memory. -/
def foldInstance (n : RawNode) (ref : InstanceRef) (rec : InstanceRecord) : RawNode :=
  let lane := laneFor ref
  { n with instances := n.instances.erase ref
           engine := n.engine.foldRecord (n.retiredLane lane).folded rec
           retired := n.retired.insert lane ((n.retiredLane lane).foldRecord rec) }.note
    (.released ref)

/-- Drops the payload of an executed instance, which stays known through its full record. -/
def dropPayload (n : RawNode) (ref : InstanceRef) : RawNode :=
  match n.instances.get? ref with
  | none => n
  | some inst =>
    if inst.payloadAbsent.isSome || inst.record.status ≠ .executed ||
        inst.record.command.payload.isEmpty then n
    else n.setInstance ref fun inst ↦
      { inst with
        record := { inst.record with command := { inst.record.command with payload := [] } }
        payloadAbsent := some inst.record }

/-- Folds one lane up to the retention bound and drops the payloads of what stays. -/
def retireLane (items : List (InstanceRef × InstanceRecord)) (n : RawNode) (lane : InstanceLane) :
    RawNode :=
  let items := items.filter fun item ↦ decide (laneFor item.1 = lane)
  let executedThrough := n.durableExecuted.throughOf lane
  let target := executedThrough - n.cfg.retainExecutedPerLane
  let folded := n.foldedThrough lane
  if executedThrough = 0 then n
  else
    let n := if target ≤ folded then n else
      let due := items.filter fun item ↦
        decide (folded < item.1.inst) && decide (item.1.inst ≤ target)
      let n := due.foldl (fun node item ↦ node.foldInstance item.1 item.2) n
      let contiguous := (n.retiredLane lane).contiguous target
      if contiguous ≤ folded then n
      else
        { n with retired := n.retired.insert lane ((n.retiredLane lane).advanceFold contiguous)
                 executed := n.executed.forgetExactThrough lane contiguous
                 durableExecuted := n.durableExecuted.forgetExactThrough lane contiguous }
    items.foldl (fun node item ↦ node.dropPayload item.1) n

def retireExecuted (n : RawNode) : RawNode :=
  let items := (n.instances.entries.filter fun entry ↦ entry.2.record.status == .executed &&
    n.executed.contains entry.1 && n.durableExecuted.contains entry.1).map fun entry ↦
      (entry.1, entry.2.record)
  ((items.map fun item ↦ laneFor item.1).dedup).foldl (retireLane items) n

/-! ### Record loads -/

/-- Folds a loaded record again, or drops its payload when it is above the watermark. -/
def maybeRefoldLoaded (n : RawNode) (ref : InstanceRef) : RawNode :=
  match n.instances.get? ref with
  | none => n
  | some inst =>
    if inst.record.status ≠ .executed then n
    else if n.foldedThrough (laneFor ref) < ref.inst then n.dropPayload ref
    else n.foldInstance ref inst.record

/-- Steps the messages that waited for a record, up to the first error. -/
def stepAll (n : RawNode) : List Message → RawNode × Option Err
  | [] => (n, none)
  | m :: rest =>
    match n.step m with
    | (n, some err) => (n, some err)
    | (n, none) => n.stepAll rest

def runExport (ref : InstanceRef) (n : RawNode) (work : RecordLoadExport) : RawNode :=
  if work.target = 0 then n.broadcast work.type ref else n.sendCommitTo work.target ref

/-- A record load is over, and the messages that waited for it are no longer held. -/
def closeRecordLoad (n : RawNode) (ref : InstanceRef) (wait : RecordLoadWait) : RawNode :=
  { n with pendingRecordLoads := n.pendingRecordLoads.erase ref
           pendingRecordLoadMessages := n.pendingRecordLoadMessages - wait.messages.length }

/-- The application's answer to a record load: a stored record, or none. -/
def provideRecordLoad (n : RawNode) (ref : InstanceRef) (found : Option LoadedRecord) :
    RawNode × Option Err :=
  match n.pendingRecordLoads.get? ref with
  | none => (n, some .unrequestedRecordLoad)
  | some wait =>
    match found with
    | none => if wait.required then (n, some .invalidRecord) else (n.closeRecordLoad ref wait, none)
    | some loaded =>
      let record := loaded.record
      let inst := n.instances.get? ref
      let full := inst.bind Instance.payloadAbsent
      if record.ref ≠ ref || !validateRecordChecksum loaded ||
          full.elim false (fun full ↦ loaded.checksum != full) then (n, some .invalidRecord)
      else
        let n := match inst with
          | none => n.installInstance { record := record, phase := phaseFromStatus record.status }
          | some _ => n.setInstance ref fun inst ↦
              { inst with record := record, payloadAbsent := none }
        match (n.closeRecordLoad ref wait).stepAll wait.messages with
        | (n, some err) => (n.maybeRefoldLoaded ref, some err)
        | (n, none) =>
          let n := if wait.needReadyRecord then n.enqueueRecord ((n.record? ref).getD record) else n
          ((wait.exports.foldl (runExport ref) n).maybeRefoldLoaded ref, none)

/-! ### Freezing and acknowledging -/

def hasReady (n : RawNode) : Bool :=
  n.awaitAdvance || !n.pendingReady.empty || n.currentHardState != n.acknowledgedHardState

def freezeReady (n : RawNode) : RawNode :=
  let frozen := n.pendingReady
  let frozen := if n.currentHardState ≠ n.acknowledgedHardState then
    { frozen with hardState := n.currentHardState } else frozen
  let split := 0 < n.cfg.maxReadyMessages && n.cfg.maxReadyMessages < frozen.messages.length
  let kept : Ready := if split then
    { messages := frozen.messages.drop n.cfg.maxReadyMessages } else {}
  let frozen := if split then
    { frozen with messages := frozen.messages.take n.cfg.maxReadyMessages } else frozen
  { n with frozenReady := { frozen with mustSync := readyHasDurableUpdate frozen }
           pendingReady := kept, awaitAdvance := true }

/-- Freezes the pending work if there is any and nothing is frozen. -/
def ready (n : RawNode) : RawNode :=
  if n.awaitAdvance || !n.hasReady then n else n.freezeReady

/-- The records of the frozen batch that a configuration change in the acknowledged hard state needs
with it. -/
def requiredRecords (n : RawNode) (rd : Ready) : ℕ :=
  let acknowledged := n.acknowledgedHardState.conf.id
  let needed := n.frozenReady.records.zipIdx.filter fun entry ↦
    entry.1.status == .executed && entry.1.confChangeResult.outcome == .applied &&
      decide (acknowledged < entry.1.confChangeResult.conf.id) &&
      decide (entry.1.confChangeResult.conf.id ≤ rd.hardState.conf.id)
  needed.getLast?.elim 0 fun entry ↦ entry.2 + 1

/-- Whether one of those records is a membership control. -/
def membershipSuccessor (n : RawNode) (rd : Ready) : Bool :=
  n.frozenReady.records.any fun rec ↦ rec.status == .executed && rec.kind == .membership &&
    rec.confChangeResult.outcome == .applied &&
    decide (n.acknowledgedHardState.conf.id < rec.confChangeResult.conf.id) &&
    decide (rec.confChangeResult.conf.id ≤ rd.hardState.conf.id)

/-- Whether a batch is a prefix of the frozen one that may be acknowledged: durable state first,
then messages and commands. -/
def validateReadyAck (n : RawNode) (rd : Ready) : Bool :=
  let frozen := n.frozenReady
  let payload := !rd.configHistory.isEmpty || !rd.records.isEmpty || !rd.bootstrapRecords.isEmpty ||
    rd.localVoterState.isSome || !rd.frontierUpdates.isEmpty || rd.allocatorFloor != 0 ||
    !rd.messages.isEmpty || !rd.bootstrapMessages.isEmpty || !rd.apply.isEmpty ||
    !rd.recordLoads.isEmpty || rd.snapshot.isSome || rd.checkpoint.isSome || !rd.compact.isEmpty
  let hardState := if !rd.hardState.empty then rd.hardState == frozen.hardState
    else frozen.hardState.empty || !payload
  let confAdvanced := !rd.hardState.empty &&
    decide (n.acknowledgedHardState.conf.id < rd.hardState.conf.id)
  let effects := !rd.messages.isEmpty || !rd.bootstrapMessages.isEmpty || !rd.apply.isEmpty ||
    rd.checkpoint.isSome || !rd.compact.isEmpty
  let durable := rd.configHistory.length == frozen.configHistory.length &&
    rd.records.length == frozen.records.length &&
    rd.bootstrapRecords.length == frozen.bootstrapRecords.length &&
    rd.frontierUpdates.length == frozen.frontierUpdates.length &&
    (frozen.localVoterState.isNone || rd.localVoterState.isSome) &&
    (frozen.allocatorFloor == 0 || rd.allocatorFloor != 0) &&
    (frozen.snapshot.isNone || rd.snapshot.isSome)
  !rd.empty && rd.mustSync == readyHasDurableUpdate rd && hardState &&
    rd.configHistory.isPrefixOf frozen.configHistory && rd.records.isPrefixOf frozen.records &&
    decide (rd.bootstrapRecords.length ≤ frozen.bootstrapRecords.length) &&
    ((rd.bootstrapRecords.zip frozen.bootstrapRecords).all fun pair ↦
      bootstrapRecordEqual pair.1 pair.2) &&
    rd.frontierUpdates.isPrefixOf frozen.frontierUpdates &&
    rd.messages.isPrefixOf frozen.messages &&
    rd.bootstrapMessages.isPrefixOf frozen.bootstrapMessages && rd.apply.isPrefixOf frozen.apply &&
    decide (rd.recordLoads.length ≤ frozen.recordLoads.length) &&
    rd.compact.isPrefixOf frozen.compact &&
    (rd.localVoterState.isNone || rd.localVoterState == frozen.localVoterState) &&
    (rd.allocatorFloor == 0 || rd.allocatorFloor == frozen.allocatorFloor) &&
    (rd.snapshot.isNone || rd.snapshot == frozen.snapshot) &&
    (rd.checkpoint.isNone || rd.checkpoint == frozen.checkpoint) &&
    (!confAdvanced || (decide (n.requiredRecords rd ≤ rd.records.length) &&
      (!n.membershipSuccessor rd || (rd.configHistory.length == frozen.configHistory.length &&
        rd.bootstrapRecords.length == frozen.bootstrapRecords.length &&
        rd.localVoterState.isSome)))) &&
    (!effects || durable) &&
    (rd.checkpoint.isNone || rd.apply.length == frozen.apply.length)

/-- The frozen batch without an acknowledged prefix. -/
def consumeReady (frozen rd : Ready) : Ready :=
  let rest :=
    { frozen with
      hardState := if rd.hardState.empty then frozen.hardState else {}
      configHistory := frozen.configHistory.drop rd.configHistory.length
      records := frozen.records.drop rd.records.length
      bootstrapRecords := frozen.bootstrapRecords.drop rd.bootstrapRecords.length
      frontierUpdates := frozen.frontierUpdates.drop rd.frontierUpdates.length
      bootstrapMessages := frozen.bootstrapMessages.drop rd.bootstrapMessages.length
      localVoterState := if rd.localVoterState.isSome then none else frozen.localVoterState
      allocatorFloor := if rd.allocatorFloor = 0 then frozen.allocatorFloor else 0
      messages := frozen.messages.drop rd.messages.length
      apply := frozen.apply.drop rd.apply.length
      recordLoads := frozen.recordLoads.drop rd.recordLoads.length
      snapshot := if rd.snapshot.isSome then none else frozen.snapshot
      checkpoint := if rd.checkpoint.isSome then none else frozen.checkpoint
      compact := frozen.compact.drop rd.compact.length }
  { rest with mustSync := readyHasDurableUpdate rest }

/-- What an acknowledgement is of: record loads are acknowledged by their number, and bootstrap
records by their digests, whatever the acknowledgement holds of them. -/
def returnedPart (frozen rd : Ready) : Ready :=
  { rd with recordLoads := frozen.recordLoads.take rd.recordLoads.length
            bootstrapRecords := frozen.bootstrapRecords.take rd.bootstrapRecords.length }

/-- The work that came up while a batch was frozen follows what is pending. -/
def mergeNextReady (n : RawNode) : RawNode :=
  let pending := n.pendingReady
  let next := n.nextReady
  let merged :=
    { pending with
      configHistory := pending.configHistory ++ next.configHistory
      records := pending.records ++ next.records
      bootstrapRecords := pending.bootstrapRecords ++ next.bootstrapRecords
      frontierUpdates := pending.frontierUpdates ++ next.frontierUpdates
      bootstrapMessages := pending.bootstrapMessages ++ next.bootstrapMessages
      localVoterState := next.localVoterState.or pending.localVoterState
      allocatorFloor := max pending.allocatorFloor next.allocatorFloor
      messages := pending.messages ++ next.messages
      apply := pending.apply ++ next.apply
      snapshot := next.snapshot.or pending.snapshot
      checkpoint := next.checkpoint.or pending.checkpoint
      compact := pending.compact ++ next.compact }
  { n with pendingReady := { merged with mustSync := readyHasDurableUpdate merged }
           nextReady := { recordLoads := next.recordLoads } }

/-- Applied commands are recorded as executed. -/
def enqueueExecutedRecords (n : RawNode) (applied : List ApplyCommand) : RawNode :=
  applied.foldl (fun node command ↦
    match (node.record? command.ref).filter fun rec ↦ rec.status == .executed with
    | none => node
    | some rec => node.enqueueRecord rec) n

/-- What an acknowledged batch changes before executed instances are retired. -/
def acknowledge (n : RawNode) (rd : Ready) : RawNode :=
  let n := if rd.hardState.empty then n else { n with acknowledgedHardState := rd.hardState }
  let n := match rd.localVoterState with
    | none => n
    | some state => { n with durableLocalVoter := state }
  let n := { n with frozenReady := consumeReady n.frozenReady rd
                    acknowledged := n.acknowledged.followedBy (returnedPart n.frozenReady rd) }
  let n := match rd.snapshot with
    | none => n
    | some snapshot =>
      { n with durableCheckpoint := snapshot.checkpoint }.checkpointSnapshotAdvanced snapshot
  let n := if !rd.compact.isEmpty && n.frozenReady.compact.isEmpty then
      { n with durableCheckpoint := { n.durableCheckpoint with
          compactedThrough := n.durableCheckpoint.descriptor.through } }
    else n
  let executed := (rd.records.filter fun rec ↦ rec.status == .executed).foldl
    (fun tracker rec ↦ tracker.add rec.ref) n.durableExecuted
  let n := { n with durableExecuted := executed }
  n.enqueueExecutedRecords rd.apply

/-- A finished compaction drops the compacted metadata and lets execution go on. -/
def resumeAfterCompaction (n : RawNode) : RawNode :=
  let n := n.compactCheckpointMetadata
  { n with startupSnapshot := false, executionPaused := false }.beginDrive.runExecution

/-- An installed startup snapshot is compacted unless that has happened already. -/
def snapshotInstalled (n : RawNode) : RawNode :=
  if n.durableCheckpoint.compactedThrough = n.durableCheckpoint.descriptor.through then
    n.resumeAfterCompaction
  else { n with checkpointCompacting := true }.modifyReady fun ready ↦
    { ready with compact := canonicalCompactionRanges n.durableCheckpoint, mustSync := true }

def advance (n : RawNode) (rd : Ready) : RawNode × Option Err :=
  if !n.awaitAdvance then (n, if rd.empty then none else some .invalidReady)
  else if !n.validateReadyAck rd then (n, some .invalidReady)
  else
    let compacted := !rd.compact.isEmpty && (n.frozenReady.compact.drop rd.compact.length).isEmpty
    let n := (n.acknowledge rd).retireExecuted
    let n := if n.frozenReady.empty then
      { n with awaitAdvance := false, frozenReady := {} }.mergeNextReady else n
    let n := if rd.snapshot.isSome && n.startupSnapshot && checkpointCertified n.durableCheckpoint
      then n.snapshotInstalled else n
    let n := if compacted && n.checkpointCompacting then
        { n with checkpointCompacting := false, checkpointRound := none }.resumeAfterCompaction
      else n
    (n, none)

end RawNode

end MoreConsensus
