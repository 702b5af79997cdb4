import MoreConsensus.Types

/-!
# Checkpoints

The values of `epaxos/checkpoint.go`: execution frontiers, checkpoint descriptors, certificates and
the control values that replicas exchange about them. A digest of the source is represented by the
data it digests, so that equal digests mean equal data; the application digest, which the
application computes, is a number. Voter identities are replica ids, as in `Message`.
-/

set_option autoImplicit false

namespace MoreConsensus

open Library

/-! ### Execution frontiers -/

structure ExecutionLaneFrontier where
  replica : ReplicaID := 0
  through : InstanceNum := 0
  deriving BEq, ReflBEq, LawfulBEq, Repr, Inhabited

structure ExecutionConfigFrontier where
  conf : ConfID := 0
  lanes : List ExecutionLaneFrontier := []
  deriving BEq, ReflBEq, LawfulBEq, Repr, Inhabited

/-- The executed prefix of every lane, by configuration. -/
structure ExecutionFrontier where
  configs : List ExecutionConfigFrontier := []
  deriving BEq, ReflBEq, LawfulBEq, Repr, Inhabited

instance : DecidableEq ExecutionFrontier := instDecidableEqOfLawfulBEq

/-- The lane of a replica in a configuration's frontier. -/
def ExecutionConfigFrontier.lane? (config : ExecutionConfigFrontier) (replica : ReplicaID) :
    Option ExecutionLaneFrontier :=
  config.lanes.find? fun lane ↦ lane.replica == replica

/-- The frontier of a lane, in the first configuration entry that has it. -/
def ExecutionFrontier.lane? (frontier : ExecutionFrontier) (lane : InstanceLane) :
    Option ExecutionLaneFrontier :=
  frontier.configs.findSome? fun config ↦
    if config.conf = lane.conf then config.lane? lane.replica else none

def executionFrontierLane (frontier : ExecutionFrontier) (lane : InstanceLane) : InstanceNum :=
  (frontier.lane? lane).elim 0 ExecutionLaneFrontier.through

def frontierCovers (frontier : ExecutionFrontier) (ref : InstanceRef) : Bool :=
  (frontier.lane? (laneFor ref)).elim false fun lane ↦ ref.inst ≤ lane.through

/-- Whether the last lane of `next` for a replica reaches `through`. -/
def frontierReaches (next : ExecutionFrontier) (conf : ConfID) (lane : ExecutionLaneFrontier) :
    Bool :=
  let lanes := next.configs.flatMap fun config ↦
    if config.conf = conf then config.lanes.filter fun other ↦ other.replica == lane.replica else []
  lanes.getLast?.elim false fun other ↦ lane.through ≤ other.through

/-- Whether some lane of `current` is ahead of `next`. -/
def frontierRegressesExecution (current next : ExecutionFrontier) : Bool :=
  current.configs.any fun config ↦ config.lanes.any fun lane ↦
    !frontierReaches next config.conf lane && lane.through != 0

def validateExecutionFrontier (frontier : ExecutionFrontier)
    (history : FiniteMap ConfID VoterSet) : Bool :=
  decide ((frontier.configs.map ExecutionConfigFrontier.conf).Pairwise (· < ·)) &&
    frontier.configs.all fun config ↦ config.conf != 0 &&
      (history.get? config.conf).elim false fun conf ↦
        config.lanes.map ExecutionLaneFrontier.replica == conf.voters

/-! ### Descriptors and certificates -/

/-- What `checkpointBarrierTupleDigest` digests. -/
structure BarrierTuple where
  ref : InstanceRef := {}
  recordBallot : Ballot := {}
  seq : ℕ := 0
  deps : List InstanceNum := []
  value : EntryValue := {}
  deriving BEq, ReflBEq, LawfulBEq, Repr, Inhabited

def checkpointBarrierTupleDigest (rec : InstanceRecord) : BarrierTuple :=
  ⟨rec.ref, rec.recordBallot, rec.seq, rec.deps, rec.value⟩

structure CheckpointID where
  barrier : BarrierTuple := {}
  through : ExecutionFrontier := {}
  deriving BEq, ReflBEq, LawfulBEq, Repr, Inhabited

instance : DecidableEq CheckpointID := instDecidableEqOfLawfulBEq

def deriveCheckpointID (barrier : BarrierTuple) (through : ExecutionFrontier) : CheckpointID :=
  ⟨barrier, through⟩

structure AllocatorFence where
  conf : ConfID := 0
  replica : ReplicaID := 0
  next : InstanceNum := 0
  deriving BEq, ReflBEq, LawfulBEq, Repr, Inhabited

/-- What `checkpointProtocolStateDigest` digests. -/
structure ProtocolState where
  configs : List ConfState := []
  barrier : BarrierTuple := {}
  through : ExecutionFrontier := {}
  fences : List AllocatorFence := []
  deriving BEq, ReflBEq, LawfulBEq, Repr, Inhabited

def checkpointProtocolStateDigest (history : FiniteMap ConfID VoterSet)
    (through : ExecutionFrontier) (barrier : BarrierTuple) (fences : List AllocatorFence) :
    ProtocolState :=
  let included := history.entries.filter fun entry ↦
    (through.configs.map ExecutionConfigFrontier.conf).contains entry.1
  ⟨included.map fun entry ↦ ⟨entry.1, entry.2.voters⟩, barrier, through, fences⟩

structure CheckpointDescriptor where
  id : CheckpointID := {}
  conf : ConfState := {}
  barrier : InstanceRef := {}
  barrierTupleDigest : BarrierTuple := {}
  through : ExecutionFrontier := {}
  allocatorFences : List AllocatorFence := []
  applicationDigest : ℕ := 0
  protocolStateDigest : ProtocolState := {}
  deriving BEq, ReflBEq, LawfulBEq, Repr, Inhabited

instance : DecidableEq CheckpointDescriptor := instDecidableEqOfLawfulBEq

structure VoterAcknowledgement where
  voter : ReplicaID := 0
  attestedDigest : CheckpointDescriptor := {}
  deriving BEq, ReflBEq, LawfulBEq, Repr, Inhabited

instance : DecidableEq VoterAcknowledgement := instDecidableEqOfLawfulBEq

/-- A checkpoint; it is certified when its certificate has acknowledgements. -/
structure Checkpoint where
  descriptor : CheckpointDescriptor := {}
  certificate : List VoterAcknowledgement := []
  applicationSnapshot : Bytes := []
  compactedThrough : ExecutionFrontier := {}
  deriving BEq, ReflBEq, LawfulBEq, Repr, Inhabited

instance : DecidableEq Checkpoint := instDecidableEqOfLawfulBEq

def Checkpoint.empty (checkpoint : Checkpoint) : Bool := checkpoint.descriptor.id == {}

def checkpointCertified (checkpoint : Checkpoint) : Bool :=
  !checkpoint.empty && !checkpoint.certificate.isEmpty

/-- A slow quorum of acknowledgements of the descriptor, in the order of the voters. -/
def buildCheckpointCertificate (descriptor : CheckpointDescriptor)
    (acknowledgements : List VoterAcknowledgement) : Option (List VoterAcknowledgement) :=
  let sorted := acknowledgements.insertionSort fun first second ↦ first.voter ≤ second.voter
  if sorted.length = slowQuorumSize descriptor.conf.voters.length &&
      decide ((sorted.map VoterAcknowledgement.voter).Pairwise (· < ·)) &&
      sorted.all fun ack ↦ ack.attestedDigest == descriptor && descriptor.conf.contains ack.voter
  then some sorted
  else none

def maxApplicationSnapshotHandle : ℕ := 65536

/-- The lanes of a frontier with their configurations, in order. -/
def ExecutionFrontier.laneList (frontier : ExecutionFrontier) :
    List (ConfID × ExecutionLaneFrontier) :=
  frontier.configs.flatMap fun config ↦ config.lanes.map fun lane ↦ (config.conf, lane)

/-- One fence for each lane, past its frontier. -/
def fencesMatch : List (ConfID × ExecutionLaneFrontier) → List AllocatorFence → Bool
  | [], [] => true
  | (conf, lane) :: lanes, fence :: fences =>
    (instanceSuccessor lane.through).elim false (fun minimum ↦
      fence.conf == conf && fence.replica == lane.replica && decide (minimum ≤ fence.next)) &&
      fencesMatch lanes fences
  | _, _ => false

def validateCheckpoint (checkpoint : Checkpoint) (history : FiniteMap ConfID VoterSet) : Bool :=
  let d := checkpoint.descriptor
  checkpoint.empty ||
    (d.applicationDigest != 0 && !d.barrier.isZero && d.barrierTupleDigest != {} &&
      d.protocolStateDigest != {} && deriveCheckpointID d.barrierTupleDigest d.through == d.id &&
      !checkpoint.applicationSnapshot.isEmpty &&
      decide (checkpoint.applicationSnapshot.length ≤ maxApplicationSnapshotHandle) &&
      validateExecutionFrontier d.through history &&
      (history.get? d.conf.id).elim false (fun conf ↦ conf.voters == d.conf.voters) &&
      d.barrier.conf == d.conf.id &&
      fencesMatch d.through.laneList d.allocatorFences &&
      d.protocolStateDigest ==
        checkpointProtocolStateDigest history d.through d.barrierTupleDigest d.allocatorFences &&
      (checkpoint.compactedThrough.configs.isEmpty ||
        !frontierRegressesExecution checkpoint.compactedThrough d.through) &&
      (checkpoint.certificate.isEmpty ||
        buildCheckpointCertificate d checkpoint.certificate == some checkpoint.certificate))

/-! ### Requests, snapshots and control values -/

structure CheckpointRequest where
  id : CheckpointID := {}
  through : ExecutionFrontier := {}
  deriving BEq, ReflBEq, LawfulBEq, Repr, Inhabited

structure CheckpointResult where
  id : CheckpointID := {}
  applicationSnapshot : Bytes := []
  applicationDigest : ℕ := 0
  deriving BEq, ReflBEq, LawfulBEq, Repr, Inhabited

instance : DecidableEq CheckpointResult := instDecidableEqOfLawfulBEq

inductive SnapshotMode
  | persistLocal | install
  deriving DecidableEq, Repr, Inhabited

structure Snapshot where
  mode : SnapshotMode := .persistLocal
  checkpoint : Checkpoint := {}
  deriving BEq, ReflBEq, LawfulBEq, Repr, Inhabited

instance : DecidableEq Snapshot := instDecidableEqOfLawfulBEq

structure CompactionRange where
  checkpoint : CheckpointID := {}
  conf : ConfID := 0
  replica : ReplicaID := 0
  through : InstanceNum := 0
  deriving BEq, ReflBEq, LawfulBEq, Repr, Inhabited

instance : DecidableEq CompactionRange := instDecidableEqOfLawfulBEq

def canonicalCompactionRanges (checkpoint : Checkpoint) : List CompactionRange :=
  if checkpointCertified checkpoint then
    (checkpoint.descriptor.through.laneList.filter fun lane ↦ lane.2.through != 0).map fun lane ↦
      ⟨checkpoint.descriptor.id, lane.1, lane.2.replica, lane.2.through⟩
  else []

/-- The decoded payload of a checkpoint control message. -/
inductive CheckpointControl
  | vote (descriptor : CheckpointDescriptor) (vote : VoterAcknowledgement)
  | certificate (checkpoint : Checkpoint)
  | offer (checkpoint : Checkpoint)
  deriving DecidableEq, Repr, Inhabited

structure CheckpointRound where
  barrier : InstanceRef := {}
  request : CheckpointRequest := {}
  result : CheckpointResult := {}
  checkpoint : Checkpoint := {}
  votes : FiniteMap ReplicaID VoterAcknowledgement := ∅
  preparedDurable : Bool := false
  certificateDurable : Bool := false

def checkpointBarrierPayload : Bytes :=
  [101, 112, 97, 120, 111, 115, 47, 99, 104, 101, 99, 107, 112, 111, 105, 110, 116, 45, 98, 97, 114,
    114, 105, 101, 114, 47, 118, 49]

end MoreConsensus
