import MoreConsensus.Conflicts.Engine
import MoreConsensus.Library.IndexedHeaps
import MoreConsensus.Message

/-!
# The state of a node

The structures of `epaxos/node.go`, `epaxos/vote_set.go` and the trackers of
`epaxos/sparse_progress.go`, with their elementary updates. A map of the source is a `FiniteMap`
ordered by its key, which is also the order in which the source visits it wherever the order
matters. Voter masks are lists of replicas; a mask is only read through the voters of its
configuration, so a replica that is not a voter has no bit. The conflict engine indexes the resident
instances (`ConflictEngine`); what it keeps of folded ones is a field of its own (`RetiredLane`).

`journal`, `enqueued`, `acknowledged` and `taken` are history variables that no function reads: the
decisions that properties of runs speak about, what is queued, what the application acknowledges,
and the deferred PreAccepts that are taken up. The deferred PreAccepts are heaps with a common index
(`IndexedHeaps`), whose entries carry their positions.
-/

set_option autoImplicit false

namespace MoreConsensus

open Library

/-! ### Votes -/

abbrev VoterMask := List ReplicaID

namespace VoterMask

/-- The mask with one more voter, `none` when the sender is no voter or has voted. -/
def add (mask : VoterMask) (conf : ConfState) (sender : ReplicaID) : Option VoterMask :=
  if !conf.contains sender || mask.contains sender then none else some (sender :: mask)

/-- Addition where the source ignores the result. -/
def addOrKeep (mask : VoterMask) (conf : ConfState) (sender : ReplicaID) : VoterMask :=
  (mask.add conf sender).getD mask

def len (mask : VoterMask) (conf : ConfState) : ℕ := (conf.voters.filter mask.contains).length

end VoterMask

/-- A PreAccept vote. -/
structure AttrVote where
  seq : ℕ := 0
  deps : List InstanceNum := []
  depsCommitted : List ReplicaID := []
  fastPathEligible : Bool := false
  deriving BEq, ReflBEq, LawfulBEq, Repr, Inhabited

def AttrVote.attributes (vote : AttrVote) : Attributes := ⟨vote.seq, vote.deps⟩

/-- A vote whose dependency vector has the width of the configuration. -/
def newAttrVote (conf : ConfState) (seq : ℕ) (deps : List InstanceNum)
    (depsCommitted : List ReplicaID) (fastPathEligible : Bool) : Option AttrVote :=
  if deps.length = conf.voters.length then some ⟨seq, deps, depsCommitted, fastPathEligible⟩
  else none

abbrev VoteSet (α : Type) := FiniteMap ReplicaID α

namespace VoteSet

variable {α : Type}

/-- The set with one more vote, `none` when the sender is no voter or has voted. -/
def add (votes : VoteSet α) (conf : ConfState) (sender : ReplicaID) (vote : α) :
    Option (VoteSet α) :=
  if !conf.contains sender || votes.contains sender then none
  else some (votes.insert sender vote)

/-- Addition where the source ignores the result. -/
def addOrKeep (votes : VoteSet α) (conf : ConfState) (sender : ReplicaID) (vote : α) : VoteSet α :=
  (VoteSet.add votes conf sender vote).getD votes

def get (votes : VoteSet α) (conf : ConfState) (sender : ReplicaID) : Option α :=
  if conf.contains sender then FiniteMap.get? votes sender else none

def len (votes : VoteSet α) (conf : ConfState) : ℕ :=
  (conf.voters.filter fun id ↦ FiniteMap.contains votes id).length

/-- The votes in the order of the voters. -/
def each (votes : VoteSet α) (conf : ConfState) : List (ReplicaID × α) :=
  conf.voters.filterMap fun id ↦ (FiniteMap.get? votes id).map fun vote ↦ (id, vote)

end VoteSet

/-! ### Instances and timers -/

inductive Phase
  | idle | preAccept | accept | prepare | tryPreAccept | committed
  deriving DecidableEq, Repr, Inhabited

/-- An instance: its record and the volatile state of its coordinator. -/
structure Instance where
  record : InstanceRecord
  phase : Phase := .idle
  preOK : VoteSet AttrVote := ∅
  accOK : VoterMask := []
  prepareOK : VoteSet InstanceRecord := ∅
  tryOK : VoterMask := []
  tryDeferred : List InstanceRef := []
  prepareEvidence : VoteSet InstanceRecord := ∅
  tryIgnored : List InstanceRef := []
  waitDeadline : ℕ := 0
  processAt : ℕ := 0
  generation : ℕ := 0
  /-- The full record of an executed instance whose payload was dropped, for its checksum. -/
  payloadAbsent : Option InstanceRecord := none

/-- Everything a coordinator gathers is dropped; the record, phase and generation stay. -/
def releaseInstanceVolatile (inst : Instance) : Instance :=
  { inst with preOK := ∅, accOK := [], prepareOK := ∅, prepareEvidence := ∅, tryOK := [],
              tryDeferred := [], tryIgnored := [], waitDeadline := 0,
              processAt := inst.record.processAt }

inductive TimerKind
  | preAccept | accept | prepare | tryPreAccept | fastWait
  deriving DecidableEq, Repr, Inhabited

def TimerKind.rank : TimerKind → ℕ
  | .preAccept => 1
  | .accept => 2
  | .prepare => 3
  | .tryPreAccept => 4
  | .fastWait => 5

structure Timer where
  deadline : ℕ
  ref : InstanceRef
  kind : TimerKind
  gen : ℕ
  deriving BEq, ReflBEq, LawfulBEq, Repr, Inhabited

instance : DecidableEq Timer := instDecidableEqOfLawfulBEq

/-- The order of the timer heap. -/
def Timer.less (first second : Timer) : Bool :=
  if first.deadline ≠ second.deadline then first.deadline < second.deadline
  else if first.ref ≠ second.ref then first.ref < second.ref
  else if first.kind ≠ second.kind then first.kind.rank < second.kind.rank
  else first.gen < second.gen

/-- Insertion into a list kept in the order in which the heap yields its elements. -/
def insertTimer (timer : Timer) : List Timer → List Timer
  | [] => [timer]
  | head :: rest =>
    if head.less timer then head :: insertTimer timer rest else timer :: head :: rest

/-! ### Progress trackers -/

/-- The executed instances: exact references and a contiguous prefix of each lane. -/
structure ExecutedTracker where
  exact : List InstanceRef := []
  through : FiniteMap InstanceLane InstanceNum := ∅

namespace ExecutedTracker

/-- The contiguous prefix of a lane (`prefix` in the source). -/
def throughOf (tracker : ExecutedTracker) (lane : InstanceLane) : InstanceNum :=
  (tracker.through.get? lane).getD 0

def contains (tracker : ExecutedTracker) (ref : InstanceRef) : Bool :=
  if ref.isZero || ref.inst = 0 then false
  else decide (ref.inst ≤ tracker.throughOf (laneFor ref)) || tracker.exact.contains ref

def forgetExactThrough (tracker : ExecutedTracker) (lane : InstanceLane) (through : InstanceNum) :
    ExecutedTracker :=
  if through = 0 then tracker
  else { tracker with exact := tracker.exact.filter fun ref ↦
    !(decide (laneFor ref = lane) && decide (ref.inst ≤ through)) }

/-- The prefix of a lane moves over the exact references that follow it. The bound is the number
of exact references, each of which is passed at most once. -/
def advance (tracker : ExecutedTracker) (lane : InstanceLane) : ℕ → ExecutedTracker
  | 0 => tracker
  | bound + 1 =>
    match instanceSuccessor (tracker.throughOf lane) with
    | none => tracker
    | some next =>
      if tracker.exact.contains (lane.ref next) then
        advance { tracker with through := tracker.through.insert lane next } lane bound
      else tracker

def add (tracker : ExecutedTracker) (ref : InstanceRef) : ExecutedTracker :=
  if ref.isZero || ref.inst = 0 then tracker
  else
    let exact := if tracker.exact.contains ref then tracker.exact else ref :: tracker.exact
    advance { tracker with exact := exact } (laneFor ref) exact.length

end ExecutedTracker

/-- What the conflict engine keeps of the folded instances of one lane. -/
structure RetiredLane where
  folded : InstanceNum := 0
  eligibleAny : InstanceNum := 0
  globalMax : InstanceNum := 0
  retiredSeq : List (InstanceNum × ℕ) := []
  seqCompressed : Bool := false
  pendingFold : List InstanceNum := []
  deriving BEq, ReflBEq, LawfulBEq, Repr, Inhabited

/-! ### Ready batches -/

/-- The durable node-level state. -/
structure HardState where
  conf : ConfState := {}
  tick : ℕ := 0
  deriving BEq, ReflBEq, LawfulBEq, Repr, Inhabited

instance : DecidableEq HardState := instDecidableEqOfLawfulBEq

/-- A durable configuration winner. -/
structure ConfigHistoryEntry where
  conf : ConfState := {}
  appliedRef : InstanceRef := {}
  deriving BEq, ReflBEq, LawfulBEq, Repr, Inhabited

/-- Whether the local replica may take part in a configuration. -/
structure LocalVoterState where
  conf : ConfState := {}
  eligible : Bool := false
  deriving BEq, ReflBEq, LawfulBEq, Repr, Inhabited

def LocalVoterState.isEligible (state : LocalVoterState) (conf : ConfState) : Bool :=
  state.eligible && state.conf == conf

structure ApplyCommand where
  ref : InstanceRef := {}
  seq : ℕ := 0
  deps : List InstanceNum := []
  command : Command := {}
  deriving BEq, ReflBEq, LawfulBEq, Repr, Inhabited

instance : DecidableEq ApplyCommand := instDecidableEqOfLawfulBEq

/-- A durable step of a bootstrap plan, as the queues carry it. Its canonical digest covers its
plan, phase, outcome and fence, but its certificates only by their digests. -/
structure BootstrapRecord where
  plan : ℕ := 0
  digest : ℕ := 0
  canonical : ℕ := 0
  /-- The voters whose acknowledgements its certificates hold, with what they attest. -/
  acknowledgements : List (ReplicaID × ℕ) := []
  deriving BEq, ReflBEq, LawfulBEq, Repr, Inhabited

/-- The source compares the digest that is stored with a record and the canonical one. -/
def bootstrapRecordEqual (a b : BootstrapRecord) : Bool :=
  a.digest == b.digest && a.canonical == b.canonical

/-- A durable frontier of a fenced configuration and a message of the bootstrap plane. What they say
is left out. -/
structure FrontierUpdate where
  conf : ConfID := 0
  digest : ℕ := 0
  deriving BEq, ReflBEq, LawfulBEq, Repr, Inhabited

structure BootstrapMessage where
  plan : ℕ := 0
  source : ReplicaID := 0
  target : ReplicaID := 0
  digest : ℕ := 0
  deriving BEq, ReflBEq, LawfulBEq, Repr, Inhabited

/-- Work for the embedding application: state to persist, then messages to send and commands to
apply. -/
structure Ready where
  hardState : HardState := {}
  configHistory : List ConfigHistoryEntry := []
  records : List InstanceRecord := []
  bootstrapRecords : List BootstrapRecord := []
  localVoterState : Option LocalVoterState := none
  frontierUpdates : List FrontierUpdate := []
  allocatorFloor : InstanceNum := 0
  messages : List Message := []
  bootstrapMessages : List BootstrapMessage := []
  apply : List ApplyCommand := []
  snapshot : Option Snapshot := none
  checkpoint : Option CheckpointRequest := none
  compact : List CompactionRange := []
  recordLoads : List InstanceRef := []
  mustSync : Bool := false
  deriving BEq, ReflBEq, LawfulBEq, Repr, Inhabited

instance : DecidableEq Ready := instDecidableEqOfLawfulBEq

def Ready.empty (rd : Ready) : Bool := rd == {}

/-- The entries of one batch followed by those of another. -/
def Ready.followedBy (rd next : Ready) : Ready :=
  { rd with configHistory := rd.configHistory ++ next.configHistory
            records := rd.records ++ next.records
            bootstrapRecords := rd.bootstrapRecords ++ next.bootstrapRecords
            frontierUpdates := rd.frontierUpdates ++ next.frontierUpdates
            messages := rd.messages ++ next.messages
            bootstrapMessages := rd.bootstrapMessages ++ next.bootstrapMessages
            apply := rd.apply ++ next.apply
            recordLoads := rd.recordLoads ++ next.recordLoads }

structure RecordLoadExport where
  type : MessageType := .commit
  target : ReplicaID := 0
  deriving BEq, ReflBEq, LawfulBEq, Repr, Inhabited

/-- The work deferred until the record of a folded reference is loaded. -/
structure RecordLoadWait where
  messages : List Message := []
  required : Bool := false
  needReadyRecord : Bool := false
  exports : List RecordLoadExport := []
  deriving BEq, ReflBEq, LawfulBEq, Repr, Inhabited

/-- The evidence gathered about the conflict of a TryPreAccept target; a target has at most one
such check. -/
structure TryEvidenceCheck where
  conflict : InstanceRef
  ballot : Ballot
  records : FiniteMap ReplicaID InstanceRecord

inductive RecoverySourceKind
  | fromPrefix | fromConflict
  deriving DecidableEq, Repr, Inhabited

structure RecoverySource where
  kind : RecoverySourceKind := .fromPrefix
  base : InstanceRef := {}
  lane : InstanceLane := {}
  conflict : InstanceRef := {}
  deriving BEq, ReflBEq, LawfulBEq, Repr, Inhabited

instance : DecidableEq RecoverySource := instDecidableEqOfLawfulBEq

/-! ### Configuration and membership -/

structure ToqRuntime where
  conf : ConfState := {}
  delays : List (ReplicaID × ℕ) := []
  group : List ReplicaID := []
  deriving BEq, ReflBEq, LawfulBEq, Repr, Inhabited

/-- The admission fence of a closed configuration: the highest instance observed in each lane. -/
structure ClosedConfig where
  observedThrough : List (ReplicaID × InstanceNum) := []
  deriving BEq, ReflBEq, LawfulBEq, Repr, Inhabited

/-- What the protocol reads of the membership plane of `epaxos/bootstrap.go`: the reserved control
references of the known plans, each with the control this node would generate for it, and the fenced
configurations. -/
structure Membership where
  reservations : List (InstanceRef × Option Bytes) := []
  closedConfigs : FiniteMap ConfID ClosedConfig := ∅
  plans : List ℕ := []
  terminal : List ℕ := []

/-- A decoded membership control, with its plan and the voters an activation brings. -/
inductive MembershipControl
  | invalid
  | prepare (plan : ℕ)
  | activate (plan : ℕ) (successor : VoterSet)
  | abort (plan : ℕ)

/-- The parameters of a node. `decodeControl` is the codec and certificate check of membership
controls. `nesting` bounds how often an execution pass can be entered from inside another one; the
source has no such bound. -/
structure Config where
  cluster : Bool := false
  retryTicks : ℕ := 3
  recoveryTicks : ℕ := 9
  timeOptimization : Bool := false
  timeOptimizationTicks : ℕ := 1
  toqEnabled : Bool := false
  maxDeferredPreAccepts : ℕ := 4096
  maxDeferredRecordLoads : ℕ := 256
  retainExecutedPerLane : ℕ := 1024
  maxResidentInstances : ℕ := 0
  maxReadyMessages : ℕ := 0
  maxDependencyRecoveriesPerDrive : ℕ := 8
  maxConcurrentRecoveries : ℕ := 64
  decodeControl : InstanceRef → Bytes → MembershipControl := fun _ _ ↦ .invalid
  nesting : ℕ := 4

/-! ### The node -/

/-- What a quorum of Prepare answers decides. -/
inductive PrepareDecision
  | committed (rec : InstanceRecord)
  | accepted (chosen : InstanceRecord) (attrs : Attributes)
  | tryTuple (candidate : InstanceRecord) (witnesses : VoterMask)
  | preAccepted (chosen : InstanceRecord) (attrs : Attributes)
  | noValue
  deriving DecidableEq, Repr

/-! ### Deferred PreAccepts -/

/-- The clocks by which PreAccepts wait for their processing time. -/
inductive PreAcceptDomain
  | logical | toq
  deriving DecidableEq, Repr, Inhabited

structure DeferredKey where
  domain : PreAcceptDomain
  ref : InstanceRef
  ballot : Ballot
  source : ReplicaID
  deriving DecidableEq, Repr

def DeferredKey.rank (key : DeferredKey) : ℕ ×ₗ InstanceRef ×ₗ Ballot ×ₗ ℕ :=
  toLex (key.domain.ctorIdx, toLex (key.ref, toLex (key.ballot, key.source)))

theorem DeferredKey.rank_injective : Function.Injective DeferredKey.rank := by
  rintro ⟨d₁, r₁, b₁, s₁⟩ ⟨d₂, r₂, b₂, s₂⟩ h
  simp only [DeferredKey.rank, EmbeddingLike.apply_eq_iff_eq, Prod.mk.injEq] at h
  obtain ⟨hdomain, rfl, rfl, rfl⟩ := h
  cases d₁ <;> cases d₂ <;> first | rfl | exact absurd hdomain (by decide)

instance : LinearOrder DeferredKey := LinearOrder.lift' DeferredKey.rank DeferredKey.rank_injective

/-- The order in which timed PreAccepts are processed. -/
def preAcceptOrderBefore (processAt : ℕ) (ref : InstanceRef) (otherProcessAt : ℕ)
    (other : InstanceRef) : Bool :=
  if processAt ≠ otherProcessAt then decide (processAt < otherProcessAt) else decide (ref < other)

def preAcceptMessageLess (a b : Message) : Bool :=
  if preAcceptOrderBefore a.processAt a.ref b.processAt b.ref then true
  else if preAcceptOrderBefore b.processAt b.ref a.processAt a.ref then false
  else decide (a.source < b.source)

/-- The order of the heaps of deferred PreAccepts. -/
def deferredPreAcceptLess (a b : Message) : Bool :=
  if preAcceptMessageLess a b then true
  else if preAcceptMessageLess b a then false
  else if a.ballot.epoch ≠ b.ballot.epoch then decide (a.ballot.epoch < b.ballot.epoch)
  else if a.ballot.number ≠ b.ballot.number then decide (a.ballot.number < b.ballot.number)
  else decide (a.ballot.replica < b.ballot.replica)

/-- The rank of a PreAccept in its heap. -/
def Message.deferredRank (m : Message) : ℕ ×ₗ InstanceRef ×ₗ ℕ ×ₗ Ballot :=
  toLex (m.processAt, toLex (m.ref, toLex (m.source, m.ballot)))

/-- The processing time, the reference and the sender of a PreAccept. -/
def Message.releaseRank (m : Message) : ℕ ×ₗ InstanceRef ×ₗ ℕ :=
  toLex (m.processAt, toLex (m.ref, m.source))

theorem preAcceptOrderBefore_iff (processAt other : ℕ) (ref otherRef : InstanceRef) :
    preAcceptOrderBefore processAt ref other otherRef = true ↔
      processAt < other ∨ processAt = other ∧ ref < otherRef := by
  unfold preAcceptOrderBefore
  split_ifs with htime
  · rw [decide_eq_true_iff]
    exact ⟨Or.inl, fun h ↦ h.resolve_right fun h ↦ htime h.1⟩
  · rw [decide_eq_true_iff]
    have htime : processAt = other := not_not.mp htime
    exact ⟨fun h ↦ Or.inr ⟨htime, h⟩, fun h ↦ (h.resolve_left htime.not_lt).2⟩

/-- The source compares PreAccepts by processing time, reference and sender. -/
theorem preAcceptMessageLess_iff (a b : Message) :
    preAcceptMessageLess a b = true ↔ a.releaseRank < b.releaseRank := by
  unfold preAcceptMessageLess Message.releaseRank
  simp only [Prod.Lex.toLex_lt_toLex, preAcceptOrderBefore_iff]
  rcases lt_trichotomy a.processAt b.processAt with htime | htime | htime
  · simp [htime]
  · rcases lt_trichotomy a.ref b.ref with href | href | href
    · simp [htime, href]
    · simp [htime, href]
    · simp [htime, href, href.not_gt, href.ne']
  · simp [htime, htime.not_gt, htime.ne']

theorem deferredPreAcceptLess_iff (a b : Message) :
    deferredPreAcceptLess a b = true ↔ a.deferredRank < b.deferredRank := by
  have hballot : (if a.ballot.epoch ≠ b.ballot.epoch then decide (a.ballot.epoch < b.ballot.epoch)
      else if a.ballot.number ≠ b.ballot.number then decide (a.ballot.number < b.ballot.number)
      else decide (a.ballot.replica < b.ballot.replica)) = true ↔ a.ballot < b.ballot := by
    rw [← Ballot.less_iff]
    unfold Ballot.less
    split_ifs <;> rfl
  have hrank : a.deferredRank < b.deferredRank ↔
      a.releaseRank < b.releaseRank ∨ a.releaseRank = b.releaseRank ∧ a.ballot < b.ballot := by
    simp only [Message.deferredRank, Message.releaseRank, Prod.Lex.toLex_lt_toLex,
      EmbeddingLike.apply_eq_iff_eq, Prod.mk.injEq]
    tauto
  rw [hrank]
  unfold deferredPreAcceptLess
  rcases lt_trichotomy a.releaseRank b.releaseRank with hless | heq | hless
  · simp [(preAcceptMessageLess_iff a b).mpr hless, hless]
  · have hfirst : ¬preAcceptMessageLess a b = true := by
      rw [preAcceptMessageLess_iff, heq]
      exact lt_irrefl _
    have hsecond : ¬preAcceptMessageLess b a = true := by
      rw [preAcceptMessageLess_iff, heq]
      exact lt_irrefl _
    rw [if_neg hfirst, if_neg hsecond, hballot]
    simp [heq]
  · have hfirst : ¬preAcceptMessageLess a b = true := by
      rw [preAcceptMessageLess_iff]
      exact hless.not_gt
    simp [hfirst, (preAcceptMessageLess_iff b a).mpr hless, hless.not_gt, hless.ne']

def deferredKeys : QueueKeys PreAcceptDomain DeferredKey (ℕ ×ₗ InstanceRef ×ₗ ℕ ×ₗ Ballot)
    Message where
  key domain m := ⟨domain, m.ref, m.ballot, m.source⟩
  domain := DeferredKey.domain
  rank := Message.deferredRank
  less := deferredPreAcceptLess
  less_iff := deferredPreAcceptLess_iff
  domain_key _ _ := rfl
  key_of_rank domain a b hrank := by
    simp only [Message.deferredRank, EmbeddingLike.apply_eq_iff_eq, Prod.mk.injEq] at hrank
    obtain ⟨-, href, hsource, hballot⟩ := hrank
    rw [href, hsource, hballot]

/-- The heaps of deferred PreAccepts and their index. -/
abbrev DeferredPreAccepts := IndexedHeaps deferredKeys

/-- The decisions that properties of whole runs speak about. -/
inductive Event
  /-- The owner proposed a value under a reference. -/
  | proposed (ref : InstanceRef) (value : EntryValue)
  /-- A timed command was given attributes that leave a conflicting resident instance out. -/
  | skipped (ref conflict : InstanceRef)
  /-- The owner, whose record has the attributes `own`, committed on the fast path with `fast`. -/
  | fastCommitted (ref : InstanceRef) (own fast : Attributes) (value : EntryValue)
  /-- A coordinator counted a slow quorum of AcceptResp at a ballot. -/
  | acceptCounted (ref : InstanceRef) (ballot : Ballot) (attrs : Attributes) (value : EntryValue)
  /-- A coordinator decided a recovery from the answers to its Prepare. -/
  | decided (ref : InstanceRef) (ballot : Ballot) (answers : List (ReplicaID × InstanceRecord))
    (decision : PrepareDecision)
  /-- A coordinator gave up trying a tuple, and went on with other attributes. -/
  | tryAbandoned (ref : InstanceRef)
  /-- A coordinator went on trying a tuple in spite of a committed conflict. -/
  | conflictIgnored (ref conflict : InstanceRef)
  /-- An instance was marked executed, with the members of its component and the covered instances
  that held it back at that moment. -/
  | executed (ref : InstanceRef) (component held : List InstanceRef)
  /-- A configuration change was executed, with this result. -/
  | reconfigured (ref : InstanceRef) (change : ConfChange) (result : ConfChangeResult)
  /-- An instance left memory: it was folded, or compacted, or a restart left it out. -/
  | released (ref : InstanceRef)
  /-- The record of a recovery that could not start was dropped. -/
  | dropped (ref : InstanceRef)
  /-- The trackers were rebuilt from a compacted checkpoint; `behind` tells whether it ends before
  what had been folded. -/
  | compacted (behind : Bool)
  deriving DecidableEq, Repr

structure RawNode where
  id : ReplicaID
  cfg : Config := {}
  /-- The id of the current configuration; its voters are in `confHistory`. -/
  current : ConfID := 1
  confHistory : FiniteMap ConfID VoterSet := ∅
  localVoter : LocalVoterState := {}
  durableLocalVoter : LocalVoterState := {}
  membership : Membership := {}
  allocatorFloor : InstanceNum := 0
  durableCheckpoint : Checkpoint := {}
  startupSnapshot : Bool := false
  executionPaused : Bool := false
  checkpointCompacting : Bool := false
  checkpointRound : Option CheckpointRound := none
  toqRuntimes : FiniteMap ConfID ToqRuntime := ∅
  toqActive : Option ToqRuntime := none
  toqLastNow : Option ℕ := none
  toqSampleAvailable : Bool := false
  toqClosedThrough : Option ℕ := none
  tick : ℕ := 0
  currentHardState : HardState := {}
  acknowledgedHardState : HardState := {}
  nextInstance : InstanceNum := 1
  instances : FiniteMap InstanceRef Instance := ∅
  engine : ConflictEngine := {}
  retired : FiniteMap InstanceLane RetiredLane := ∅
  executed : ExecutedTracker := {}
  durableExecuted : ExecutedTracker := {}
  pendingConf : Bool := false
  appliedConfByBase : FiniteMap ConfID InstanceRef := ∅
  timers : List Timer := []
  pendingReady : Ready := {}
  nextReady : Ready := {}
  frozenReady : Ready := {}
  awaitAdvance : Bool := false
  deferred : DeferredPreAccepts := ∅
  pendingRecordLoads : FiniteMap InstanceRef RecordLoadWait := ∅
  pendingRecordLoadMessages : ℕ := 0
  tryEvidenceChecks : FiniteMap InstanceRef TryEvidenceCheck := ∅
  committedThrough : FiniteMap InstanceLane InstanceNum := ∅
  dependencyRecoveryStartsLeft : ℕ := 0
  lastRecoverySource : Option RecoverySource := none
  journal : List Event := []
  /-- Everything that was ever put into a batch, and everything that was acknowledged, in order. -/
  enqueued : Ready := {}
  acknowledged : Ready := {}
  /-- The deferred PreAccepts that were taken from their queues, in order. -/
  taken : List (PreAcceptDomain × Message) := []

namespace RawNode

def logicalPreAccepts (n : RawNode) : List Message := n.deferred.queue .logical

def toqPreAccepts (n : RawNode) : List Message := n.deferred.queue .toq

/-! ### Configurations -/

def lookupConf (n : RawNode) (id : ConfID) : Option ConfState :=
  (n.confHistory.get? id).map fun conf ↦ ⟨id, conf.voters⟩

def confFor (n : RawNode) (id : ConfID) : ConfState := (n.lookupConf id).getD {}

/-- The current configuration (`q.conf` in the source). -/
def currentConf (n : RawNode) : ConfState := n.confFor n.current

def votersForConf (n : RawNode) (id : ConfID) : List ReplicaID := (n.confFor id).voters

def depsForConf (n : RawNode) (id : ConfID) : List InstanceNum :=
  List.replicate (n.votersForConf id).length 0

def slowQuorumForConf (n : RawNode) (id : ConfID) : ℕ := slowQuorumSize (n.votersForConf id).length

def fastQuorumForConf (n : RawNode) (id : ConfID) : ℕ := fastQuorumSize (n.votersForConf id).length

def tryWitnessQuorumForConf (n : RawNode) (id : ConfID) : ℕ :=
  tryWitnessQuorumSize (n.votersForConf id).length

/-- The reserved control of a reference, if a known plan reserves it. -/
def findBootstrapControl (n : RawNode) (ref : InstanceRef) : Option (Option Bytes) :=
  (n.membership.reservations.find? fun entry ↦ entry.1 == ref).map Prod.snd

/-- The control that is generated for a reserved reference, if it can be. -/
def membershipAllNoneCommand (n : RawNode) (ref : InstanceRef) : Option Bytes :=
  (n.findBootstrapControl ref).join

/-! ### Ready queues -/

/-- An update of the batch that new work goes to. -/
def modifyReady (n : RawNode) (f : Ready → Ready) : RawNode :=
  if n.awaitAdvance then { n with nextReady := f n.nextReady, enqueued := f n.enqueued }
  else { n with pendingReady := f n.pendingReady, enqueued := f n.enqueued }

/-- Appends to the history variable. -/
def note (n : RawNode) (event : Event) : RawNode := { n with journal := n.journal ++ [event] }

def enqueueMessage (n : RawNode) (m : Message) : RawNode :=
  let widened := m.deps.isEmpty && m.isResponse
  let sent := if widened then { m with deps := n.depsForConf m.ref.conf } else m
  n.modifyReady fun ready ↦ { ready with messages := ready.messages ++ [sent] }

def enqueueApply (n : RawNode) (command : ApplyCommand) : RawNode :=
  n.modifyReady fun ready ↦ { ready with apply := ready.apply ++ [command] }

/-! ### Record loads -/

def foldedThrough (n : RawNode) (lane : InstanceLane) : InstanceNum :=
  (n.retired.get? lane).elim 0 RetiredLane.folded

def needsRecordLoad (n : RawNode) (ref : InstanceRef) : Bool :=
  if ref.isZero || ref.inst = 0 then false
  else !n.instances.contains ref && decide (ref.inst ≤ n.foldedThrough (laneFor ref))

/-- Sorted insertion without duplicates. -/
def insertRef (ref : InstanceRef) (refs : List InstanceRef) : List InstanceRef :=
  ((ref :: refs).insertionSort (· ≤ ·)).dedup

def requestRecordLoad (n : RawNode) (ref : InstanceRef) : RawNode :=
  if n.pendingRecordLoads.contains ref then n
  else
    { n with pendingRecordLoads := n.pendingRecordLoads.insert ref {} }.modifyReady fun ready ↦
      { ready with recordLoads := insertRef ref ready.recordLoads }

def deferRecordLoadWith (n : RawNode) (ref : InstanceRef) (message : Option Message)
    (required : Bool) : RawNode × Option Err :=
  let full := decide (n.cfg.maxDeferredRecordLoads ≤ n.pendingRecordLoadMessages)
  if !n.pendingRecordLoads.contains ref && message.isSome && full then
    (n, some .deferredRecordLoadFull)
  else
    let n := n.requestRecordLoad ref
    let wait := (n.pendingRecordLoads.get? ref).getD {}
    let wait := { wait with required := wait.required || required }
    let set := fun (wait : RecordLoadWait) ↦
      { n with pendingRecordLoads := n.pendingRecordLoads.insert ref wait }
    match message with
    | none => (set wait, none)
    | some m =>
      if full then (set wait, some .deferredRecordLoadFull)
      else
        ({ set { wait with messages := wait.messages ++ [m] } with
           pendingRecordLoadMessages := n.pendingRecordLoadMessages + 1 }, none)

def deferRecordLoad (n : RawNode) (ref : InstanceRef) (m : Message) : RawNode × Option Err :=
  n.deferRecordLoadWith ref (some m) false

def deferRecordLoadRequired (n : RawNode) (ref : InstanceRef) (m : Message) :
    RawNode × Option Err :=
  n.deferRecordLoadWith ref (some m) true

def deferRecordLoadRequiredWithoutMessage (n : RawNode) (ref : InstanceRef) : RawNode :=
  (n.deferRecordLoadWith ref none true).1

def updateRecordLoad (n : RawNode) (ref : InstanceRef) (f : RecordLoadWait → RecordLoadWait) :
    RawNode :=
  match n.pendingRecordLoads.get? ref with
  | none => n
  | some wait => { n with pendingRecordLoads := n.pendingRecordLoads.insert ref (f wait) }

def deferRecordLoadExport (n : RawNode) (ref : InstanceRef) (type : MessageType)
    (target : ReplicaID) : RawNode :=
  (n.deferRecordLoadRequiredWithoutMessage ref).updateRecordLoad ref fun wait ↦
    if wait.exports.contains ⟨type, target⟩ then wait
    else { wait with exports := wait.exports ++ [⟨type, target⟩] }

/-- Whether a resident instance has lost its payload. -/
def payloadAbsent (n : RawNode) (ref : InstanceRef) : Bool :=
  (n.instances.get? ref).elim false fun inst ↦ inst.payloadAbsent.isSome

/-- A message that needs the payload of a resident instance waits for it; `none` when the payload
is at hand. -/
def requirePayload (n : RawNode) (ref : InstanceRef) (m : Message) :
    Option (RawNode × Option Err) :=
  if n.payloadAbsent ref then some (n.deferRecordLoadRequired ref m) else none

/-- The record of a resident instance whose payload is at hand. Callers that get none ask for the
record load themselves. -/
def exportRecord (n : RawNode) (ref : InstanceRef) : Option InstanceRecord :=
  if n.payloadAbsent ref then none else (n.instances.get? ref).map Instance.record

def enqueueRecord (n : RawNode) (rec : InstanceRecord) : RawNode :=
  if n.payloadAbsent rec.ref then
    (n.deferRecordLoadRequiredWithoutMessage rec.ref).updateRecordLoad rec.ref fun wait ↦
      { wait with needReadyRecord := true }
  else n.modifyReady fun ready ↦ { ready with records := ready.records ++ [rec], mustSync := true }

end RawNode

end MoreConsensus
