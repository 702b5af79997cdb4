import MoreConsensus.Library.FiniteMap

/-!
# Identifiers, ballots, commands and instance records

The data model of `epaxos/types.go`, `epaxos/footprint.go` and `epaxos/quorum.go`. Counters that are
`uint64` in the source are natural numbers here; where the source tests for the end of the range the
test is kept (`maxUint64`). Checksums, pooled buffers and deep copies carry no protocol meaning and
are left out; a byte slice is a list of bytes and a `nil` slice is the empty list.
-/

set_option autoImplicit false

namespace MoreConsensus

/-! ### Identifiers -/

abbrev ReplicaID := ℕ

abbrev InstanceNum := ℕ

abbrev ConfID := ℕ

abbrev Bytes := List UInt8

/-- The largest `uint64`. -/
def maxUint64 : ℕ := 18446744073709551615

/-- The globally unique name of an instance. -/
structure InstanceRef where
  replica : ReplicaID := 0
  inst : InstanceNum := 0
  conf : ConfID := 0
  deriving BEq, ReflBEq, LawfulBEq, Repr, Inhabited

instance : DecidableEq InstanceRef := instDecidableEqOfLawfulBEq

/-- The order of `lessRef`: configuration, then replica, then instance number. -/
def InstanceRef.key (ref : InstanceRef) : ℕ ×ₗ ℕ ×ₗ ℕ :=
  toLex (ref.conf, toLex (ref.replica, ref.inst))

theorem InstanceRef.key_injective : Function.Injective InstanceRef.key := by
  rintro ⟨r₁, i₁, c₁⟩ ⟨r₂, i₂, c₂⟩ h
  simp only [InstanceRef.key, EmbeddingLike.apply_eq_iff_eq, Prod.mk.injEq] at h
  obtain ⟨rfl, rfl, rfl⟩ := h
  rfl

instance : LinearOrder InstanceRef := LinearOrder.lift' InstanceRef.key InstanceRef.key_injective

/-- Whether the reference names no instance. -/
def InstanceRef.isZero (ref : InstanceRef) : Bool :=
  ref.replica == 0 && ref.inst == 0 && ref.conf == 0

/-- A lane is one replica's instance space in one configuration. -/
structure InstanceLane where
  conf : ConfID := 0
  replica : ReplicaID := 0
  deriving BEq, ReflBEq, LawfulBEq, Repr, Inhabited

instance : DecidableEq InstanceLane := instDecidableEqOfLawfulBEq

def InstanceLane.key (lane : InstanceLane) : ℕ ×ₗ ℕ := toLex (lane.conf, lane.replica)

theorem InstanceLane.key_injective : Function.Injective InstanceLane.key := by
  rintro ⟨c₁, r₁⟩ ⟨c₂, r₂⟩ h
  simp only [InstanceLane.key, EmbeddingLike.apply_eq_iff_eq, Prod.mk.injEq] at h
  obtain ⟨rfl, rfl⟩ := h
  rfl

instance : LinearOrder InstanceLane :=
  LinearOrder.lift' InstanceLane.key InstanceLane.key_injective

def laneFor (ref : InstanceRef) : InstanceLane := ⟨ref.conf, ref.replica⟩

/-- The instance of a lane with a given number. -/
def InstanceLane.ref (lane : InstanceLane) (inst : InstanceNum) : InstanceRef :=
  ⟨lane.replica, inst, lane.conf⟩

def instanceSuccessor (value : InstanceNum) : Option InstanceNum :=
  if maxUint64 ≤ value then none else some (value + 1)

/-! ### Ballots -/

/-- A promise or accept ballot, ordered by epoch, number and replica. -/
structure Ballot where
  epoch : ℕ := 0
  number : ℕ := 0
  replica : ReplicaID := 0
  deriving BEq, ReflBEq, LawfulBEq, Repr, Inhabited

instance : DecidableEq Ballot := instDecidableEqOfLawfulBEq

def Ballot.key (ballot : Ballot) : ℕ ×ₗ ℕ ×ₗ ℕ :=
  toLex (ballot.epoch, toLex (ballot.number, ballot.replica))

theorem Ballot.key_injective : Function.Injective Ballot.key := by
  rintro ⟨e₁, n₁, r₁⟩ ⟨e₂, n₂, r₂⟩ h
  simp only [Ballot.key, EmbeddingLike.apply_eq_iff_eq, Prod.mk.injEq] at h
  obtain ⟨rfl, rfl, rfl⟩ := h
  rfl

instance : LinearOrder Ballot := LinearOrder.lift' Ballot.key Ballot.key_injective

/-- The order of ballots as the source computes it. -/
def Ballot.less (ballot other : Ballot) : Bool :=
  if ballot.epoch ≠ other.epoch then ballot.epoch < other.epoch
  else if ballot.number ≠ other.number then ballot.number < other.number
  else ballot.replica < other.replica

theorem Ballot.less_iff (ballot other : Ballot) : ballot.less other = true ↔ ballot < other := by
  obtain ⟨e₁, n₁, r₁⟩ := ballot
  obtain ⟨e₂, n₂, r₂⟩ := other
  have hlt : (⟨e₁, n₁, r₁⟩ : Ballot) < ⟨e₂, n₂, r₂⟩ ↔
      Ballot.key ⟨e₁, n₁, r₁⟩ < Ballot.key ⟨e₂, n₂, r₂⟩ := Iff.rfl
  rw [hlt]
  simp only [Ballot.less, Ballot.key, Prod.Lex.toLex_lt_toLex]
  split_ifs with hepoch hnumber <;> simp_all

/-- Whether the ballot is the replica's exact initial ballot. -/
def Ballot.isInitialFor (ballot : Ballot) (replica : ReplicaID) : Bool :=
  replica != 0 && ballot.epoch == 0 && ballot.number == 0 && ballot.replica == replica

/-- Whether the ballot is nonzero and not initial. -/
def Ballot.isRecovery (ballot : Ballot) : Bool :=
  ballot != {} && (ballot.epoch != 0 || ballot.number != 0)

/-- The least ballot of a replica above a given one; `none` when the counter is exhausted. -/
def Ballot.next (ballot : Ballot) (replica : ReplicaID) : Option Ballot :=
  if ballot.number ≠ maxUint64 then some ⟨ballot.epoch, ballot.number + 1, replica⟩
  else if ballot.epoch = maxUint64 then none
  else some ⟨ballot.epoch + 1, 0, replica⟩

/-! ### Status, kinds and timing -/

/-- The durable status of an instance. -/
inductive Status
  | none | preAccepted | accepted | committed | executed
  deriving DecidableEq, Repr, Inhabited

/-- The numeric value of a status in the source, which compares statuses by it. -/
def Status.rank : Status → ℕ
  | .none => 0
  | .preAccepted => 1
  | .accepted => 2
  | .committed => 3
  | .executed => 4

theorem Status.rank_injective : Function.Injective Status.rank := by
  intro first second h
  cases first <;> cases second <;> simp_all [Status.rank]

instance : LinearOrder Status := LinearOrder.lift' Status.rank Status.rank_injective

/-- What an entry carries; `unset` is the zero value of `EntryKind`. -/
inductive EntryKind
  | unset | command | noop | confChange | membership | checkpoint
  deriving DecidableEq, Repr, Inhabited

/-- The clock domain of `ProcessAt`. -/
inductive TimingDomain
  | untimed | logical | toq
  deriving DecidableEq, Repr, Inhabited

/-! ### Footprints and commands -/

/-- Whether `bytes.Compare left right < 0`. -/
def bytesLess : Bytes → Bytes → Bool
  | [], [] => false
  | [], _ :: _ => true
  | _ :: _, [] => false
  | first :: left, second :: right =>
    if first = second then bytesLess left right else decide (first < second)

/-- A half-open interval of logical resources. -/
structure Span where
  start : Bytes := []
  stop : Bytes := []
  deriving BEq, ReflBEq, LawfulBEq, Repr, Inhabited

instance : DecidableEq Span := instDecidableEqOfLawfulBEq

/-- Whether a point lies in a span. -/
def Span.covers (span : Span) (point : Bytes) : Bool :=
  !bytesLess point span.start && bytesLess point span.stop

/-- Every logical resource a command touches. -/
structure Footprint where
  points : List Bytes := []
  spans : List Span := []
  all : Bool := false
  deriving BEq, ReflBEq, LawfulBEq, Repr, Inhabited

instance : DecidableEq Footprint := instDecidableEqOfLawfulBEq

def footprintsConflict (a b : Footprint) : Bool :=
  a.all || b.all ||
    a.points.any (fun point ↦ b.points.contains point ||
      b.spans.any fun span ↦ span.covers point) ||
    b.points.any (fun point ↦ a.spans.any fun span ↦ span.covers point) ||
    a.spans.any fun first ↦ b.spans.any fun second ↦
      bytesLess first.start second.stop && bytesLess second.start first.stop

/-- The spans of a canonical footprint are nonempty, in order and not adjacent. -/
def spansCanonical : List Span → Bool
  | [] => true
  | [span] => bytesLess span.start span.stop
  | first :: second :: rest =>
    bytesLess first.start first.stop && bytesLess first.start second.start &&
      bytesLess first.stop second.start && spansCanonical (second :: rest)

/-- The points of a canonical footprint increase strictly. -/
def pointsCanonical : List Bytes → Bool
  | [] => true
  | [_] => true
  | first :: second :: rest => bytesLess first second && pointsCanonical (second :: rest)

/-- The loop over points with an index into the spans: spans that end at or before a point are
passed for good. It ends early when a point is in a span. -/
def scanPoints : List Span → List Bytes → Bool
  | _, [] => true
  | spans, point :: points =>
    let spans := spans.dropWhile fun span ↦ !bytesLess point span.stop
    match spans with
    | [] => scanPoints spans points
    | span :: _ => !span.covers point && scanPoints spans points

def footprintCanonical (f : Footprint) : Bool :=
  if f.all then f.points.isEmpty && f.spans.isEmpty
  else !(f.points.isEmpty && f.spans.isEmpty) && spansCanonical f.spans &&
    pointsCanonical f.points && scanPoints f.spans f.points

/-- An application-supplied identifier of a command. -/
structure CommandID where
  client : ℕ := 0
  sequence : ℕ := 0
  deriving BEq, ReflBEq, LawfulBEq, Repr, Inhabited

instance : DecidableEq CommandID := instDecidableEqOfLawfulBEq

/-- An opaque application value. -/
structure Command where
  id : CommandID := {}
  payload : Bytes := []
  footprint : Footprint := {}
  cycleKey : Bytes := []
  deriving BEq, ReflBEq, LawfulBEq, Repr, Inhabited

instance : DecidableEq Command := instDecidableEqOfLawfulBEq

def commandEmpty (command : Command) : Bool := command == {}

/-! ### Configurations and quorums -/

inductive ConfChangeType
  | unset | addVoter | removeVoter
  deriving DecidableEq, Repr, Inhabited

structure ConfChange where
  type : ConfChangeType := .unset
  replica : ReplicaID := 0
  deriving BEq, ReflBEq, LawfulBEq, Repr, Inhabited

instance : DecidableEq ConfChange := instDecidableEqOfLawfulBEq

inductive ConfChangeOutcome
  | unspecified | applied | rejectedSuperseded | rejectedInvalid
  deriving DecidableEq, Repr, Inhabited

/-- A snapshot of the voters at a configuration id. -/
structure ConfState where
  id : ConfID := 0
  voters : List ReplicaID := []
  deriving BEq, ReflBEq, LawfulBEq, Repr, Inhabited

instance : DecidableEq ConfState := instDecidableEqOfLawfulBEq

/-- The position of a voter in the dependency vectors of the configuration. -/
def ConfState.index (conf : ConfState) (id : ReplicaID) : Option ℕ :=
  conf.voters.findIdx? (· == id)

def ConfState.contains (conf : ConfState) (id : ReplicaID) : Bool := conf.voters.contains id

structure ConfChangeResult where
  outcome : ConfChangeOutcome := .unspecified
  conf : ConfState := {}
  deriving BEq, ReflBEq, LawfulBEq, Repr, Inhabited

instance : DecidableEq ConfChangeResult := instDecidableEqOfLawfulBEq

def slowQuorumSize (n : ℕ) : ℕ := n / 2 + 1

/-- The optimised fast quorum `F + (F + 1) / 2` of an odd cluster, the conservative one of an even
cluster. -/
def fastQuorumSize (n : ℕ) : ℕ :=
  if n % 2 = 1 then
    let f := n / 2
    let fast := f + (f + 1) / 2
    if fast = 0 then 1 else fast
  else n - (n - 1) / 4

def tryWitnessQuorumSize (n : ℕ) : ℕ := fastQuorumSize n + slowQuorumSize n - n

/-- The voters of one configuration: nonzero replicas in strict order, one to seven of them. -/
structure VoterSet where
  voters : List ReplicaID
  sorted : voters.Pairwise (· < ·)
  nonempty : voters ≠ []
  length_le : voters.length ≤ 7
  positive : 0 ∉ voters

/-- The voter set of a list of replicas, `none` where the source reports an invalid size, a zero
replica or a duplicate. -/
def newQuorum (voters : List ReplicaID) : Option VoterSet :=
  if h : (voters ≠ [] ∧ voters.length ≤ 7) ∧ 0 ∉ voters ∧ voters.Nodup then
    some
      { voters := voters.insertionSort (· ≤ ·)
        sorted := by
          have hle := List.pairwise_insertionSort (· ≤ ·) voters
          have hnodup := (List.perm_insertionSort (· ≤ ·) voters).nodup_iff.mpr h.2.2
          exact (hle.and hnodup).imp fun hboth ↦ lt_of_le_of_ne hboth.1 hboth.2
        nonempty := fun hnil ↦ h.1.1
          (List.perm_nil.mp (hnil ▸ (List.perm_insertionSort (· ≤ ·) voters).symm))
        length_le := by
          rw [List.length_insertionSort]
          exact h.1.2
        positive := fun hzero ↦ h.2.1 ((List.perm_insertionSort (· ≤ ·) voters).mem_iff.mp hzero) }
  else none

/-- The replicas 1, 2 and 3. -/
def threeReplicas : VoterSet := ⟨[1, 2, 3], by decide, by decide, by decide, by decide⟩

/-! ### Records -/

/-- Ordering attributes. -/
structure Attributes where
  seq : ℕ := 0
  deps : List InstanceNum := []
  deriving BEq, ReflBEq, LawfulBEq, Repr, Inhabited

instance : DecidableEq Attributes := instDecidableEqOfLawfulBEq

/-- Accept-Deps evidence together with its original sender. -/
structure AcceptEvidence where
  sender : ReplicaID := 0
  seq : ℕ := 0
  deps : List InstanceNum := []
  deriving BEq, ReflBEq, LawfulBEq, Repr, Inhabited

instance : DecidableEq AcceptEvidence := instDecidableEqOfLawfulBEq

/-- The durable value of one instance. -/
structure InstanceRecord where
  ref : InstanceRef := {}
  ballot : Ballot := {}
  recordBallot : Ballot := {}
  status : Status := .none
  seq : ℕ := 0
  deps : List InstanceNum := []
  acceptSeq : ℕ := 0
  acceptDeps : List InstanceNum := []
  acceptEvidence : List AcceptEvidence := []
  kind : EntryKind := .unset
  confChange : ConfChange := {}
  protocolControl : Bytes := []
  command : Command := {}
  fastPathEligible : Bool := false
  processAt : ℕ := 0
  timingDomain : TimingDomain := .untimed
  toqPending : Bool := false
  confChangeResult : ConfChangeResult := {}
  deriving BEq, ReflBEq, LawfulBEq, Repr, Inhabited

instance : DecidableEq InstanceRecord := instDecidableEqOfLawfulBEq

def InstanceRecord.attributes (rec : InstanceRecord) : Attributes := ⟨rec.seq, rec.deps⟩

/-- The Accept-Deps evidence of a record, if it carries any. -/
def InstanceRecord.acceptAttributes (rec : InstanceRecord) : Option Attributes :=
  if rec.acceptSeq = 0 || rec.acceptDeps.isEmpty then none else some ⟨rec.acceptSeq, rec.acceptDeps⟩

/-- The four fields of a record that are its value. -/
structure EntryValue where
  kind : EntryKind := .unset
  command : Command := {}
  confChange : ConfChange := {}
  protocolControl : Bytes := []
  deriving BEq, ReflBEq, LawfulBEq, Repr, Inhabited

instance : DecidableEq EntryValue := instDecidableEqOfLawfulBEq

def InstanceRecord.value (rec : InstanceRecord) : EntryValue :=
  ⟨rec.kind, rec.command, rec.confChange, rec.protocolControl⟩

def maxWireCycleKeyBytes : ℕ := 65536

def maxWireProtocolControl : ℕ := 1048576

def entryValueCanonical (kind : EntryKind) (command : Command) (change : ConfChange)
    (control : Bytes) : Bool :=
  let changeEmpty := change == {}
  match kind with
  | .unset => commandEmpty command && changeEmpty && control.isEmpty
  | .command => changeEmpty && control.isEmpty && footprintCanonical command.footprint &&
      decide (command.cycleKey.length ≤ maxWireCycleKeyBytes)
  | .noop => commandEmpty command && changeEmpty && control.isEmpty
  | .confChange => commandEmpty command && control.isEmpty &&
      (change.type == .addVoter || change.type == .removeVoter) && change.replica != 0
  | .membership | .checkpoint => commandEmpty command && changeEmpty && !control.isEmpty &&
      decide (control.length ≤ maxWireProtocolControl)

def entryHasGlobalConflictScope (kind : EntryKind) : Bool :=
  kind == .confChange || kind == .membership || kind == .checkpoint

/-- Group-wide scope: protocol entries, and application commands that declare it. -/
def recordHasGlobalConflictScope (rec : InstanceRecord) : Bool :=
  entryHasGlobalConflictScope rec.kind || (rec.kind == .command && rec.command.footprint.all)

def recordsConflict (a b : InstanceRecord) : Bool :=
  if a.kind = .noop || b.kind = .noop || a.kind = .unset || b.kind = .unset then false
  else if recordHasGlobalConflictScope a || recordHasGlobalConflictScope b then true
  else footprintsConflict a.command.footprint b.command.footprint

/-- The command whose footprint orders an entry. -/
def orderingCommand (kind : EntryKind) (command : Command) : Command :=
  match kind with
  | .command => command
  | .noop | .unset => {}
  | .confChange | .membership | .checkpoint => { footprint := { all := true } }

end MoreConsensus
