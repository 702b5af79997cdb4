import MoreConsensus.Library.Checks
import MoreConsensus.Node
import MoreConsensus.Wire.Codec

/-!
# Voter plans

The plans of `epaxos/bootstrap.go`: a plan adds one voter to a configuration, and reserves three
references of its coordinator for the controls that prepare, activate and abort it. What is signed
is the digest of canonical bytes under a domain. The digest function is a parameter; a 32-byte
value is the number its bytes write, and the zero value stands for an absent one as in the source.
-/

set_option autoImplicit false

namespace MoreConsensus.Bootstrap

open Library

/-! ### Identities, frontiers and plans -/

/-- `ClusterID`, `BootstrapID` and `StateDigest` of the source: 32 bytes each. -/
abbrev ClusterID := ℕ
abbrev BootstrapID := ℕ
abbrev StateDigest := ℕ

/-- What the calls of the bootstrap plane report. -/
inductive Fault
  | eligibility | busy | stale | notFenced | closure | certificate | control | aborted | snapshot
  | bounds | compactionEvidence | invalidMessage | instanceExhausted
  /-- An error of the protocol underneath. -/
  | node (err : Err)
  deriving DecidableEq, Repr, Inhabited

/-- A replica number bound to one incarnation. -/
structure VoterIdentity where
  replica : ReplicaID := 0
  incarnation : ℕ := 0
  deriving DecidableEq, Repr, Inhabited

def VoterIdentity.valid (identity : VoterIdentity) : Bool :=
  identity.replica ≠ 0 && identity.incarnation ≠ 0

/-- The references a plan reserves in the lane of its coordinator. -/
structure ControlReservations where
  prepare : InstanceRef := {}
  activate : InstanceRef := {}
  abort : InstanceRef := {}
  deriving DecidableEq, Repr, Inhabited

def ControlReservations.validFor (refs : ControlReservations) (base : ConfState) : Bool :=
  if refs.prepare.replica = 0 || refs.prepare.inst = 0 || refs.prepare.conf ≠ base.id ||
      refs.activate.replica ≠ refs.prepare.replica || refs.abort.replica ≠ refs.prepare.replica ||
      refs.activate.conf ≠ base.id || refs.abort.conf ≠ base.id ||
      maxUint64 - 1 ≤ refs.prepare.inst then false
  else refs.activate.inst = refs.prepare.inst + 1 && refs.abort.inst = refs.prepare.inst + 2

/-- What a voter holds of one lane of the old configuration: `sparse` lists the instances it
retains. -/
structure BootstrapLaneFrontier where
  replica : ReplicaID := 0
  observedThrough : InstanceNum := 0
  committedThrough : InstanceNum := 0
  executedThrough : InstanceNum := 0
  compactedExecutedThrough : InstanceNum := 0
  sparse : List InstanceNum := []
  deriving DecidableEq, Repr, Inhabited

structure BootstrapFrontier where
  conf : ConfID := 0
  lanes : List BootstrapLaneFrontier := []
  deriving DecidableEq, Repr, Inhabited

structure TOQRuntimeConfig where
  conf : ConfState := {}
  oneWayDelay : List (ReplicaID × ℕ) := []
  syncGroup : List ReplicaID := []
  deriving DecidableEq, Repr, Inhabited

/-- One addition of a target to a base configuration. -/
structure PrepareVoterRequest where
  cluster : ClusterID := 0
  plan : BootstrapID := 0
  base : ConfState := {}
  oldVoters : List VoterIdentity := []
  target : VoterIdentity := {}
  source : ReplicaID := 0
  sourceDigest : StateDigest := 0
  releaseDigest : StateDigest := 0
  targetAllocatorFloor : InstanceNum := 0
  toq : Bool := false
  successorTOQ : TOQRuntimeConfig := {}
  toqClosedThrough : ℕ := 0
  timingDigest : StateDigest := 0
  deriving DecidableEq, Repr, Inhabited

structure VoterPlan where
  request : PrepareVoterRequest := {}
  reservations : ControlReservations := {}
  successor : ConfState := {}
  requestDigest : StateDigest := 0
  deriving DecidableEq, Repr, Inhabited

/-! ### Canonical bytes -/

/-- `binary.AppendUvarint` of a 64-bit number. -/
def uvarint (value : ℕ) : Bytes := putUvarint (UInt64.ofNat value)

/-- The 32 bytes of a digest, highest first. -/
def appendFixed (value : ℕ) : Bytes :=
  (List.range 32).map fun i ↦ UInt8.ofNat (value / 256 ^ (31 - i))

def appendCounted {α : Type} (append : α → Bytes) (values : List α) : Bytes :=
  uvarint values.length ++ values.flatMap append

def appendRef (ref : InstanceRef) : Bytes :=
  uvarint ref.replica ++ uvarint ref.inst ++ uvarint ref.conf

def appendConf (conf : ConfState) : Bytes := uvarint conf.id ++ appendCounted uvarint conf.voters

def appendIdentity (identity : VoterIdentity) : Bytes :=
  uvarint identity.replica ++ uvarint identity.incarnation

def appendReservations (refs : ControlReservations) : Bytes :=
  appendRef refs.prepare ++ appendRef refs.activate ++ appendRef refs.abort

def appendLaneFrontier (lane : BootstrapLaneFrontier) : Bytes :=
  uvarint lane.replica ++ uvarint lane.observedThrough ++ uvarint lane.committedThrough ++
    uvarint lane.executedThrough ++ uvarint lane.compactedExecutedThrough ++
    appendCounted uvarint lane.sparse

def appendFrontier (frontier : BootstrapFrontier) : Bytes :=
  uvarint frontier.conf ++ appendCounted appendLaneFrontier frontier.lanes

/-- The delays are a map in the source and written by increasing replica. -/
def appendTOQRuntime (runtime : TOQRuntimeConfig) : Bytes :=
  appendConf runtime.conf ++
    appendCounted (fun entry ↦ uvarint entry.1 ++ uvarint entry.2)
      (runtime.oneWayDelay.insertionSort fun a b ↦ a.1 ≤ b.1) ++
    appendCounted uvarint runtime.syncGroup

def appendPrepareRequest (request : PrepareVoterRequest) : Bytes :=
  appendFixed request.cluster ++ appendFixed request.plan ++ appendConf request.base ++
    appendCounted appendIdentity request.oldVoters ++ appendIdentity request.target ++
    uvarint request.source ++ appendFixed request.sourceDigest ++
    appendFixed request.releaseDigest ++ uvarint request.targetAllocatorFloor ++
    (if request.toq then 1 :: appendTOQRuntime request.successorTOQ else [0]) ++
    uvarint request.toqClosedThrough ++ appendFixed request.timingDigest

def appendVoterPlan (plan : VoterPlan) : Bytes :=
  appendPrepareRequest plan.request ++ appendReservations plan.reservations ++
    appendConf plan.successor ++ appendFixed plan.requestDigest

/-! ### Validation -/

def identityFor (plan : VoterPlan) (replica : ReplicaID) : Option VoterIdentity :=
  plan.request.oldVoters.find? fun identity ↦ identity.replica == replica

/-- Whether a runtime can be normalized for a replica: its delays and its group name voters of its
configuration, the group none twice, and a delay is known for each other member. -/
def toqRuntimeNormal (runtime : TOQRuntimeConfig) (replica : ReplicaID) : Bool :=
  let group := if runtime.syncGroup.isEmpty then runtime.conf.voters else runtime.syncGroup
  runtime.conf.id ≠ 0 && (newQuorum runtime.conf.voters).isSome &&
    runtime.oneWayDelay.all (fun entry ↦ runtime.conf.contains entry.1) &&
    group.all (fun id ↦ runtime.conf.contains id &&
      (id == replica || runtime.oneWayDelay.any fun entry ↦ entry.1 == id)) &&
    decide group.Nodup

/-- The voters are a sorted list of distinct nonzero replicas, at most seven of them. -/
def votersCanonical (voters : List ReplicaID) : Bool :=
  (newQuorum voters).elim false fun quorum ↦ quorum.voters == voters

theorem exists_voterSet {voters : List ReplicaID} (hcanonical : votersCanonical voters = true) :
    ∃ set, newQuorum voters = some set ∧ set.voters = voters := by
  rw [votersCanonical] at hcanonical
  cases hset : newQuorum voters with
  | none => simp [hset] at hcanonical
  | some set =>
    rw [hset] at hcanonical
    exact ⟨set, rfl, beq_iff_eq.mp hcanonical⟩

def maxBootstrapVoters : ℕ := 7

/-- The identities of a plan are those of the base voters, in their order. -/
def validatePlanIdentities (plan : VoterPlan) : Except Fault Unit :=
  refuseIf (plan.request.oldVoters.map VoterIdentity.replica ≠ plan.request.base.voters ||
    maxBootstrapVoters < plan.request.oldVoters.length ||
    !plan.request.oldVoters.all VoterIdentity.valid ||
    !decide (plan.request.base.voters.Pairwise (· < ·))) .certificate

section

variable (domainDigest : String → Bytes → StateDigest)

def digestVoterPlan (plan : VoterPlan) : StateDigest :=
  domainDigest "epaxos/bootstrap/plan/v2" (appendVoterPlan { plan with requestDigest := 0 })

def validateVoterPlan (plan : VoterPlan) : Except Fault Unit := do
  let request := plan.request
  refuseIf (request.cluster = 0 || request.plan = 0 || request.base.id = 0 ||
    request.base.id = maxUint64 || request.base.voters.isEmpty ||
    7 ≤ request.base.voters.length || !votersCanonical request.base.voters ||
    !votersCanonical plan.successor.voters || !request.target.valid ||
    request.base.contains request.target.replica || !request.base.contains request.source ||
    request.sourceDigest = 0 || request.releaseDigest = 0 || request.timingDigest = 0 ||
    request.targetAllocatorFloor = 0 || request.targetAllocatorFloor = maxUint64 ||
    !plan.reservations.validFor request.base ||
    plan.requestDigest ≠ digestVoterPlan domainDigest plan ||
    plan.successor.id ≠ request.base.id + 1 ||
    plan.successor.voters.length ≠ request.base.voters.length + 1) .certificate
  validatePlanIdentities plan
  refuseIf ((request.base.voters ++ [request.target.replica]).insertionSort (· ≤ ·) ≠
    plan.successor.voters) .certificate
  if request.toq then
    refuseIf (request.successorTOQ.conf ≠ plan.successor ||
      !toqRuntimeNormal request.successorTOQ plan.reservations.prepare.replica) .certificate
  else
    refuseIf (request.successorTOQ ≠ {} || request.toqClosedThrough ≠ 0) .certificate

/-- What the checks of a plan say, as far as it is used. -/
structure VoterPlan.Valid (plan : VoterPlan) : Prop where
  cluster : plan.request.cluster ≠ 0
  named : plan.request.plan ≠ 0
  base : plan.request.base.id ≠ 0
  /-- A plan has at most six voters to add one to. -/
  length_lt : plan.request.base.voters.length < 7
  voters : votersCanonical plan.request.base.voters = true
  successor : votersCanonical plan.successor.voters = true
  reservations : plan.reservations.validFor plan.request.base = true
  digest : plan.requestDigest = digestVoterPlan domainDigest plan
  identities : ∀ identity ∈ plan.request.oldVoters, identity.valid = true

variable {domainDigest}

theorem valid_of_validate {plan : VoterPlan}
    (hplan : validateVoterPlan domainDigest plan = .ok ()) : plan.Valid domainDigest := by
  rw [validateVoterPlan, refuseIf_bind_eq_ok, unit_bind_eq_ok, validatePlanIdentities,
    refuseIf_eq_ok] at hplan
  obtain ⟨hshape, hidentities, -⟩ := hplan
  simp only [Bool.or_eq_false_iff, decide_eq_false_iff_not, not_not, Bool.not_eq_false',
    List.all_eq_true] at hshape hidentities
  constructor
  case length_lt => exact not_le.mp (by tauto)
  case identities => exact hidentities.1.2
  all_goals tauto

end

end MoreConsensus.Bootstrap
