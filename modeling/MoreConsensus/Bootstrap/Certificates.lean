import MoreConsensus.Bootstrap.Fences

/-!
# Snapshot and ready certificates

After the fence, a slow quorum of the old voters certifies the descriptor of the snapshot that the
target installs, and the proof that it has installed it. Both certificates hold acknowledgements of
one digest, exactly a slow quorum of them, in the order of the voters (`validateAcknowledgements`);
that of the snapshot needs one of the source besides. Whatever can be gathered so can be certified
(`validateAcknowledgements_sorted_iff`), and what is built is accepted again
(`validate_buildSnapshot`, `validate_buildReady`).
-/

set_option autoImplicit false

namespace MoreConsensus.Bootstrap

open Library

/-- The finite state that the target installs. -/
structure SnapshotDescriptor where
  cluster : ClusterID := 0
  plan : BootstrapID := 0
  base : ConfState := {}
  successor : ConfState := {}
  target : VoterIdentity := {}
  source : ReplicaID := 0
  reservations : ControlReservations := {}
  fenceDigest : StateDigest := 0
  frontier : BootstrapFrontier := {}
  manifestDigest : StateDigest := 0
  deltaFirst : ℕ := 0
  deltaLast : ℕ := 0
  deltaRoot : StateDigest := 0
  applicationDigest : StateDigest := 0
  idempotencyDigest : StateDigest := 0
  configHistoryDigest : StateDigest := 0
  instanceDigest : StateDigest := 0
  hardStateDigest : StateDigest := 0
  compactionDigest : StateDigest := 0
  installedStateDigest : StateDigest := 0
  targetAllocatorFloor : InstanceNum := 0
  toqClosedThrough : ℕ := 0
  toqRuntimeDigest : StateDigest := 0
  timingDigest : StateDigest := 0
  releaseDigest : StateDigest := 0
  deriving DecidableEq, Repr, Inhabited

/-- An old voter's acknowledgement of one digest. -/
structure VoterAcknowledgement where
  voter : VoterIdentity := {}
  attestedDigest : StateDigest := 0
  deriving DecidableEq, Repr, Inhabited

structure SnapshotCertificate where
  descriptor : SnapshotDescriptor := {}
  acknowledgements : List VoterAcknowledgement := []
  digest : StateDigest := 0
  deriving DecidableEq, Repr, Inhabited

/-- What the target says it has installed. -/
structure VoterReadyProof where
  cluster : ClusterID := 0
  plan : BootstrapID := 0
  target : VoterIdentity := {}
  snapshotDigest : StateDigest := 0
  installedStateDigest : StateDigest := 0
  allocatorFloor : InstanceNum := 0
  toqClosedThrough : ℕ := 0
  deriving DecidableEq, Repr, Inhabited

structure TargetReadyRecord where
  plan : BootstrapID := 0
  proof : VoterReadyProof := {}
  deriving DecidableEq, Repr, Inhabited

structure ReadyCertificate where
  plan : BootstrapID := 0
  proof : VoterReadyProof := {}
  acknowledgements : List VoterAcknowledgement := []
  digest : StateDigest := 0
  deriving DecidableEq, Repr, Inhabited

/-! ### Canonical bytes -/

def appendSnapshotDescriptor (d : SnapshotDescriptor) : Bytes :=
  appendFixed d.cluster ++ appendFixed d.plan ++ appendConf d.base ++ appendConf d.successor ++
    appendIdentity d.target ++ uvarint d.source ++ appendReservations d.reservations ++
    appendFixed d.fenceDigest ++ appendFrontier d.frontier ++ appendFixed d.manifestDigest ++
    uvarint d.deltaFirst ++ uvarint d.deltaLast ++ appendFixed d.deltaRoot ++
    appendFixed d.applicationDigest ++ appendFixed d.idempotencyDigest ++
    appendFixed d.configHistoryDigest ++ appendFixed d.instanceDigest ++
    appendFixed d.hardStateDigest ++ appendFixed d.compactionDigest ++
    appendFixed d.installedStateDigest ++ uvarint d.targetAllocatorFloor ++
    uvarint d.toqClosedThrough ++ appendFixed d.toqRuntimeDigest ++ appendFixed d.timingDigest ++
    appendFixed d.releaseDigest

def appendAcknowledgement (acknowledgement : VoterAcknowledgement) : Bytes :=
  appendIdentity acknowledgement.voter ++ appendFixed acknowledgement.attestedDigest

def appendReadyProof (proof : VoterReadyProof) : Bytes :=
  appendFixed proof.cluster ++ appendFixed proof.plan ++ appendIdentity proof.target ++
    appendFixed proof.snapshotDigest ++ appendFixed proof.installedStateDigest ++
    uvarint proof.allocatorFloor ++ uvarint proof.toqClosedThrough

/-! ### Acknowledgements -/

def buildVoterAcknowledgement (digest : StateDigest) (voter : VoterIdentity) :
    Except Fault VoterAcknowledgement :=
  if digest = 0 || !voter.valid then .error .eligibility else .ok ⟨voter, digest⟩

/-- One acknowledgement is of an old voter, and of this digest. -/
def validateBootstrapAcknowledgement (plan : VoterPlan) (digest : StateDigest)
    (acknowledgement : VoterAcknowledgement) : Except Fault Unit :=
  refuseIf (identityFor plan acknowledgement.voter.replica ≠ some acknowledgement.voter ||
    acknowledgement.attestedDigest ≠ digest) .certificate

/-- The acknowledgements of a certificate, each checked against the plan, the digest and the voter
before it. The result tells whether the source is among them. -/
def checkAcknowledgements (plan : VoterPlan) (digest : StateDigest) :
    ReplicaID → Bool → List VoterAcknowledgement → Except Fault Bool
  | _, seenSource, [] => .ok seenSource
  | last, seenSource, acknowledgement :: rest => do
    refuseIf (identityFor plan acknowledgement.voter.replica ≠ some acknowledgement.voter ||
      acknowledgement.voter.replica ≤ last || acknowledgement.attestedDigest ≠ digest) .certificate
    checkAcknowledgements plan digest acknowledgement.voter.replica
      (seenSource || acknowledgement.voter.replica = plan.request.source) rest

def validateAcknowledgements (plan : VoterPlan) (digest : StateDigest)
    (acknowledgements : List VoterAcknowledgement) (requireSource : Bool) : Except Fault Unit := do
  refuseIf (acknowledgements.length ≠ slowQuorumSize plan.request.base.voters.length ||
    maxBootstrapVoters < acknowledgements.length) .certificate
  let seenSource ← checkAcknowledgements plan digest 0 false acknowledgements
  refuseIf (requireSource && !seenSource) .certificate

/-- The acknowledgements in the order of their voters. -/
def sortAcknowledgements (acknowledgements : List VoterAcknowledgement) :
    List VoterAcknowledgement :=
  acknowledgements.insertionSort fun a b ↦ a.voter.replica ≤ b.voter.replica

section

variable (domainDigest : String → Bytes → StateDigest)

def digestSnapshotDescriptor (descriptor : SnapshotDescriptor) : StateDigest :=
  domainDigest "epaxos/bootstrap/snapshot/v2" (appendSnapshotDescriptor descriptor)

def digestSnapshotCertificate (certificate : SnapshotCertificate) : StateDigest :=
  domainDigest "epaxos/bootstrap/snapshot-certificate/v2"
    (appendSnapshotDescriptor certificate.descriptor ++
      appendCounted appendAcknowledgement certificate.acknowledgements)

def digestVoterReadyProof (proof : VoterReadyProof) : StateDigest :=
  domainDigest "epaxos/bootstrap/target-ready/v2" (appendReadyProof proof)

def digestReadyCertificate (certificate : ReadyCertificate) : StateDigest :=
  domainDigest "epaxos/bootstrap/ready-certificate/v2"
    (appendFixed certificate.plan ++ appendReadyProof certificate.proof ++
      appendCounted appendAcknowledgement certificate.acknowledgements)

/-! ### Snapshot certificates -/

def validateSnapshotDescriptor (plan : VoterPlan) (descriptor : SnapshotDescriptor) :
    Except Fault Unit := do
  refuseIf (descriptor.cluster ≠ plan.request.cluster || descriptor.plan ≠ plan.request.plan ||
    descriptor.base ≠ plan.request.base || descriptor.successor ≠ plan.successor ||
    descriptor.target ≠ plan.request.target || descriptor.source ≠ plan.request.source ||
    descriptor.reservations ≠ plan.reservations ||
    descriptor.targetAllocatorFloor ≠ plan.request.targetAllocatorFloor ||
    descriptor.releaseDigest ≠ plan.request.releaseDigest ||
    descriptor.timingDigest ≠ plan.request.timingDigest ||
    descriptor.fenceDigest = 0 || descriptor.manifestDigest = 0 || descriptor.deltaRoot = 0 ||
    descriptor.applicationDigest = 0 || descriptor.idempotencyDigest = 0 ||
    descriptor.configHistoryDigest = 0 || descriptor.instanceDigest = 0 ||
    descriptor.hardStateDigest = 0 || descriptor.compactionDigest = 0 ||
    descriptor.installedStateDigest = 0 ||
    decide (descriptor.deltaFirst = 0) ≠ decide (descriptor.deltaLast = 0) ||
    descriptor.deltaLast < descriptor.deltaFirst ||
    descriptor.toqClosedThrough ≠ plan.request.toqClosedThrough) .snapshot
  validateBootstrapFrontier descriptor.frontier plan.request.base
  let expectedRuntime := if plan.request.toq then
      domainDigest "epaxos/bootstrap/toq-runtime/v1" (appendTOQRuntime plan.request.successorTOQ)
    else 0
  refuseIf (descriptor.toqRuntimeDigest ≠ expectedRuntime) .snapshot

def buildSnapshotCertificate (plan : VoterPlan) (descriptor : SnapshotDescriptor)
    (acknowledgements : List VoterAcknowledgement) : Except Fault SnapshotCertificate := do
  validateSnapshotDescriptor domainDigest plan descriptor
  let acknowledgements := sortAcknowledgements acknowledgements
  validateAcknowledgements plan (digestSnapshotDescriptor domainDigest descriptor)
    acknowledgements true
  let certificate : SnapshotCertificate := ⟨descriptor, acknowledgements, 0⟩
  return { certificate with digest := digestSnapshotCertificate domainDigest certificate }

def validateSnapshotCertificate (plan : VoterPlan) (certificate : SnapshotCertificate) :
    Except Fault Unit := do
  let canonical ← buildSnapshotCertificate domainDigest plan certificate.descriptor
    certificate.acknowledgements
  refuseIf (canonical.digest ≠ certificate.digest) .certificate

/-! ### Ready certificates -/

def validateVoterReadyProof (plan : VoterPlan) (snapshot : SnapshotCertificate)
    (proof : VoterReadyProof) : Except Fault Unit :=
  refuseIf (proof.cluster ≠ plan.request.cluster || proof.plan ≠ plan.request.plan ||
    proof.target ≠ plan.request.target || proof.snapshotDigest ≠ snapshot.digest ||
    proof.installedStateDigest = 0 ||
    proof.installedStateDigest ≠ snapshot.descriptor.installedStateDigest ||
    proof.allocatorFloor ≠ snapshot.descriptor.targetAllocatorFloor ||
    proof.toqClosedThrough ≠ snapshot.descriptor.toqClosedThrough ||
    proof.allocatorFloor = 0) .snapshot

def buildReadyCertificate (plan : VoterPlan) (proof : VoterReadyProof)
    (acknowledgements : List VoterAcknowledgement) : Except Fault ReadyCertificate := do
  refuseIf (proof.cluster ≠ plan.request.cluster || proof.plan ≠ plan.request.plan ||
    proof.target ≠ plan.request.target || proof.snapshotDigest = 0 ||
    proof.installedStateDigest = 0 ||
    proof.allocatorFloor ≠ plan.request.targetAllocatorFloor || proof.allocatorFloor = 0)
    .certificate
  let acknowledgements := sortAcknowledgements acknowledgements
  validateAcknowledgements plan (digestVoterReadyProof domainDigest proof) acknowledgements false
  let certificate : ReadyCertificate := ⟨plan.request.plan, proof, acknowledgements, 0⟩
  return { certificate with digest := digestReadyCertificate domainDigest certificate }

/-- Whatever fails here is reported as an invalid certificate. -/
def validateReadyCertificate (plan : VoterPlan) (snapshot : SnapshotCertificate)
    (certificate : ReadyCertificate) : Except Fault Unit :=
  let checks : Except Fault Unit := do
    refuseIf (certificate.plan ≠ plan.request.plan) .certificate
    validateVoterReadyProof plan snapshot certificate.proof
    let canonical ← buildReadyCertificate domainDigest plan certificate.proof
      certificate.acknowledgements
    refuseIf (canonical.digest ≠ certificate.digest) .certificate
  checks.mapError fun _ ↦ .certificate

end

/-! ### What can be certified -/

section

variable {plan : VoterPlan} {digest : StateDigest} {acknowledgements : List VoterAcknowledgement}

/-- An acknowledgement of a digest by a voter of the plan. -/
def Attests (plan : VoterPlan) (digest : StateDigest) (acknowledgement : VoterAcknowledgement) :
    Prop :=
  validateBootstrapAcknowledgement plan digest acknowledgement = .ok ()

theorem attests_iff {acknowledgement : VoterAcknowledgement} :
    Attests plan digest acknowledgement ↔
      identityFor plan acknowledgement.voter.replica = some acknowledgement.voter ∧
        acknowledgement.attestedDigest = digest := by
  simp [Attests, validateBootstrapAcknowledgement, refuseIf_eq_ok]

/-- The identity of a voter is one of those of the plan. -/
theorem mem_of_identityFor {replica : ReplicaID} {identity : VoterIdentity}
    (hidentity : identityFor plan replica = some identity) :
    identity ∈ plan.request.oldVoters ∧ identity.replica = replica :=
  ⟨List.mem_of_find?_eq_some hidentity, by simpa using List.find?_some hidentity⟩

/-- Acknowledgements in the order of their voters pass one by one. -/
theorem checkAcknowledgements_ordered (hattests : ∀ ack ∈ acknowledgements, Attests plan digest ack)
    {last : ReplicaID} (hlast : ∀ ack ∈ acknowledgements, last < ack.voter.replica)
    (horder : acknowledgements.Pairwise fun a b ↦ a.voter.replica < b.voter.replica)
    (seenSource : Bool) :
    checkAcknowledgements plan digest last seenSource acknowledgements =
      .ok (seenSource ||
        acknowledgements.any fun ack ↦ ack.voter.replica = plan.request.source) := by
  induction acknowledgements generalizing last seenSource with
  | nil => simp [checkAcknowledgements]
  | cons ack rest ih =>
    obtain ⟨hidentity, hdigest⟩ := attests_iff.mp (hattests ack List.mem_cons_self)
    have hfollows : ¬ ack.voter.replica ≤ last := not_le.mpr (hlast ack List.mem_cons_self)
    have hrest := ih (fun other hother ↦ hattests other (List.mem_cons_of_mem _ hother))
      (fun other hother ↦ List.rel_of_pairwise_cons horder hother) horder.of_cons
      (seenSource || decide (ack.voter.replica = plan.request.source))
    rw [checkAcknowledgements, refuseIf_bind]
    simp only [hidentity, hdigest, hfollows, ne_eq, not_true_eq_false, decide_false, Bool.or_false,
      Bool.false_eq_true, if_false, hrest]
    simp [Bool.or_assoc]

theorem perm_sortAcknowledgements (acknowledgements : List VoterAcknowledgement) :
    (sortAcknowledgements acknowledgements).Perm acknowledgements :=
  List.perm_insertionSort ..

/-- Distinct voters sort into strict order. -/
theorem pairwise_sortAcknowledgements
    (hdistinct : (acknowledgements.map fun ack ↦ ack.voter.replica).Nodup) :
    (sortAcknowledgements acknowledgements).Pairwise
      fun a b ↦ a.voter.replica < b.voter.replica := by
  have hsorted : (sortAcknowledgements acknowledgements).Pairwise
      fun a b ↦ a.voter.replica ≤ b.voter.replica := List.pairwise_insertionSort ..
  have hnodup : (sortAcknowledgements acknowledgements).Pairwise
      fun a b ↦ a.voter.replica ≠ b.voter.replica := List.pairwise_map.mp <|
    ((perm_sortAcknowledgements acknowledgements).map _).nodup_iff.mpr hdistinct
  exact (hsorted.and hnodup).imp fun hboth ↦ lt_of_le_of_ne hboth.1 hboth.2

theorem sortAcknowledgements_idem (acknowledgements : List VoterAcknowledgement) :
    sortAcknowledgements (sortAcknowledgements acknowledgements) =
      sortAcknowledgements acknowledgements :=
  List.Pairwise.insertionSort_eq (List.pairwise_insertionSort ..)

/-- Acknowledgements of distinct voters can be certified exactly if they are as many as a slow
quorum has, and the source is among them where it is required. Assumes: the voters of the plan are
valid. -/
theorem validateAcknowledgements_sorted_iff {requireSource : Bool}
    (hvoters : ∀ identity ∈ plan.request.oldVoters, identity.valid = true)
    (hattests : ∀ ack ∈ acknowledgements, Attests plan digest ack)
    (hdistinct : (acknowledgements.map fun ack ↦ ack.voter.replica).Nodup)
    (hbound : slowQuorumSize plan.request.base.voters.length ≤ maxBootstrapVoters) :
    validateAcknowledgements plan digest (sortAcknowledgements acknowledgements) requireSource =
        .ok () ↔
      acknowledgements.length = slowQuorumSize plan.request.base.voters.length ∧
        (requireSource = true →
          plan.request.source ∈ acknowledgements.map fun ack ↦ ack.voter.replica) := by
  have hperm := perm_sortAcknowledgements acknowledgements
  have hpositive : ∀ ack ∈ sortAcknowledgements acknowledgements, 0 < ack.voter.replica := by
    intro ack hack
    have hidentity := (attests_iff.mp (hattests ack (hperm.mem_iff.mp hack))).1
    have hvalid := hvoters _ (mem_of_identityFor hidentity).1
    simp only [VoterIdentity.valid, Bool.and_eq_true, decide_eq_true_eq] at hvalid
    exact Nat.pos_of_ne_zero hvalid.1
  have hchecks := checkAcknowledgements_ordered
    (fun ack hack ↦ hattests ack (hperm.mem_iff.mp hack)) hpositive
    (pairwise_sortAcknowledgements hdistinct) false
  have hseen : ((sortAcknowledgements acknowledgements).any fun ack ↦
      decide (ack.voter.replica = plan.request.source)) = true ↔
        plan.request.source ∈ acknowledgements.map fun ack ↦ ack.voter.replica := by
    simp only [List.any_eq_true, decide_eq_true_eq, hperm.mem_iff, List.mem_map]
  rw [validateAcknowledgements, refuseIf_bind_eq_ok, hchecks, hperm.length_eq]
  change _ ∧ refuseIf _ _ = _ ↔ _
  rw [refuseIf_eq_ok, ← hseen, Bool.false_or]
  simp only [Bool.or_eq_false_iff, decide_eq_false_iff_not, not_not, Bool.and_eq_false_imp,
    Bool.not_eq_false']
  constructor
  · rintro ⟨⟨hlength, -⟩, hsource⟩
    exact ⟨hlength, hsource⟩
  · rintro ⟨hlength, hsource⟩
    exact ⟨⟨hlength, by omega⟩, hsource⟩

variable {domainDigest : String → Bytes → StateDigest} {descriptor : SnapshotDescriptor}

theorem descriptor_of_buildSnapshot {certificate : SnapshotCertificate}
    (hbuild : buildSnapshotCertificate domainDigest plan descriptor acknowledgements =
      .ok certificate) : certificate.descriptor = descriptor := by
  rw [buildSnapshotCertificate, unit_bind_eq_ok, unit_bind_eq_ok] at hbuild
  rw [← Except.ok.inj hbuild.2.2]

/-- A snapshot certificate that was built is a valid one. -/
theorem validate_buildSnapshot {certificate : SnapshotCertificate}
    (hbuild : buildSnapshotCertificate domainDigest plan descriptor acknowledgements =
      .ok certificate) :
    validateSnapshotCertificate domainDigest plan certificate = .ok () := by
  rw [buildSnapshotCertificate, unit_bind_eq_ok, unit_bind_eq_ok] at hbuild
  obtain ⟨hdescriptor, hchecks, hcertificate⟩ := hbuild
  obtain rfl := Except.ok.inj hcertificate
  rw [validateSnapshotCertificate, buildSnapshotCertificate]
  simp only [sortAcknowledgements_idem, hdescriptor, hchecks, bind, Except.bind, pure, Except.pure]
  exact refuseIf_eq_ok.mpr (by simp)

theorem proof_of_buildReady {proof : VoterReadyProof} {certificate : ReadyCertificate}
    (hbuild : buildReadyCertificate domainDigest plan proof acknowledgements = .ok certificate) :
    certificate.proof = proof := by
  rw [buildReadyCertificate, refuseIf_bind_eq_ok, unit_bind_eq_ok] at hbuild
  rw [← Except.ok.inj hbuild.2.2]

/-- A ready certificate that was built is a valid one. Assumes: so is its proof. -/
theorem validate_buildReady {snapshot : SnapshotCertificate} {proof : VoterReadyProof}
    {certificate : ReadyCertificate}
    (hproof : validateVoterReadyProof plan snapshot proof = .ok ())
    (hbuild : buildReadyCertificate domainDigest plan proof acknowledgements = .ok certificate) :
    validateReadyCertificate domainDigest plan snapshot certificate = .ok () := by
  rw [buildReadyCertificate, refuseIf_bind_eq_ok, unit_bind_eq_ok] at hbuild
  obtain ⟨hshape, hchecks, hcertificate⟩ := hbuild
  obtain rfl := Except.ok.inj hcertificate
  simp only [validateReadyCertificate, buildReadyCertificate, hshape, sortAcknowledgements_idem,
    hproof, hchecks, bind, Except.bind, pure, Except.pure]
  simp [refuseIf, Except.mapError]

end

end MoreConsensus.Bootstrap
