import MoreConsensus.Bootstrap.Plan
import MoreConsensus.Library.Canonical

/-!
# Fence quorums

Before a plan can activate, the voters of the base configuration fence it: each reports what it
holds of every lane, and the coordinator combines a slow quorum of reports into a certificate with
their union (`unionFrontier`), which has to keep the bounds of a single report.

The union of sound frontiers is sound (`sound_unionOf`). `buildFenceQuorum_canonical` gathers what
follows: the order of the fences does not matter, the frontier is the least one above theirs, and
what is accepted is what is built. The bound on coverage does not come with valid fences:
`buildFenceQuorum_wideFences` has two whose union is refused.
-/

set_option autoImplicit false

namespace MoreConsensus.Bootstrap

open Library

/-- A voter's admission fence and what it holds. -/
structure LocalAdmissionFence where
  plan : BootstrapID := 0
  base : ConfState := {}
  voter : VoterIdentity := {}
  reservations : ControlReservations := {}
  frontier : BootstrapFrontier := {}
  digest : StateDigest := 0
  deriving DecidableEq, Repr, Inhabited

/-- A slow quorum of fences of one plan with their union. -/
structure FenceQuorum where
  plan : BootstrapID := 0
  base : ConfState := {}
  reservations : ControlReservations := {}
  frontier : BootstrapFrontier := {}
  fences : List LocalAdmissionFence := []
  digest : StateDigest := 0
  deriving DecidableEq, Repr, Inhabited

def maxBootstrapFrontierLanes : ℕ := 7
def maxBootstrapSparseRefs : ℕ := 65536

/-! ### Frontiers -/

/-- The sparse references of a lane are in strict order, above the compacted prefix and not above
what was observed. -/
def sparseCanonical (lane : BootstrapLaneFrontier) : Bool :=
  lane.sparse.all (fun inst ↦ inst ≠ 0 && lane.compactedExecutedThrough < inst &&
    inst ≤ lane.observedThrough) && decide (lane.sparse.Pairwise (· < ·))

/-- The checks of one lane. Carried along are the numbers of sparse references and of references
covered so far. -/
def checkLane (counts : ℕ × ℕ) (entry : ReplicaID × BootstrapLaneFrontier) :
    Except Fault (ℕ × ℕ) := do
  let (totalSparse, totalCoverage) := counts
  let (voter, lane) := entry
  refuseIf (lane.replica ≠ voter || lane.executedThrough < lane.compactedExecutedThrough ||
    lane.observedThrough < lane.executedThrough ||
    lane.observedThrough < lane.committedThrough) .certificate
  refuseIf (lane.compactedExecutedThrough ≠ 0) .compactionEvidence
  let coverage := lane.observedThrough - lane.compactedExecutedThrough
  refuseIf (maxBootstrapSparseRefs - totalCoverage < coverage) .bounds
  refuseIf (!sparseCanonical lane) .certificate
  refuseIf (maxBootstrapSparseRefs < totalSparse + lane.sparse.length) .bounds
  return (totalSparse + lane.sparse.length, totalCoverage + coverage)

def validateBootstrapFrontier (frontier : BootstrapFrontier) (base : ConfState) :
    Except Fault Unit := do
  refuseIf (frontier.conf ≠ base.id || frontier.lanes.length ≠ base.voters.length ||
    maxBootstrapFrontierLanes < frontier.lanes.length) .certificate
  let _ ← (base.voters.zip frontier.lanes).foldlM checkLane (0, 0)

/-- A lane of the union after one more fence. -/
def mergeLane (out lane : BootstrapLaneFrontier) : BootstrapLaneFrontier :=
  { out with
    observedThrough := max out.observedThrough lane.observedThrough
    committedThrough := max out.committedThrough lane.committedThrough
    executedThrough := max out.executedThrough lane.executedThrough
    sparse := out.sparse ++ lane.sparse }

def unionFrontier (base : ConfState) (fences : List LocalAdmissionFence) :
    Except Fault BootstrapFrontier := do
  let lanes ← fences.foldlM (fun lanes fence ↦ do
      validateBootstrapFrontier fence.frontier base
      return lanes.zipWith mergeLane fence.frontier.lanes)
    (base.voters.map fun voter ↦ ({ replica := voter } : BootstrapLaneFrontier))
  let frontier : BootstrapFrontier :=
    ⟨base.id, lanes.map fun lane ↦ { lane with sparse := sortedUnion lane.sparse }⟩
  validateBootstrapFrontier frontier base
  return frontier

/-! ### Certificates -/

section

variable (domainDigest : String → Bytes → StateDigest)

def digestVoterFrontier (fence : LocalAdmissionFence) : StateDigest :=
  domainDigest "epaxos/bootstrap/voter-frontier/v2"
    (appendFixed fence.plan ++ appendConf fence.base ++ appendIdentity fence.voter ++
      appendReservations fence.reservations ++ appendFrontier fence.frontier)

def digestFenceQuorum (quorum : FenceQuorum) : StateDigest :=
  domainDigest "epaxos/bootstrap/fence-quorum/v2"
    (appendFixed quorum.plan ++ appendConf quorum.base ++ appendReservations quorum.reservations ++
      appendFrontier quorum.frontier ++
      appendCounted (fun fence ↦ appendFixed fence.digest) quorum.fences)

def buildLocalAdmissionFence (fence : LocalAdmissionFence) : Except Fault LocalAdmissionFence :=
  if !fence.voter.valid then .error .eligibility
  else .ok { fence with digest := digestVoterFrontier domainDigest fence }

def validateLocalAdmissionFence (fence : LocalAdmissionFence) : Except Fault Unit :=
  refuseIf (!fence.voter.valid || fence.digest ≠ digestVoterFrontier domainDigest fence)
    .certificate

/-- The fences of a quorum in the order of their voters, each checked against the plan and against
the voter before it. -/
def checkFences (plan : VoterPlan) : Option ReplicaID → List LocalAdmissionFence →
    Except Fault Unit
  | _, [] => .ok ()
  | last, fence :: fences => do
    refuseIf (identityFor plan fence.voter.replica ≠ some fence.voter ||
      last = some fence.voter.replica || fence.plan ≠ plan.request.plan ||
      fence.base ≠ plan.request.base || fence.reservations ≠ plan.reservations) .certificate
    validateLocalAdmissionFence domainDigest fence
    checkFences plan (some fence.voter.replica) fences

def buildFenceQuorum (plan : VoterPlan) (fences : List LocalAdmissionFence) :
    Except Fault FenceQuorum := do
  validateVoterPlan domainDigest plan
  refuseIf (fences.length ≠ slowQuorumSize plan.request.base.voters.length ||
    maxBootstrapVoters < fences.length) .certificate
  let fences := fences.insertionSort fun a b ↦ a.voter.replica ≤ b.voter.replica
  checkFences domainDigest plan none fences
  let frontier ← unionFrontier plan.request.base fences
  let quorum : FenceQuorum :=
    { plan := plan.request.plan, base := plan.request.base, reservations := plan.reservations,
      frontier := frontier, fences := fences }
  return { quorum with digest := digestFenceQuorum domainDigest quorum }

def validateFenceQuorum (plan : VoterPlan) (quorum : FenceQuorum) : Except Fault Unit := do
  let canonical ← buildFenceQuorum domainDigest plan quorum.fences
  refuseIf (canonical.digest ≠ quorum.digest || canonical.frontier ≠ quorum.frontier ||
    canonical.plan ≠ quorum.plan || canonical.base ≠ quorum.base ||
    canonical.reservations ≠ quorum.reservations) .certificate

end

variable {fences : List LocalAdmissionFence} {base : ConfState} {lane : BootstrapLaneFrontier}
  {voter : ReplicaID}

/-! ### What a validated frontier says -/

/-- A lane that passes the checks made of it alone. -/
structure LaneSound (voter : ReplicaID) (lane : BootstrapLaneFrontier) : Prop where
  replica : lane.replica = voter
  compacted : lane.compactedExecutedThrough = 0
  executed_le : lane.executedThrough ≤ lane.observedThrough
  committed_le : lane.committedThrough ≤ lane.observedThrough
  sparse_mem : ∀ inst ∈ lane.sparse, 0 < inst ∧ inst ≤ lane.observedThrough
  sparse_sorted : lane.sparse.Pairwise (· < ·)

/-- A frontier whose lanes are those of a configuration and pass the checks made of each alone. -/
structure BootstrapFrontier.Sound (base : ConfState) (frontier : BootstrapFrontier) : Prop where
  conf : frontier.conf = base.id
  lanes : List.Forall₂ LaneSound base.voters frontier.lanes
  length_le : frontier.lanes.length ≤ maxBootstrapFrontierLanes

/-- The number of references a frontier covers. -/
def BootstrapFrontier.coverage (frontier : BootstrapFrontier) : ℕ :=
  (frontier.lanes.map BootstrapLaneFrontier.observedThrough).sum

theorem LaneSound.sparseCanonical
    (hlane : LaneSound voter lane) : sparseCanonical lane = true := by
  have hmem : ∀ inst ∈ lane.sparse, (inst ≠ 0 ∧ 0 < inst) ∧ inst ≤ lane.observedThrough :=
    fun inst hinst ↦ ⟨⟨(hlane.sparse_mem inst hinst).1.ne', (hlane.sparse_mem inst hinst).1⟩,
      (hlane.sparse_mem inst hinst).2⟩
  simpa [Bootstrap.sparseCanonical, hlane.compacted, hlane.sparse_sorted] using hmem

/-- A lane lists no more references than it covers. -/
theorem LaneSound.length_sparse_le
    (hlane : LaneSound voter lane) : lane.sparse.length ≤ lane.observedThrough := by
  have hnodup : lane.sparse.Nodup := hlane.sparse_sorted.imp fun hlt ↦ hlt.ne
  have hsubset : lane.sparse.toFinset ⊆ Finset.Icc 1 lane.observedThrough := fun inst hinst ↦
    Finset.mem_Icc.mpr (hlane.sparse_mem inst (List.mem_toFinset.mp hinst))
  calc lane.sparse.length = lane.sparse.toFinset.card := (List.toFinset_card_of_nodup hnodup).symm
    _ ≤ (Finset.Icc 1 lane.observedThrough).card := Finset.card_le_card hsubset
    _ = lane.observedThrough := by simp

/-- A sound lane is refused only for its bounds. -/
theorem checkLane_sound
    (hlane : LaneSound voter lane) {totalSparse totalCoverage : ℕ}
    (hcounts : totalSparse ≤ totalCoverage) (hbound : totalCoverage ≤ maxBootstrapSparseRefs) :
    checkLane (totalSparse, totalCoverage) (voter, lane) =
      if totalCoverage + lane.observedThrough ≤ maxBootstrapSparseRefs then
        .ok (totalSparse + lane.sparse.length, totalCoverage + lane.observedThrough)
      else .error .bounds := by
  have hlength := hlane.length_sparse_le
  have hexecuted := hlane.executed_le
  have hcommitted := hlane.committed_le
  have hshape : (decide (lane.replica ≠ voter) ||
      decide (lane.executedThrough < lane.compactedExecutedThrough) ||
      decide (lane.observedThrough < lane.executedThrough) ||
      decide (lane.observedThrough < lane.committedThrough)) = false := by
    simp [hlane.replica, hlane.compacted, hexecuted, hcommitted]
  simp only [checkLane, refuseIf_bind, hshape]
  simp only [hlane.compacted, hlane.sparseCanonical]
  by_cases hfits : totalCoverage + lane.observedThrough ≤ maxBootstrapSparseRefs
  · have hcoverage : ¬ maxBootstrapSparseRefs - totalCoverage < lane.observedThrough := by omega
    have hsparse : ¬ maxBootstrapSparseRefs < totalSparse + lane.sparse.length := by omega
    simp [hfits, hcoverage, hsparse, pure, Except.pure]
  · have hcoverage : maxBootstrapSparseRefs - totalCoverage < lane.observedThrough := by omega
    simp [hfits, hcoverage]

/-- A lane that is accepted is sound and within the bounds. -/
theorem laneSound_of_checkLane {entry : ReplicaID × BootstrapLaneFrontier} {counts counts' : ℕ × ℕ}
    (hcheck : checkLane counts entry = .ok counts') : LaneSound entry.1 entry.2 := by
  simp only [checkLane, refuseIf_bind_eq_ok, Bool.or_eq_false_iff, decide_eq_false_iff_not,
    not_not, not_lt, Bool.not_eq_false'] at hcheck
  obtain ⟨⟨⟨⟨hreplica, -⟩, hexecuted⟩, hcommitted⟩, hcompacted, -, hsparse, -⟩ := hcheck
  simp only [Bootstrap.sparseCanonical, Bool.and_eq_true, List.all_eq_true, decide_eq_true_eq]
    at hsparse
  exact ⟨hreplica, hcompacted, hexecuted, hcommitted,
    fun inst hinst ↦ ⟨Nat.pos_of_ne_zero (hsparse.1 inst hinst).1.1, (hsparse.1 inst hinst).2⟩,
    hsparse.2⟩

variable {lanes : List BootstrapLaneFrontier} {fences fences' : List LocalAdmissionFence}

/-- The checks of sound lanes succeed when all they cover is within the bounds, and otherwise
refuse with the bounds. -/
theorem foldlM_checkLane {voters : List ReplicaID}
    (hlanes : List.Forall₂ LaneSound voters lanes) {totalSparse totalCoverage : ℕ}
    (hcounts : totalSparse ≤ totalCoverage) (hbound : totalCoverage ≤ maxBootstrapSparseRefs) :
    ((voters.zip lanes).foldlM checkLane (totalSparse, totalCoverage)).map (fun _ ↦ ()) =
      if totalCoverage + (lanes.map BootstrapLaneFrontier.observedThrough).sum ≤
        maxBootstrapSparseRefs then .ok () else .error .bounds := by
  induction hlanes generalizing totalSparse totalCoverage with
  | nil => simp [hbound, pure, Except.pure, Except.map]
  | @cons voter lane voters lanes hlane _ ih =>
    have hlength := hlane.length_sparse_le
    rw [List.zip_cons_cons, List.foldlM_cons, checkLane_sound hlane hcounts hbound, List.map_cons,
      List.sum_cons, ← Nat.add_assoc]
    by_cases hfits : totalCoverage + lane.observedThrough ≤ maxBootstrapSparseRefs
    · rw [if_pos hfits]
      exact ih (Nat.add_le_add hcounts hlength) hfits
    · rw [if_neg hfits, if_neg fun hsum ↦ hfits (le_trans (Nat.le_add_right _ _) hsum)]
      rfl

theorem forall₂_of_foldlM {voters : List ReplicaID}
    (hlength : lanes.length = voters.length) {counts counts' : ℕ × ℕ}
    (hcheck : (voters.zip lanes).foldlM checkLane counts = .ok counts') :
    List.Forall₂ LaneSound voters lanes := by
  induction voters generalizing lanes counts with
  | nil => rw [List.length_eq_zero_iff.mp hlength]; exact .nil
  | cons voter voters ih =>
    obtain ⟨lane, lanes, rfl⟩ := List.exists_cons_of_length_eq_add_one hlength
    rw [List.zip_cons_cons, List.foldlM_cons, bind_eq_ok] at hcheck
    obtain ⟨next, hlane, hrest⟩ := hcheck
    exact .cons (laneSound_of_checkLane hlane) (ih (by simpa using hlength) hrest)

/-- A sound frontier is refused only for its bounds. -/
theorem validateBootstrapFrontier_sound {frontier : BootstrapFrontier}
    (hsound : frontier.Sound base) :
    validateBootstrapFrontier frontier base =
      if frontier.coverage ≤ maxBootstrapSparseRefs then .ok () else .error .bounds := by
  have hshape : (decide (frontier.conf ≠ base.id) ||
      decide (frontier.lanes.length ≠ base.voters.length) ||
      decide (maxBootstrapFrontierLanes < frontier.lanes.length)) = false := by
    simp [hsound.conf, hsound.lanes.length_eq, hsound.length_le]
  have hchecks := foldlM_checkLane hsound.lanes (le_refl 0) (Nat.zero_le _)
  rw [Nat.zero_add] at hchecks
  simp only [validateBootstrapFrontier, refuseIf_bind, hshape]
  exact hchecks

theorem sound_of_validate {frontier : BootstrapFrontier}
    (hvalid : validateBootstrapFrontier frontier base = .ok ()) : frontier.Sound base := by
  rw [validateBootstrapFrontier, refuseIf_bind_eq_ok, bind_eq_ok] at hvalid
  obtain ⟨hshape, counts, hcheck, -⟩ := hvalid
  simp only [Bool.or_eq_false_iff, decide_eq_false_iff_not, not_not, not_lt] at hshape
  exact ⟨hshape.1.1, forall₂_of_foldlM hshape.1.2 hcheck, hshape.2⟩

/-! ### The union -/

/-- The lane of a fence at a position. -/
def LocalAdmissionFence.laneAt (fence : LocalAdmissionFence) (i : ℕ) : BootstrapLaneFrontier :=
  fence.frontier.lanes.getD i {}

/-- The lane of the union at a position. -/
def unionLane (fences : List LocalAdmissionFence) (i : ℕ) (voter : ReplicaID) :
    BootstrapLaneFrontier :=
  { replica := voter
    observedThrough := (fences.map fun fence ↦ (fence.laneAt i).observedThrough).foldl max 0
    committedThrough := (fences.map fun fence ↦ (fence.laneAt i).committedThrough).foldl max 0
    executedThrough := (fences.map fun fence ↦ (fence.laneAt i).executedThrough).foldl max 0
    sparse := sortedUnion (fences.flatMap fun fence ↦ (fence.laneAt i).sparse) }

/-- The union of the frontiers of some fences, lane by lane. -/
def unionOf (base : ConfState) (fences : List LocalAdmissionFence) : BootstrapFrontier :=
  ⟨base.id, base.voters.mapIdx fun i voter ↦ unionLane fences i voter⟩

/-- Merging lanes one after another takes the maxima and appends the sparse references. -/
theorem foldl_mergeLane (fences : List LocalAdmissionFence) (i : ℕ)
    (start : BootstrapLaneFrontier) :
    fences.foldl (fun out fence ↦ mergeLane out (fence.laneAt i)) start =
      { start with
        observedThrough := (fences.map fun fence ↦ (fence.laneAt i).observedThrough).foldl max
          start.observedThrough
        committedThrough := (fences.map fun fence ↦ (fence.laneAt i).committedThrough).foldl max
          start.committedThrough
        executedThrough := (fences.map fun fence ↦ (fence.laneAt i).executedThrough).foldl max
          start.executedThrough
        sparse := start.sparse ++ fences.flatMap fun fence ↦ (fence.laneAt i).sparse } := by
  induction fences generalizing start with
  | nil => simp
  | cons fence fences ih =>
    rw [List.foldl_cons, ih]
    simp [mergeLane]

/-- Merging whole lists of lanes merges the lanes at each position. -/
theorem getElem?_foldl_zipWith (fences : List LocalAdmissionFence) (i : ℕ)
    {start : List BootstrapLaneFrontier}
    (hlengths : ∀ fence ∈ fences, fence.frontier.lanes.length = start.length)
    (hlane : start[i]? = some lane) :
    (fences.foldl (fun lanes fence ↦ lanes.zipWith mergeLane fence.frontier.lanes) start)[i]? =
      some (fences.foldl (fun out fence ↦ mergeLane out (fence.laneAt i)) lane) := by
  induction fences generalizing start lane with
  | nil => exact hlane
  | cons fence fences ih =>
    have hlength := hlengths fence List.mem_cons_self
    obtain ⟨hi, -⟩ := List.getElem?_eq_some_iff.mp hlane
    have hfence : fence.frontier.lanes[i]? = some (fence.laneAt i) := by
      rw [LocalAdmissionFence.laneAt, List.getD_eq_getElem?_getD,
        List.getElem?_eq_getElem (hlength ▸ hi), Option.getD_some]
    rw [List.foldl_cons]
    refine ih (fun other hother ↦ ?_) ?_
    · rw [List.length_zipWith, hlength, min_self]
      exact hlengths other (List.mem_cons_of_mem _ hother)
    · rw [List.getElem?_zipWith, hlane, hfence]

theorem length_foldl_zipWith (fences : List LocalAdmissionFence)
    {start : List BootstrapLaneFrontier}
    (hlengths : ∀ fence ∈ fences, fence.frontier.lanes.length = start.length) :
    (fences.foldl (fun lanes fence ↦ lanes.zipWith mergeLane fence.frontier.lanes) start).length =
      start.length := by
  induction fences generalizing start with
  | nil => rfl
  | cons fence fences ih =>
    have hlength : (start.zipWith mergeLane fence.frontier.lanes).length = start.length := by
      rw [List.length_zipWith, hlengths fence List.mem_cons_self, min_self]
    rw [List.foldl_cons, ih fun other hother ↦ ?_, hlength]
    rw [hlength]
    exact hlengths other (List.mem_cons_of_mem _ hother)

/-- Merging the lanes of fences with the lanes of a base gives their union. -/
theorem merged_eq_unionOf
    (hlengths : ∀ fence ∈ fences, fence.frontier.lanes.length = base.voters.length) :
    (fences.foldl (fun lanes fence ↦ lanes.zipWith mergeLane fence.frontier.lanes)
        (base.voters.map fun voter ↦ ({ replica := voter } : BootstrapLaneFrontier))).map
      (fun lane ↦ { lane with sparse := sortedUnion lane.sparse }) =
    (unionOf base fences).lanes := by
  have hstart : (base.voters.map fun voter ↦
      ({ replica := voter } : BootstrapLaneFrontier)).length = base.voters.length :=
    List.length_map _
  have hmerged := length_foldl_zipWith fences fun fence hfence ↦
    (hlengths fence hfence).trans hstart.symm
  refine List.ext_getElem? fun i ↦ ?_
  cases hvoter : base.voters[i]? with
  | none =>
    have hi := List.getElem?_eq_none_iff.mp hvoter
    rw [List.getElem?_eq_none_iff.mpr (by rw [List.length_map, hmerged, hstart]; exact hi),
      List.getElem?_eq_none_iff.mpr (by rw [unionOf, List.length_mapIdx]; exact hi)]
  | some voter =>
    have hlane := getElem?_foldl_zipWith fences i
      (fun fence hfence ↦ (hlengths fence hfence).trans hstart.symm)
      (by rw [List.getElem?_map, hvoter]; rfl)
    rw [List.getElem?_map, hlane, foldl_mergeLane, unionOf, List.getElem?_mapIdx, hvoter]
    rfl

/-- The lane of a sound frontier at the position of a voter is sound. -/
theorem laneSound_laneAt {fence : LocalAdmissionFence}
    (hsound : fence.frontier.Sound base) {i : ℕ}
    (hvoter : base.voters[i]? = some voter) : LaneSound voter (fence.laneAt i) := by
  obtain ⟨hi, rfl⟩ := List.getElem?_eq_some_iff.mp hvoter
  have hi' : i < fence.frontier.lanes.length := hsound.lanes.length_eq ▸ hi
  rw [LocalAdmissionFence.laneAt, List.getD_eq_getElem?_getD, List.getElem?_eq_getElem hi',
    Option.getD_some]
  exact (List.forall₂_iff_get.mp hsound.lanes).2 i hi hi'

/-- What the lane of the union at a position says of the lanes of the fences: the greatest numbers,
and every sparse reference once, in order. -/
structure LaneUnion (lanes : List BootstrapLaneFrontier) (out : BootstrapLaneFrontier) : Prop where
  observed : IsGreatest {through | ∃ lane ∈ lanes, lane.observedThrough = through}
    out.observedThrough
  committed : IsGreatest {through | ∃ lane ∈ lanes, lane.committedThrough = through}
    out.committedThrough
  executed : IsGreatest {through | ∃ lane ∈ lanes, lane.executedThrough = through}
    out.executedThrough
  compacted : out.compactedExecutedThrough = 0
  mem_sparse : ∀ inst, inst ∈ out.sparse ↔ ∃ lane ∈ lanes, inst ∈ lane.sparse
  sparse_sorted : out.sparse.Pairwise (· < ·)

/-- The running maximum of a field of the lanes at a position is its greatest value. -/
theorem isGreatest_field (hne : fences ≠ []) (i : ℕ)
    (field : BootstrapLaneFrontier → InstanceNum) :
    IsGreatest {through | ∃ lane ∈ fences.map (·.laneAt i), field lane = through}
      ((fences.map fun fence ↦ field (fence.laneAt i)).foldl max 0) := by
  have hvalues : fences.map (fun fence ↦ field (fence.laneAt i)) ≠ [] := by simpa using hne
  have hgreatest := isGreatest_foldl_max hvalues
  convert hgreatest using 1
  ext through
  simp

theorem laneUnion_unionLane (hne : fences ≠ []) (i : ℕ)
    (voter : ReplicaID) : LaneUnion (fences.map (·.laneAt i)) (unionLane fences i voter) where
  observed := isGreatest_field hne i BootstrapLaneFrontier.observedThrough
  committed := isGreatest_field hne i BootstrapLaneFrontier.committedThrough
  executed := isGreatest_field hne i BootstrapLaneFrontier.executedThrough
  compacted := rfl
  mem_sparse inst := by simp [unionLane]
  sparse_sorted := pairwise_sortedUnion _

/-- The union of sound lanes is sound. -/
theorem LaneUnion.laneSound
    {out : BootstrapLaneFrontier} (hunion : LaneUnion lanes out) (hreplica : out.replica = voter)
    (hlanes : ∀ lane ∈ lanes, LaneSound voter lane) : LaneSound voter out := by
  have hobserved {lane} (hlane : lane ∈ lanes) : lane.observedThrough ≤ out.observedThrough :=
    hunion.observed.2 ⟨lane, hlane, rfl⟩
  refine ⟨hreplica, hunion.compacted, ?_, ?_, fun inst hinst ↦ ?_, hunion.sparse_sorted⟩
  · obtain ⟨lane, hlane, heq⟩ := hunion.executed.1
    exact heq ▸ (hlanes lane hlane).executed_le.trans (hobserved hlane)
  · obtain ⟨lane, hlane, heq⟩ := hunion.committed.1
    exact heq ▸ (hlanes lane hlane).committed_le.trans (hobserved hlane)
  · obtain ⟨lane, hlane, hmem⟩ := (hunion.mem_sparse inst).mp hinst
    obtain ⟨hpos, hle⟩ := (hlanes lane hlane).sparse_mem inst hmem
    exact ⟨hpos, hle.trans (hobserved hlane)⟩

/-- The union of sound frontiers is sound. -/
theorem sound_unionOf
    (hne : fences ≠ []) (hsound : ∀ fence ∈ fences, fence.frontier.Sound base) :
    (unionOf base fences).Sound base := by
  have hlength : (unionOf base fences).lanes.length = base.voters.length := List.length_mapIdx
  refine ⟨rfl, List.forall₂_iff_get.mpr ⟨hlength.symm, fun i hi hi' ↦ ?_⟩, ?_⟩
  · have hlane : (unionOf base fences).lanes.get ⟨i, hi'⟩ =
        unionLane fences i (base.voters.get ⟨i, hi⟩) := List.getElem_mapIdx ..
    rw [hlane]
    refine (laneUnion_unionLane hne i _).laneSound rfl fun lane hmem ↦ ?_
    obtain ⟨fence, hfence, rfl⟩ := List.mem_map.mp hmem
    exact laneSound_laneAt (hsound fence hfence) (List.getElem?_eq_getElem hi)
  · obtain ⟨fence, hfence⟩ := List.exists_mem_of_ne_nil fences hne
    rw [hlength, (hsound fence hfence).lanes.length_eq]
    exact (hsound fence hfence).length_le

/-- Fences with valid frontiers have their union for a frontier, unless it covers too much. -/
theorem unionFrontier_eq
    (hne : fences ≠ [])
    (hvalid : ∀ fence ∈ fences, validateBootstrapFrontier fence.frontier base = .ok ()) :
    unionFrontier base fences =
      if (unionOf base fences).coverage ≤ maxBootstrapSparseRefs then .ok (unionOf base fences)
      else .error .bounds := by
  have hsound fence (hfence : fence ∈ fences) : fence.frontier.Sound base :=
    sound_of_validate (hvalid fence hfence)
  have hlengths fence (hfence : fence ∈ fences) :
      fence.frontier.lanes.length = base.voters.length :=
    (hsound fence hfence).lanes.length_eq.symm
  have hmerge := foldlM_checked (fun lanes fence ↦
    lanes.zipWith mergeLane fence.frontier.lanes) hvalid
    (base.voters.map fun voter ↦ ({ replica := voter } : BootstrapLaneFrontier))
  have hunion := validateBootstrapFrontier_sound (sound_unionOf hne hsound)
  have hfrontier : unionFrontier base fences =
      (validateBootstrapFrontier (unionOf base fences) base >>= fun _ ↦
        .ok (unionOf base fences)) := by
    rw [unionFrontier, hmerge]
    simp only [bind, Except.bind, merged_eq_unionOf hlengths]
    rfl
  rw [hfrontier, hunion]
  split <;> rfl

/-- The union does not depend on the order of the fences. -/
theorem unionOf_perm
    (hperm : fences.Perm fences') : unionOf base fences = unionOf base fences' := by
  have hmax (i : ℕ) (field : BootstrapLaneFrontier → InstanceNum) :
      (fences.map fun fence ↦ field (fence.laneAt i)).foldl max 0 =
        (fences'.map fun fence ↦ field (fence.laneAt i)).foldl max 0 :=
    (hperm.map _).foldl_eq' (fun a _ b _ c ↦ max_right_comm c a b) 0
  have hlane (i : ℕ) (voter : ReplicaID) :
      unionLane fences i voter = unionLane fences' i voter := by
    rw [unionLane, hmax i BootstrapLaneFrontier.observedThrough,
      hmax i BootstrapLaneFrontier.committedThrough, hmax i BootstrapLaneFrontier.executedThrough,
      sortedUnion_perm (hperm.flatMap_right _)]
    rfl
  simp only [unionOf, hlane]

/-- A frontier is the union of the frontiers of some fences. -/
structure FrontierUnion (base : ConfState) (fences : List LocalAdmissionFence)
    (frontier : BootstrapFrontier) : Prop where
  conf : frontier.conf = base.id
  length : frontier.lanes.length = base.voters.length
  lanes : ∀ i voter, base.voters[i]? = some voter → ∃ lane, frontier.lanes[i]? = some lane ∧
    lane.replica = voter ∧ LaneUnion (fences.map (·.laneAt i)) lane

theorem frontierUnion_unionOf
    (hne : fences ≠ []) : FrontierUnion base fences (unionOf base fences) where
  conf := rfl
  length := List.length_mapIdx
  lanes i voter hvoter :=
    ⟨unionLane fences i voter, by rw [unionOf, List.getElem?_mapIdx, hvoter]; rfl, rfl,
      laneUnion_unionLane hne i voter⟩

/-! ### The certificate of a quorum -/

variable {domainDigest : String → Bytes → StateDigest} {plan : VoterPlan}

/-- A fence of a plan: from a voter of the plan under its identity, for the base and the
reservations of the plan, with its own digest and a valid frontier. -/
structure FenceFor (domainDigest : String → Bytes → StateDigest) (plan : VoterPlan)
    (fence : LocalAdmissionFence) : Prop where
  identity : identityFor plan fence.voter.replica = some fence.voter
  plan_eq : fence.plan = plan.request.plan
  base_eq : fence.base = plan.request.base
  reservations_eq : fence.reservations = plan.reservations
  valid : validateLocalAdmissionFence domainDigest fence = .ok ()
  frontier : validateBootstrapFrontier fence.frontier plan.request.base = .ok ()

/-- Fences of a plan from distinct voters pass the checks of a quorum. -/
theorem checkFences_eq_ok
    (hfences : ∀ fence ∈ fences, FenceFor domainDigest plan fence)
    (hdistinct : (fences.map fun fence ↦ fence.voter.replica).Nodup) {last : Option ReplicaID}
    (hlast : ∀ fence ∈ fences, last ≠ some fence.voter.replica) :
    checkFences domainDigest plan last fences = .ok () := by
  induction fences generalizing last with
  | nil => rfl
  | cons fence fences ih =>
    have hfence := hfences fence List.mem_cons_self
    rw [List.map_cons, List.nodup_cons] at hdistinct
    rw [checkFences, refuseIf_bind_eq_ok]
    refine ⟨?_, ?_⟩
    · simp [hfence.identity, hlast fence List.mem_cons_self, hfence.plan_eq, hfence.base_eq,
        hfence.reservations_eq]
    · rw [unit_bind_eq_ok]
      refine ⟨hfence.valid, ih (fun other hother ↦ hfences other (List.mem_cons_of_mem _ hother))
        hdistinct.2 fun other hother hsame ↦ hdistinct.1 ?_⟩
      rw [Option.some.inj hsame]
      exact List.mem_map_of_mem hother

/-- The fences of a quorum in the order of their voters. -/
def sortedFences (fences : List LocalAdmissionFence) : List LocalAdmissionFence :=
  fences.insertionSort fun a b ↦ a.voter.replica ≤ b.voter.replica

/-- The certificate of a quorum of fences, given in the order of their voters. -/
def quorumOf (domainDigest : String → Bytes → StateDigest) (plan : VoterPlan)
    (fences : List LocalAdmissionFence) : FenceQuorum :=
  let quorum : FenceQuorum :=
    { plan := plan.request.plan, base := plan.request.base, reservations := plan.reservations,
      frontier := unionOf plan.request.base fences, fences := fences }
  { quorum with digest := digestFenceQuorum domainDigest quorum }

/-- The fences of a slow quorum: of the plan, from distinct voters, and of the exact number. -/
structure FenceSet (domainDigest : String → Bytes → StateDigest) (plan : VoterPlan)
    (fences : List LocalAdmissionFence) : Prop where
  plan_valid : validateVoterPlan domainDigest plan = .ok ()
  fence : ∀ fence ∈ fences, FenceFor domainDigest plan fence
  distinct : (fences.map fun fence ↦ fence.voter.replica).Nodup
  length : fences.length = slowQuorumSize plan.request.base.voters.length

theorem FenceSet.ne_nil
    (hset : FenceSet domainDigest plan fences) : fences ≠ [] := by
  intro hnil
  have hlength := hset.length
  rw [hnil, slowQuorumSize] at hlength
  simp at hlength

theorem FenceSet.perm
    (hset : FenceSet domainDigest plan fences) (hperm : fences.Perm fences') :
    FenceSet domainDigest plan fences' where
  plan_valid := hset.plan_valid
  fence fence hfence := hset.fence fence (hperm.mem_iff.mpr hfence)
  distinct := (hperm.map _).nodup_iff.mp hset.distinct
  length := hperm.length_eq ▸ hset.length

/-- The certificate that is built from the fences of a slow quorum. -/
theorem buildFenceQuorum_eq
    (hset : FenceSet domainDigest plan fences) :
    buildFenceQuorum domainDigest plan fences =
      if (unionOf plan.request.base fences).coverage ≤ maxBootstrapSparseRefs then
        .ok (quorumOf domainDigest plan (sortedFences fences))
      else .error .bounds := by
  have hperm : fences.Perm (sortedFences fences) := (List.perm_insertionSort _ fences).symm
  have hsorted := hset.perm hperm
  have hvoters := (valid_of_validate hset.plan_valid).length_lt
  have hcount : (decide (fences.length ≠ slowQuorumSize plan.request.base.voters.length) ||
      decide (maxBootstrapVoters < fences.length)) = false := by
    rw [hset.length, slowQuorumSize, maxBootstrapVoters]
    simp only [ne_eq, not_true_eq_false, decide_false, Bool.false_or, decide_eq_false_iff_not]
    omega
  have hchecks : checkFences domainDigest plan none (sortedFences fences) = .ok () :=
    checkFences_eq_ok hsorted.fence hsorted.distinct fun _ _ hnone ↦ nomatch hnone
  have hunion := unionFrontier_eq hsorted.ne_nil fun fence hfence ↦
    (hsorted.fence fence hfence).frontier
  rw [← unionOf_perm hperm] at hunion
  unfold buildFenceQuorum
  rw [hset.plan_valid, hcount]
  change (checkFences domainDigest plan none (sortedFences fences) >>= fun _ ↦
    unionFrontier plan.request.base (sortedFences fences) >>= _) = _
  rw [hchecks, hunion]
  split
  · rw [quorumOf, ← unionOf_perm hperm]
    rfl
  · rfl

/-- A certificate is accepted when it is the one built from its fences, up to their order. -/
theorem validateFenceQuorum_eq_ok {quorum : FenceQuorum} :
    validateFenceQuorum domainDigest plan quorum = .ok () ↔
      ∃ canonical, buildFenceQuorum domainDigest plan quorum.fences = .ok canonical ∧
        { canonical with fences := quorum.fences } = quorum := by
  rw [validateFenceQuorum, bind_eq_ok]
  refine exists_congr fun canonical ↦ and_congr_right fun _ ↦ ?_
  rw [refuseIf_eq_ok]
  simp only [Bool.or_eq_false_iff, decide_eq_false_iff_not, not_not]
  refine ⟨fun ⟨⟨⟨⟨hdigest, hfrontier⟩, hplan⟩, hbase⟩, hreservations⟩ ↦ ?_, fun hsame ↦ ?_⟩
  · rw [hdigest, hfrontier, hplan, hbase, hreservations]
  · rw [← hsame]
    exact ⟨⟨⟨⟨rfl, rfl⟩, rfl⟩, rfl⟩, rfl⟩

/-- The fences of a certificate that is built are those it was built from. -/
theorem fences_of_build
    {quorum : FenceQuorum} (hbuild : buildFenceQuorum domainDigest plan fences = .ok quorum) :
    quorum.fences = sortedFences fences := by
  rw [buildFenceQuorum, unit_bind_eq_ok, refuseIf_bind_eq_ok, unit_bind_eq_ok, bind_eq_ok] at hbuild
  obtain ⟨-, -, -, frontier, -, hquorum⟩ := hbuild
  cases hquorum
  rfl

/-- Every order of the fences makes the same certificate. -/
theorem buildFenceQuorum_of_perm
    (hset : FenceSet domainDigest plan fences)
    (hfits : (unionOf plan.request.base fences).coverage ≤ maxBootstrapSparseRefs)
    (hperm : fences.Perm fences') : buildFenceQuorum domainDigest plan fences' =
      .ok (quorumOf domainDigest plan (sortedFences fences)) := by
  have hsame : sortedFences fences' = sortedFences fences :=
    (insertionSort_eq_of_perm (fun fence : LocalAdmissionFence ↦ fence.voter.replica)
      hset.distinct hperm).symm
  rw [buildFenceQuorum_eq (hset.perm hperm), ← unionOf_perm hperm, if_pos hfits, hsame]

/-- What is built is accepted. -/
theorem validate_quorumOf
    (hset : FenceSet domainDigest plan fences)
    (hfits : (unionOf plan.request.base fences).coverage ≤ maxBootstrapSparseRefs) :
    validateFenceQuorum domainDigest plan (quorumOf domainDigest plan (sortedFences fences)) =
      .ok () :=
  validateFenceQuorum_eq_ok.mpr
    ⟨_, buildFenceQuorum_of_perm hset hfits (List.perm_insertionSort _ fences).symm, rfl⟩

/-- From the fences of a slow quorum, in any order, one certificate is built and accepted. Its
frontier is the union of theirs. When the union covers more references than a frontier may, every
order is refused. A certificate that is accepted is the one built from its fences, up to their
order. -/
theorem buildFenceQuorum_canonical (domainDigest : String → Bytes → StateDigest)
    (plan : VoterPlan) :
    (∀ fences, FenceSet domainDigest plan fences →
      ((unionOf plan.request.base fences).coverage ≤ maxBootstrapSparseRefs →
        ∃ quorum, (∀ fences', fences.Perm fences' →
            buildFenceQuorum domainDigest plan fences' = .ok quorum) ∧
          FrontierUnion plan.request.base fences quorum.frontier ∧
          validateFenceQuorum domainDigest plan quorum = .ok ()) ∧
      (maxBootstrapSparseRefs < (unionOf plan.request.base fences).coverage →
        ∀ fences', fences.Perm fences' →
          buildFenceQuorum domainDigest plan fences' = .error .bounds)) ∧
    ∀ quorum, validateFenceQuorum domainDigest plan quorum = .ok () →
      ∃ canonical, buildFenceQuorum domainDigest plan quorum.fences = .ok canonical ∧
        canonical.fences.Perm quorum.fences ∧
        { canonical with fences := quorum.fences } = quorum := by
  refine ⟨fun fences hset ↦ ⟨fun hfits ↦ ?_, fun hwide fences' hperm ↦ ?_⟩, fun quorum hvalid ↦ ?_⟩
  · have hsorted : fences.Perm (sortedFences fences) := (List.perm_insertionSort _ fences).symm
    refine ⟨quorumOf domainDigest plan (sortedFences fences),
      fun fences' hperm ↦ buildFenceQuorum_of_perm hset hfits hperm, ?_,
        validate_quorumOf hset hfits⟩
    rw [quorumOf, ← unionOf_perm hsorted]
    exact frontierUnion_unionOf hset.ne_nil
  · rw [buildFenceQuorum_eq (hset.perm hperm), ← unionOf_perm hperm, if_neg (not_le.mpr hwide)]
  · obtain ⟨canonical, hbuild, hsame⟩ := validateFenceQuorum_eq_ok.mp hvalid
    refine ⟨canonical, hbuild, ?_, hsame⟩
    rw [fences_of_build hbuild]
    exact List.perm_insertionSort _ _

/-- A digest function that ignores its input. -/
def flatDigest : String → Bytes → StateDigest := fun _ _ ↦ 9

/-- A plan that adds the fourth voter to three. -/
def fourthVoter : VoterPlan :=
  { request :=
      { cluster := 1, plan := 1, base := ⟨1, [1, 2, 3]⟩, oldVoters := [⟨1, 1⟩, ⟨2, 1⟩, ⟨3, 1⟩],
        target := ⟨4, 1⟩, source := 1, sourceDigest := 1, releaseDigest := 1,
        targetAllocatorFloor := 1, timingDigest := 1 }
    reservations := ⟨⟨1, 1, 1⟩, ⟨1, 2, 1⟩, ⟨1, 3, 1⟩⟩
    successor := ⟨2, [1, 2, 3, 4]⟩
    requestDigest := 9 }

/-- The fence of a voter with what it observed and what it retains of each of the three lanes. -/
def fenceAt (voter : ReplicaID) (lanes : List (InstanceNum × List InstanceNum)) :
    LocalAdmissionFence :=
  { plan := 1, base := ⟨1, [1, 2, 3]⟩, voter := ⟨voter, 1⟩, reservations := fourthVoter.reservations
    frontier := ⟨1, [1, 2, 3].zipWith (fun replica lane ↦
      { replica := replica, observedThrough := lane.1, sparse := lane.2 }) lanes⟩
    digest := 9 }

/-- Two voters that hold different instances of the same lanes. -/
def twoFences : List LocalAdmissionFence :=
  [fenceAt 1 [(2, [1, 2]), (0, []), (1, [1])], fenceAt 2 [(1, [1]), (3, [2, 3]), (0, [])]]

theorem buildFenceQuorum_canonical_twoFences :
    FenceSet flatDigest fourthVoter twoFences ∧
      ∃ quorum, (∀ fences', twoFences.Perm fences' →
          buildFenceQuorum flatDigest fourthVoter fences' = .ok quorum) ∧
        FrontierUnion fourthVoter.request.base twoFences quorum.frontier ∧
        validateFenceQuorum flatDigest fourthVoter quorum = .ok () := by
  have hset : FenceSet flatDigest fourthVoter twoFences := by
    refine ⟨by decide +kernel, fun fence hfence ↦ ?_, by decide, by decide⟩
    simp only [twoFences, List.mem_cons, List.not_mem_nil, or_false] at hfence
    rcases hfence with rfl | rfl <;>
      exact ⟨by decide, by decide, by decide, by decide, by decide, by decide⟩
  exact ⟨hset, ((buildFenceQuorum_canonical flatDigest fourthVoter).1 _ hset).1 (by decide)⟩

/-- Two voters that observed much of different lanes. -/
def wideFences : List LocalAdmissionFence :=
  [fenceAt 1 [(40000, []), (0, []), (0, [])], fenceAt 2 [(0, []), (40000, []), (0, [])]]

/-- Fences of a slow quorum of distinct voters, each of them valid, give no certificate when their
union covers more references than a frontier may. -/
theorem buildFenceQuorum_wideFences :
    FenceSet flatDigest fourthVoter wideFences ∧
      buildFenceQuorum flatDigest fourthVoter wideFences = .error .bounds := by
  refine ⟨⟨by decide +kernel, fun fence hfence ↦ ?_, by decide, by decide⟩, by decide +kernel⟩
  simp only [wideFences, List.mem_cons, List.not_mem_nil, or_false] at hfence
  rcases hfence with rfl | rfl <;>
    exact ⟨by decide, by decide, by decide, by decide, by decide, by decide +kernel⟩

end MoreConsensus.Bootstrap
