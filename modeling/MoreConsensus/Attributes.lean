import MoreConsensus.Library.Staircases
import MoreConsensus.Node

/-!
# Ordering attributes

How a node computes the sequence number and the dependencies of a command from the instances it
knows (`computeAttrsAt`), how votes are merged, when the owner may commit on the fast path, and
which conflicts a TryPreAccept meets (`epaxos/node.go`). A resident record carries the reference it
is stored under, so references are read from the records here.
-/

set_option autoImplicit false

namespace MoreConsensus

open Library

/-! ### Attributes -/

def saturatingSeqIncrement (value : ℕ) : ℕ := if value = maxUint64 then value else value + 1

/-- The pointwise maximum of two dependency vectors, of the length of the longer one. -/
def mergeDeps : List InstanceNum → List InstanceNum → List InstanceNum
  | [], others => others
  | deps, [] => deps
  | dep :: deps, other :: others => max dep other :: mergeDeps deps others

def mergeAttrs (a b : Attributes) : Attributes :=
  let seq := max a.seq b.seq
  ⟨if seq = 0 then 1 else seq, mergeDeps a.deps b.deps⟩

def attrsFromVotes (conf : ConfState) (votes : VoteSet AttrVote) : Attributes :=
  (VoteSet.each votes conf).foldl (fun out vote ↦ mergeAttrs out vote.2.attributes) {}

/-- Whether every entry of a vector is bounded by the entry of a vector at least as long. -/
def depsCover : List InstanceNum → List InstanceNum → Bool
  | [], _ => true
  | _ :: _, [] => false
  | dep :: base, other :: candidate => decide (dep ≤ other) && depsCover base candidate

def attrsCover (base candidate : Attributes) : Bool :=
  decide (base.seq ≤ candidate.seq) && depsCover base.deps candidate.deps

/-- A vector is covered by its extensions, also with entries of them raised. -/
theorem depsCover_append (deps more : List InstanceNum) : depsCover deps (deps ++ more) = true := by
  induction deps with
  | nil => rfl
  | cons dep deps ih => simp [depsCover, ih]

theorem depsCover_modify_max {base candidate : List InstanceNum} (idx : ℕ) (inst : InstanceNum)
    (hcover : depsCover base candidate = true) :
    depsCover base (candidate.modify idx fun through ↦ max through inst) = true := by
  induction base generalizing candidate idx with
  | nil => rfl
  | cons dep base ih =>
    cases candidate with
    | nil => cases hcover
    | cons other candidate =>
      simp only [depsCover, Bool.and_eq_true, decide_eq_true_eq] at hcover
      cases idx with
      | zero => simp [depsCover, hcover.1, hcover.2]
      | succ idx => simp [depsCover, hcover.1, ih idx hcover.2]

/-- A vector padded with zeros to the number of voters. -/
def padDeps (width : ℕ) (deps : List InstanceNum) : List InstanceNum :=
  deps ++ List.replicate (width - deps.length) 0

/-! ### Instance numbers -/

/-- The largest number of a list, zero for none. -/
def maxInstance (nums : List InstanceNum) : InstanceNum := nums.foldl max 0

/-- The largest sequence number folded at or below an instance, by binary search; the first
breakpoint answers for those that have been dropped. -/
def RetiredLane.retiredPrefixMaxSeq (lane : RetiredLane) (through : InstanceNum) : ℕ :=
  match lane.retiredSeq with
  | [] => 0
  | first :: _ =>
    if through < first.1 then if lane.seqCompressed then first.2 else 0
    else
      let size := lane.retiredSeq.length
      let lo := bisect (fun mid ↦ (lane.retiredSeq[mid]?).elim false fun point ↦
        decide (point.1 ≤ through)) size 0 size
      (lane.retiredSeq[lo - 1]?).elim 0 Prod.snd

namespace RawNode

/-- The record of a resident instance. -/
def record? (n : RawNode) (ref : InstanceRef) : Option InstanceRecord :=
  (n.instances.get? ref).map Instance.record

def retiredLane (n : RawNode) (lane : InstanceLane) : RetiredLane := (n.retired.get? lane).getD {}

/-- The largest sequence number known at or below an instance of a lane. -/
def prefixMaxSeq (n : RawNode) (lane : InstanceLane) (through : InstanceNum) : ℕ :=
  max (n.engine.prefixMaxSeq lane through) ((n.retiredLane lane).retiredPrefixMaxSeq through)

/-! ### Walks over the resident instances -/

/-- The resident records of the instances of a lane that a walk passes. -/
def recordsOf (n : RawNode) (lane : InstanceLane) (walk : List (InstanceNum × LaneSlot)) :
    List InstanceRecord :=
  walk.filterMap fun entry ↦ n.record? (lane.ref entry.1)

def eligibleRecords (n : RawNode) (lane : InstanceLane) : List InstanceRecord :=
  n.recordsOf lane ((n.engine.walkDesc lane (n.engine.maxEligibleAny lane)).filter fun entry ↦
    entry.2.eligible)

/-- The resident records of a lane that the walk of a footprint passes, with the scratch set. -/
def footprintRecords (n : RawNode) (conf : ConfID) (f : Footprint) (lane : InstanceLane) :
    List InstanceRecord × List Resource :=
  let start := (n.engine.footprintMax conf f lane).1.1
  let walk := n.engine.walkFootprintDesc conf f lane start
  (n.recordsOf lane (walk.1.filter fun entry ↦ entry.2.eligible), walk.2)

/-- The lanes of a footprint, each with its highest floor and its visited records. The walks of a
lane are made inside the walk over the lanes, with the same scratch set. -/
def footprintVisits (n : RawNode) (conf : ConfID) (f : Footprint) :
    List (InstanceLane × InstanceNum × List InstanceRecord) :=
  n.engine.footprintLaneSet conf f (fun lane state ↦
    let retired := (n.engine.footprintMax conf f lane).1.2
    let records := n.footprintRecords conf f lane
    (state.1 ++ [(lane, retired, records.1)], records.2)) []

def globalRecords (n : RawNode) (lane : InstanceLane) : List InstanceRecord :=
  n.recordsOf lane (n.engine.walkGlobalDesc lane (n.engine.globalMax lane))

/-- The instances of global scope that the engine has a slot for and the node no record. -/
def globalAbsent (n : RawNode) (lane : InstanceLane) : List InstanceNum :=
  ((n.engine.walkGlobalDesc lane (n.engine.globalMax lane)).filter fun entry ↦
    !n.instances.contains (lane.ref entry.1)).map Prod.fst

/-! ### Dependencies of a command -/

/-- Whether a timed PreAccept leaves a conflicting instance out: a command of the same clock domain
that is only PreAccepted and is to be processed later. -/
def skipTimedConflict (n : RawNode) (cmd : Command) (candidate : InstanceRef) (processAt : ℕ)
    (timedPreAccept : Bool) (rec : InstanceRecord) : Bool :=
  if !timedPreAccept || cmd.footprint.all || rec.kind ≠ .command then false
  else
    let candidateDomain := if n.cfg.toqEnabled then TimingDomain.toq else TimingDomain.logical
    if rec.status ≠ .preAccepted || rec.timingDomain = .untimed ||
        rec.timingDomain ≠ candidateDomain then false
    else preAcceptOrderBefore processAt candidate rec.processAt rec.ref

/-- Whether a visited record becomes a dependency of the excluded candidate. -/
def addsDependency (n : RawNode) (cmd : Command) (exclude : InstanceRef) (processAt : ℕ)
    (timedPreAccept : Bool) (rec : InstanceRecord) : Bool :=
  if rec.ref = exclude || !recordConflictEligible rec then false
  else if !recordHasGlobalConflictScope rec && !cmd.footprint.all &&
      !footprintsConflict cmd.footprint rec.command.footprint then false
  else !n.skipTimedConflict cmd exclude processAt timedPreAccept rec

/-- The residents of a lane that the computation visits, and the instances it adds without a
record. -/
def visited (n : RawNode) (f : Footprint) (lane : InstanceLane) :
    List InstanceRecord × List InstanceNum :=
  let known := (n.engine.lanes lane.conf).contains lane
  let retired := n.retiredLane lane
  if f.all then if known then (n.eligibleRecords lane, [retired.eligibleAny]) else ([], [])
  else
    let own := (n.footprintVisits lane.conf f).filter fun visit ↦ visit.1 == lane
    let records := own.flatMap fun visit ↦ visit.2.2
    let floors := own.map fun visit ↦ visit.2.1
    if known then
      (records ++ n.globalRecords lane, floors ++ retired.globalMax :: n.globalAbsent lane)
    else (records, floors)

/-- The dependency on one lane. -/
def laneDependency (n : RawNode) (cmd : Command) (exclude : InstanceRef) (processAt : ℕ)
    (timedPreAccept : Bool) (lane : InstanceLane) : InstanceNum :=
  let (records, retired) := n.visited cmd.footprint lane
  let added := records.filter (n.addsDependency cmd exclude processAt timedPreAccept)
  maxInstance (retired ++ added.map fun rec ↦ rec.ref.inst)

def computeAttrsAt (n : RawNode) (cmd : Command) (exclude : InstanceRef) (processAt : ℕ)
    (timedPreAccept : Bool) : Attributes :=
  let voters := n.votersForConf exclude.conf
  let f := cmd.footprint
  if !f.all && f.points.isEmpty && f.spans.isEmpty then ⟨1, List.replicate voters.length 0⟩
  else
    let lanes := voters.map fun voter ↦ (⟨exclude.conf, voter⟩ : InstanceLane)
    let deps := lanes.map (n.laneDependency cmd exclude processAt timedPreAccept)
    let seqs := (lanes.zip deps).map fun entry ↦
      if entry.2 = 0 then 1 else saturatingSeqIncrement (n.prefixMaxSeq entry.1 entry.2)
    ⟨seqs.foldl max 1, deps⟩

def computeAttrs (n : RawNode) (cmd : Command) (exclude : InstanceRef) : Attributes :=
  n.computeAttrsAt cmd exclude 0 false

/-- The conflicting residents that only their later processing time leaves out. -/
def timedSkips (n : RawNode) (cmd : Command) (exclude : InstanceRef) (processAt : ℕ)
    (timedPreAccept : Bool) : List InstanceRef :=
  let lanes := (n.votersForConf exclude.conf).map fun voter ↦ (⟨exclude.conf, voter⟩ : InstanceLane)
  let records := lanes.flatMap fun lane ↦ (n.visited cmd.footprint lane).1
  (records.filter fun rec ↦ n.addsDependency cmd exclude processAt false rec &&
    n.skipTimedConflict cmd exclude processAt timedPreAccept rec).map InstanceRecord.ref

/-- Notes the residents that a computation of attributes skips. -/
def noteSkips (n : RawNode) (cmd : Command) (exclude : InstanceRef) (processAt : ℕ)
    (timedPreAccept : Bool) : RawNode :=
  (n.timedSkips cmd exclude processAt timedPreAccept).foldl
    (fun node conflict ↦ node.note (.skipped exclude conflict)) n

/-! ### Coverage -/

def attrsDependsOn (n : RawNode) (attrs : Attributes) (dep : InstanceRef) (conf : ConfID) : Bool :=
  if dep.conf ≠ conf || dep.replica = 0 then false
  else match (n.confFor conf).index dep.replica with
    | none => false
    | some idx => (attrs.deps[idx]?).elim false fun through ↦ decide (dep.inst ≤ through)

/-- Whether a known instance of higher sequence number lists the base among its dependencies, so
that it is executed after the base whether or not the base depends on it. -/
def dependencyKnownAfter (n : RawNode) (base other : InstanceRef) (minStatus : Status) : Bool :=
  if base.conf ≠ other.conf then false
  else match n.record? base, n.record? other with
    | some baseRec, some otherRec =>
      if otherRec.status < minStatus || otherRec.seq ≤ baseRec.seq then false
      else match (n.confFor base.conf).index base.replica with
        | none => false
        | some idx => (otherRec.deps[idx]?).elim false fun through ↦ decide (base.inst ≤ through)
    | _, _ => false

def committedPrefix (n : RawNode) (replica : ReplicaID) (through : InstanceNum) (conf : ConfID) :
    Bool :=
  through = 0 || decide (through ≤ (n.committedThrough.get? ⟨conf, replica⟩).getD 0)

/-- The voters whose lane is a nonzero dependency. -/
def dependencyMask (conf : ConfState) (deps : List InstanceNum) : List ReplicaID :=
  (conf.voters.zip deps).filterMap fun entry ↦ if entry.2 ≠ 0 then some entry.1 else none

/-- The voters whose nonzero dependency is committed here up to the dependency. -/
def committedDepsMask (n : RawNode) (attrs : Attributes) (conf : ConfID) : List ReplicaID :=
  ((n.votersForConf conf).zip attrs.deps).filterMap fun entry ↦
    if entry.2 ≠ 0 && n.committedPrefix entry.1 entry.2 conf then some entry.1 else none

/-! ### The fast path -/

def canFastCommitPreAccept (n : RawNode) (inst : Instance) (attrs : Attributes) : Bool :=
  let record := inst.record
  let conf := n.confFor record.ref.conf
  if !record.fastPathEligible || !record.ballot.isInitialFor record.ref.replica then false
  else if attrs ≠ record.attributes && !attrsCover record.attributes attrs then false
  else
    let votes := (VoteSet.each inst.preOK conf).filter fun vote ↦
      vote.1 != n.id && vote.2.attributes == attrs && vote.2.fastPathEligible
    let covered := n.committedDepsMask attrs conf.id ++
        votes.flatMap fun vote ↦ vote.2.depsCommitted
    decide (n.fastQuorumForConf record.ref.conf ≤ 1 + votes.length) &&
      (dependencyMask conf attrs.deps).all covered.contains

/-- The attributes the owner may commit on the fast path: its own, or those of a voter that cover
them. -/
def fastCommitAttrsPreAccept (n : RawNode) (inst : Instance) : Option Attributes :=
  let record := inst.record
  let conf := n.confFor record.ref.conf
  if n.canFastCommitPreAccept inst record.attributes then some record.attributes
  else if !record.ballot.isInitialFor record.ref.replica then none
  else
    let votes := (VoteSet.each inst.preOK conf).filter fun vote ↦ vote.1 != n.id
    (votes.map fun vote ↦ vote.2.attributes).find? fun attrs ↦
      attrs != record.attributes && attrsCover record.attributes attrs &&
        n.canFastCommitPreAccept inst attrs

/-! ### Conflicts of a TryPreAccept -/

/-- Whether the recorded Accept evidence of a committed record covers an instance; two different
reports of one sender make the evidence useless. -/
def recordAcceptEvidenceDependsOn (n : RawNode) (rec : InstanceRecord) (dep : InstanceRef) : Bool :=
  let named := rec.acceptEvidence.filter fun evidence ↦ evidence.sender != 0
  named.all (fun evidence ↦ named.all fun other ↦
      evidence.sender != other.sender || evidence == other) &&
    named.any fun evidence ↦ n.attrsDependsOn ⟨evidence.seq, evidence.deps⟩ dep rec.ref.conf

/-- The record a TryPreAccept proposes. -/
def tryCandidateRecord (m : Message) : InstanceRecord :=
  { ref := m.ref, seq := m.seq, deps := m.deps, kind := m.kind, command := m.command,
    confChange := m.confChange, protocolControl := m.protocolControl }

/-- Whether a resident record stands in the way of a TryPreAccept. -/
def considerRecord (n : RawNode) (m : Message) (other : InstanceRecord) : Bool :=
  let candidate := tryCandidateRecord m
  if other.ref = m.ref || other.status = .none || !recordsConflict candidate other then false
  else if n.attrsDependsOn other.attributes m.ref other.ref.conf then false
  else if !n.attrsDependsOn candidate.attributes other.ref m.ref.conf then true
  else if other.status ≥ .committed && m.ignoreDependency = other.ref then false
  else if other.status ≥ .committed && n.recordAcceptEvidenceDependsOn other m.ref then false
  else if other.status < .committed && other.acceptAttributes.elim false (fun attrs ↦
      n.attrsDependsOn attrs m.ref other.ref.conf) then false
  else
    let sameLeaderPreAccepted := other.ref.replica == m.ref.replica && other.status == .preAccepted
    decide (candidate.seq ≤ other.seq) && !sameLeaderPreAccepted

/-- The conflicts met in one lane: the folded instance first, then the visited residents. -/
def laneConflicts (n : RawNode) (m : Message) (lane : InstanceLane) (retired : InstanceNum)
    (records : List InstanceRecord) : List (InstanceRef × Status) :=
  let ref := lane.ref retired
  let folded :=
    if retired ≠ 0 && ref ≠ m.ref && !n.attrsDependsOn m.attributes ref m.ref.conf then
      [(ref, Status.executed)]
    else []
  folded ++ (records.filter (n.considerRecord m)).map fun rec ↦ (rec.ref, rec.status)

/-- The least conflicting instance with its status. -/
def tryPreAcceptConflict (n : RawNode) (m : Message) : Option (InstanceRef × Status) :=
  let candidate := tryCandidateRecord m
  let lanes := n.engine.lanes m.ref.conf
  let conflicts :=
    if candidate.kind = .noop then []
    else if recordHasGlobalConflictScope candidate then
      lanes.flatMap fun lane ↦
        n.laneConflicts m lane (n.retiredLane lane).eligibleAny (n.eligibleRecords lane)
    else
      let f := candidate.command.footprint
      ((n.footprintVisits m.ref.conf f).flatMap fun visit ↦
        n.laneConflicts m visit.1 visit.2.1 visit.2.2) ++
      lanes.flatMap fun lane ↦
        n.laneConflicts m lane (n.retiredLane lane).globalMax (n.globalRecords lane)
  conflicts.foldl (fun best conflict ↦ match best with
    | none => some conflict
    | some least => if conflict.1 < least.1 then some conflict else some least) none

/-- Attributes that also cover a conflicting instance. -/
def attrsWithConflictDependencySeq (n : RawNode) (attrs : Attributes) (dep : InstanceRef)
    (conflictSeq : ℕ) (conf : ConfID) : Attributes :=
  if dep.isZero || dep.conf ≠ conf then attrs
  else match (n.confFor conf).index dep.replica with
    | none => attrs
    | some idx =>
      let deps := padDeps (n.votersForConf conf).length attrs.deps
      let seq := if attrs.seq ≤ conflictSeq then (conflictSeq + 1) % 2 ^ 64 else attrs.seq
      ⟨if seq = 0 then 1 else seq, deps.modify idx fun through ↦ max through dep.inst⟩

/-- Attributes with a conflict added cover the given ones, their entry in the lane of the conflict
is at the conflict or later, and their sequence number is above that of the conflict, or the largest
when that is. -/
def Dominated (n : RawNode) (attrs : Attributes) (dep : InstanceRef) (conflictSeq : ℕ)
    (conf : ConfID) : Prop :=
  let result := n.attrsWithConflictDependencySeq attrs dep conflictSeq conf
  attrsCover attrs result = true ∧
    (∃ (idx : ℕ) (through : InstanceNum), (n.votersForConf conf)[idx]? = some dep.replica ∧
      result.deps[idx]? = some through ∧ dep.inst ≤ through) ∧
    if conflictSeq = maxUint64 then result.seq = maxUint64 else conflictSeq < result.seq

/-- Adding a conflict dominates exactly when the sequence number of the conflict has a successor:
that of the largest wraps around. Assumes: the conflict is a reference of the configuration, and
sequence numbers have 64 bits. -/
theorem attrsWithConflictDependencySeq_dominates (n : RawNode) (attrs : Attributes)
    (dep : InstanceRef) (conflictSeq : ℕ) (conf : ConfID) (hdep : dep.isZero = false)
    (hconf : dep.conf = conf) (hvoter : dep.replica ∈ n.votersForConf conf)
    (hattrs : attrs.seq ≤ maxUint64) (hconflict : conflictSeq ≤ maxUint64) :
    n.Dominated attrs dep conflictSeq conf ↔ conflictSeq < maxUint64 := by
  obtain ⟨idx, hidx⟩ : ∃ idx, (n.confFor conf).index dep.replica = some idx := by
    refine Option.isSome_iff_exists.mp (List.findIdx?_isSome.trans ?_)
    exact List.any_eq_true.mpr ⟨_, hvoter, beq_self_eq_true _⟩
  obtain ⟨hlt, hat, -⟩ := List.findIdx?_eq_some_iff_getElem.mp hidx
  have hlane : (n.votersForConf conf)[idx]? = some dep.replica := by
    rw [← beq_iff_eq.mp hat]
    exact List.getElem?_eq_getElem hlt
  have hresult : n.attrsWithConflictDependencySeq attrs dep conflictSeq conf =
      let seq := if attrs.seq ≤ conflictSeq then (conflictSeq + 1) % 2 ^ 64 else attrs.seq
      ⟨if seq = 0 then 1 else seq, (padDeps (n.votersForConf conf).length attrs.deps).modify idx
        fun through ↦ max through dep.inst⟩ := by
    simp [attrsWithConflictDependencySeq, hdep, hconf, hidx]
  rw [Dominated, hresult]
  dsimp only
  constructor
  · rintro ⟨-, -, habove⟩
    refine lt_of_le_of_ne hconflict fun hlast ↦ ?_
    rw [hlast, if_pos rfl, if_pos hattrs] at habove
    exact absurd habove (by decide)
  · intro hless
    have hwidth : idx < (padDeps (n.votersForConf conf).length attrs.deps).length := by
      have hvoters : idx < (n.votersForConf conf).length := hlt
      rw [padDeps, List.length_append, List.length_replicate]
      omega
    have hsucc : (conflictSeq + 1) % 2 ^ 64 = conflictSeq + 1 :=
      Nat.mod_eq_of_lt (by unfold maxUint64 at hless; omega)
    have hpos : (if attrs.seq ≤ conflictSeq then conflictSeq + 1 else attrs.seq) ≠ 0 := by
      split_ifs <;> omega
    rw [hsucc, if_neg hpos, if_neg hless.ne]
    refine ⟨?_, ⟨idx, max (padDeps (n.votersForConf conf).length attrs.deps)[idx] dep.inst, hlane,
      by simp [List.getElem?_eq_getElem hwidth], le_max_right _ _⟩, by split_ifs <;> omega⟩
    rw [attrsCover, Bool.and_eq_true, decide_eq_true_eq]
    exact ⟨by dsimp only; split_ifs <;> omega, depsCover_modify_max _ _ (depsCover_append _ _)⟩

/-- A node that knows one configuration of three voters. -/
def threeVoterNode : RawNode :=
  { id := 1, confHistory := FiniteMap.insert ∅ 1 threeReplicas }

/-- A conflict of the second voter is added to attributes. -/
theorem attrsWithConflictDependencySeq_dominates_second :
    threeVoterNode.Dominated ⟨5, [3, 0, 0]⟩ ⟨2, 4, 1⟩ 7 1 :=
  (attrsWithConflictDependencySeq_dominates threeVoterNode ⟨5, [3, 0, 0]⟩ ⟨2, 4, 1⟩ 7 1 (by decide)
    rfl (by decide) (by decide) (by decide)).mpr (by decide)

/-- The successor of the largest sequence number wraps around, and the result is below the given
attributes. -/
theorem attrsWithConflictDependencySeq_wraps :
    threeVoterNode.attrsWithConflictDependencySeq ⟨5, [3, 0, 0]⟩ ⟨2, 4, 1⟩ maxUint64 1 =
      ⟨1, [3, 4, 0]⟩ ∧ attrsCover ⟨5, [3, 0, 0]⟩ ⟨1, [3, 4, 0]⟩ = false := by
  decide

def attrsWithConflictDependency (n : RawNode) (attrs : Attributes) (dep : InstanceRef)
    (conf : ConfID) : Attributes :=
  let conflictSeq := match n.record? dep with
    | some rec => if rec.status ≠ .none && rec.kind ≠ .noop then rec.seq else 0
    | none => 0
  n.attrsWithConflictDependencySeq attrs dep conflictSeq conf

end RawNode

end MoreConsensus
