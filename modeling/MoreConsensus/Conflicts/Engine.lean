import MoreConsensus.Library.Intervals
import MoreConsensus.Library.Marks
import MoreConsensus.Library.Radix
import MoreConsensus.Types

/-!
# The conflict engine

The index of the resident instances that attributes and TryPreAccept conflicts are computed from
(`epaxos/conflict_engine.go`, `epaxos/interval_index.go`). Every lane has a tree of slots; every
resource, a point or a span of the keys of a configuration, has for every lane the tree of its
postings and the highest folded instance with the resource. The resources of a configuration are in
one interval tree, its points also in a map: the source shares pointers between the two, here the
map has the keys only. Trees are those of `Library.Radix` with 64 children; the source builds at
most eleven levels, enough for every `uint64`. What else is kept of folded instances is in
`RetiredLane`.
-/

set_option autoImplicit false

namespace MoreConsensus

open Library

/-! ### Keys and resources -/

instance instLinearOrderByte : LinearOrder UInt8 where
  le_refl := UInt8.le_refl
  le_trans _ _ _ := UInt8.le_trans
  le_antisymm _ _ := UInt8.le_antisymm
  le_total := UInt8.le_total
  lt_iff_le_not_ge _ _ := by rw [UInt8.not_le, and_iff_right_of_imp UInt8.le_of_lt]
  toDecidableLE := inferInstance
  toDecidableLT := inferInstance
  toDecidableEq := inferInstance

/-- The comparison of the source is the lexicographic order. -/
theorem bytesLess_eq (a b : Bytes) : bytesLess a b = decide (a < b) := by
  induction a generalizing b with
  | nil => cases b <;> simp [bytesLess]
  | cons x a ih =>
    cases b with
    | nil => simp [bytesLess]
    | cons y b =>
      rw [bytesLess, ih]
      split_ifs with hhead
      · simp [hhead]
      · simp [hhead, List.cons_lt_cons_iff]

/-- A point or a span of keys. -/
abbrev Resource := Extent Bytes

def footprintResources (f : Footprint) : List Resource :=
  f.points.map .point ++ f.spans.map fun span ↦ .span span.start span.stop

def recordConflictEligible (rec : InstanceRecord) : Bool :=
  rec.status != .none && !rec.toqPending && rec.kind != .noop

/-! ### Lane trees -/

/-- What a lane tree keeps of a record: its sequence number and the flags. -/
structure LaneSlot where
  seq : ℕ := 0
  statusNone : Bool := false
  toqPending : Bool := false
  noop : Bool := false
  globalScope : Bool := false
  executed : Bool := false
  deriving DecidableEq, Repr

def slotForRecord (rec : InstanceRecord) : LaneSlot :=
  { seq := rec.seq, statusNone := rec.status == .none, toqPending := rec.toqPending
    noop := rec.kind == .noop, globalScope := recordHasGlobalConflictScope rec
    executed := rec.status == .executed }

def LaneSlot.eligible (slot : LaneSlot) : Bool := !slot.statusNone && !slot.toqPending && !slot.noop

def LaneSlot.global (slot : LaneSlot) : Bool := slot.globalScope

@[simp] theorem eligible_slotForRecord (rec : InstanceRecord) :
    (slotForRecord rec).eligible = recordConflictEligible rec := rfl

@[simp] theorem global_slotForRecord (rec : InstanceRecord) :
    (slotForRecord rec).global = recordHasGlobalConflictScope rec := rfl

@[simp] theorem seq_slotForRecord (rec : InstanceRecord) : (slotForRecord rec).seq = rec.seq := rfl

/-- The aggregates of a node of a lane tree. -/
@[ext]
structure LaneSummary where
  count : ℕ := 0
  maxSeq : ℕ := 0
  maxEligibleAny : InstanceNum := 0
  globalMax : InstanceNum := 0
  deriving DecidableEq, Repr

namespace LaneSummary

instance : Zero LaneSummary := ⟨{}⟩

/-- Children are put together: their counts are added, of the rest the largest is kept. -/
instance : Add LaneSummary :=
  ⟨fun first second ↦
    { count := first.count + second.count
      maxSeq := max first.maxSeq second.maxSeq
      maxEligibleAny := max first.maxEligibleAny second.maxEligibleAny
      globalMax := max first.globalMax second.globalMax }⟩

instance : AddMonoid LaneSummary where
  add_assoc _ _ _ := LaneSummary.ext (Nat.add_assoc ..) (max_assoc ..) (max_assoc ..) (max_assoc ..)
  zero_add _ := LaneSummary.ext (Nat.zero_add _) (Nat.zero_max _) (Nat.zero_max _) (Nat.zero_max _)
  add_zero _ := LaneSummary.ext rfl (Nat.max_zero _) (Nat.max_zero _) (Nat.max_zero _)
  nsmul := nsmulRec

variable (first second : LaneSummary)

@[simp] theorem count_add : (first + second).count = first.count + second.count := rfl

@[simp] theorem maxSeq_add : (first + second).maxSeq = max first.maxSeq second.maxSeq := rfl

@[simp] theorem maxEligibleAny_add : (first + second).maxEligibleAny =
    max first.maxEligibleAny second.maxEligibleAny := rfl

@[simp] theorem globalMax_add : (first + second).globalMax =
    max first.globalMax second.globalMax := rfl

@[simp] theorem count_zero : (0 : LaneSummary).count = 0 := rfl

@[simp] theorem maxSeq_zero : (0 : LaneSummary).maxSeq = 0 := rfl

@[simp] theorem maxEligibleAny_zero : (0 : LaneSummary).maxEligibleAny = 0 := rfl

@[simp] theorem globalMax_zero : (0 : LaneSummary).globalMax = 0 := rfl

end LaneSummary

/-- What one slot adds to the aggregates: every slot is counted, only an eligible one weighs. -/
def laneMeasure : Measure LaneSlot LaneSummary where
  weigh num slot :=
    if !slot.eligible then { count := 1 }
    else { count := 1, maxSeq := slot.seq, maxEligibleAny := num
           globalMax := if slot.global then num else 0 }
  count := ⟨⟨LaneSummary.count, rfl⟩, fun _ _ ↦ rfl⟩
  count_weigh num slot := by
    change LaneSummary.count (ite _ _ _) = 1
    split_ifs <;> rfl

instance instNeZeroFanout : NeZero 64 := ⟨by decide⟩

abbrev LaneTree := RadixTree 64 LaneSlot LaneSummary

/-! ### Posting trees -/

/-- The aggregates of a node of a posting tree. -/
@[ext]
structure PostingSummary where
  count : ℕ := 0
  maximum : InstanceNum := 0
  deriving DecidableEq, Repr

namespace PostingSummary

instance : Zero PostingSummary := ⟨{}⟩

instance : Add PostingSummary :=
  ⟨fun first second ↦
    { count := first.count + second.count, maximum := max first.maximum second.maximum }⟩

instance : AddMonoid PostingSummary where
  add_assoc _ _ _ := PostingSummary.ext (Nat.add_assoc ..) (max_assoc ..)
  zero_add _ := PostingSummary.ext (Nat.zero_add _) (Nat.zero_max _)
  add_zero _ := PostingSummary.ext rfl (Nat.max_zero _)
  nsmul := nsmulRec

variable (first second : PostingSummary)

@[simp] theorem maximum_add : (first + second).maximum = max first.maximum second.maximum := rfl

@[simp] theorem maximum_zero : (0 : PostingSummary).maximum = 0 := rfl

end PostingSummary

def postingMeasure : Measure Unit PostingSummary where
  weigh num _ := { count := 1, maximum := num }
  count := ⟨⟨PostingSummary.count, rfl⟩, fun _ _ ↦ rfl⟩
  count_weigh _ _ := rfl

abbrev PostingSet := RadixTree 64 Unit PostingSummary

/-- The largest posting, zero for none. -/
def PostingSet.max (postings : PostingSet) : InstanceNum := (RadixTree.summary postings).maximum

/-- The postings of one resource in one lane, and the highest folded instance with the resource. -/
structure KeyLane where
  postings : PostingSet := {}
  retiredFloor : InstanceNum := 0

/-- An entry with one more posting. -/
def KeyLane.posting (inst : InstanceNum) (entry : KeyLane) : KeyLane :=
  { entry with postings := entry.postings.set postingMeasure inst () }

/-- An entry without one posting. -/
def KeyLane.without (entry : KeyLane) (inst : InstanceNum) : KeyLane :=
  { entry with postings := (entry.postings.remove postingMeasure inst).getD entry.postings }

/-- An entry whose floor is at least an instance. -/
def KeyLane.raise (inst : InstanceNum) (entry : KeyLane) : KeyLane :=
  { entry with retiredFloor := Nat.max entry.retiredFloor inst }

/-- What a resource entry has for every lane. -/
abbrev KeyLanes := FiniteMap InstanceLane KeyLane

/-! ### The engine -/

structure ConflictEngine where
  laneIndex : FiniteMap InstanceLane LaneTree := ∅
  points : FiniteMap ConfID (FiniteMap Bytes Unit) := ∅
  intervals : FiniteMap ConfID (IntervalMap Bytes KeyLanes) := ∅
  resident : ℕ := 0

namespace ConflictEngine

variable (e : ConflictEngine)

/-! ### Updates -/

/-- The resident slots of a lane. -/
def laneTree (lane : InstanceLane) : LaneTree := (e.laneIndex.get? lane).getD {}

def ensureLane (lane : InstanceLane) : ConflictEngine :=
  { e with laneIndex := e.laneIndex.insert lane (e.laneTree lane) }

def resources (conf : ConfID) : IntervalMap Bytes KeyLanes := (e.intervals.get? conf).getD ∅

def pointKeys (conf : ConfID) : FiniteMap Bytes Unit := (e.points.get? conf).getD ∅

/-- A change of what a resource has for a lane; the entry is made if there is none. -/
def ensureResource (conf : ConfID) (lane : InstanceLane) (f : KeyLane → KeyLane)
    (resource : Resource) : ConflictEngine :=
  let fresh := ((e.resources conf).find resource).isNone
  let intervals := (e.resources conf).update resource ∅ fun lanes ↦
    lanes.insert lane (f ((lanes.get? lane).getD {}))
  { e with
    intervals := e.intervals.insert conf intervals
    points := if fresh && resource.isPoint then
        e.points.insert conf ((e.pointKeys conf).insert resource.start ())
      else e.points }

/-- Whether a resource entry has nothing for any lane. -/
def resourceEntryEmpty (lanes : KeyLanes) : Bool :=
  lanes.entries.all fun entry ↦ entry.2.postings.root.isNone && entry.2.retiredFloor == 0

/-- Takes a resource out of the tree and the map of points. -/
def deleteResource (conf : ConfID) (resource : Resource) : ConflictEngine :=
  let intervals := (e.resources conf).erase resource
  let keys := (e.pointKeys conf).erase resource.start
  { e with
    intervals := if intervals.isEmpty then e.intervals.erase conf
      else e.intervals.insert conf intervals
    points := if !resource.isPoint then e.points
      else if keys.entries.isEmpty then e.points.erase conf
      else e.points.insert conf keys }

/-- What a resource has for the lanes once one posting of a lane is gone. -/
def withoutPosting (lanes : KeyLanes) (lane : InstanceLane) (inst : InstanceNum)
    (entry : KeyLane) : KeyLanes :=
  let rest := entry.without inst
  if rest.postings.root.isNone && rest.retiredFloor == 0 then lanes.erase lane
  else lanes.insert lane rest

/-- Sets what a resource has for the lanes; a resource that has nothing goes. -/
def setResource (conf : ConfID) (resource : Resource) (lanes : KeyLanes) : ConflictEngine :=
  if resourceEntryEmpty lanes then e.deleteResource conf resource
  else { e with intervals :=
    e.intervals.insert conf ((e.resources conf).update resource ∅ fun _ ↦ lanes) }

def removeResourcePosting (conf : ConfID) (lane : InstanceLane) (inst : InstanceNum)
    (resource : Resource) : ConflictEngine :=
  match (e.resources conf).find resource with
  | none => e
  | some lanes =>
    match lanes.get? lane with
    | none => e
    | some entry => e.setResource conf resource (withoutPosting lanes lane inst entry)

/-- Takes a record out of the index, if its slot is there. -/
def remove (ref : InstanceRef) (rec : InstanceRecord) : ConflictEngine :=
  match (e.laneTree (laneFor ref)).remove laneMeasure ref.inst with
  | none => e
  | some tree =>
    let e := { e with laneIndex := e.laneIndex.insert (laneFor ref) tree
                      resident := e.resident - 1 }
    if !recordConflictEligible rec || recordHasGlobalConflictScope rec then e
    else (footprintResources rec.command.footprint).foldl
      (fun e resource ↦ e.removeResourcePosting ref.conf (laneFor ref) ref.inst resource) e

/-- Puts the postings of a record under its resources. -/
def post (rec : InstanceRecord) : ConflictEngine :=
  if !recordConflictEligible rec || recordHasGlobalConflictScope rec then e
  else (footprintResources rec.command.footprint).foldl
    (fun e resource ↦ e.ensureResource rec.ref.conf (laneFor rec.ref)
      (KeyLane.posting rec.ref.inst) resource) e

/-- Indexes a record in place of the one that was resident. -/
def apply (prev : Option InstanceRecord) (rec : InstanceRecord) : ConflictEngine :=
  let e := prev.elim e fun prev ↦ e.remove prev.ref prev
  let lane := laneFor rec.ref
  let existed := ((e.laneTree lane).get? rec.ref.inst).isSome
  let tree := (e.laneTree lane).set laneMeasure rec.ref.inst (slotForRecord rec)
  { e with laneIndex := e.laneIndex.insert lane tree
           resident := if existed then e.resident else e.resident + 1 }.post rec

/-- Takes a folded record out; above the watermark of its lane it raises the floors of its
resources. -/
def foldRecord (folded : InstanceNum) (rec : InstanceRecord) : ConflictEngine :=
  let e := (e.ensureLane (laneFor rec.ref)).remove rec.ref rec
  if rec.ref.inst ≤ folded || !recordConflictEligible rec || recordHasGlobalConflictScope rec then e
  else (footprintResources rec.command.footprint).foldl
    (fun e resource ↦ e.ensureResource rec.ref.conf (laneFor rec.ref)
      (KeyLane.raise rec.ref.inst) resource) e

/-! ### Queries -/

def residentCount : ℕ := e.resident

/-- The largest sequence number of the eligible residents at or below an instance. -/
def prefixMaxSeq (lane : InstanceLane) (through : InstanceNum) : ℕ :=
  ((e.laneTree lane).prefixSummary laneMeasure through).maxSeq

def walkDesc (lane : InstanceLane) (start : InstanceNum) : List (InstanceNum × LaneSlot) :=
  (e.laneTree lane).walkDesc start

/-- The resources that a footprint touches, in the order in which the queries find them. -/
def footprintQueries (conf : ConfID) (f : Footprint) : List Resource :=
  let ofPoint := fun key ↦
    (if (e.pointKeys conf).contains key then [Extent.point key] else []) ++
      ((e.resources conf).queryContaining key).map Prod.fst
  let ofSpan := fun (span : Span) ↦
    ((e.resources conf).queryOverlap span.start span.stop).map Prod.fst
  f.points.flatMap ofPoint ++ f.spans.flatMap ofSpan

/-- Passes each resource that a footprint touches to `yield`, with what it has for the lanes. The
resources that were passed stand in the one scratch set of the engine: a walk that `yield` makes on
the way clears it and leaves its own resources there. -/
def eachFootprintResource {σ : Type} (conf : ConfID) (f : Footprint)
    (yield : KeyLanes → σ × List Resource → σ × List Resource) (start : σ) : σ × List Resource :=
  eachOnce (e.footprintQueries conf f) (fun resource state ↦
    ((e.resources conf).find resource).elim state fun lanes ↦ yield lanes state) start

/-- The largest posting of the touched resources and their highest floor, and the scratch set. -/
def footprintMax (conf : ConfID) (f : Footprint) (lane : InstanceLane) :
    (InstanceNum × InstanceNum) × List Resource :=
  e.eachFootprintResource conf f (fun lanes state ↦ ((lanes.get? lane).elim state.1 fun entry ↦
    (max state.1.1 entry.postings.max, max state.1.2 entry.retiredFloor), state.2)) (0, 0)

/-- The postings of one tree from a start down. The walk is limited whatever the height of the tree
is, and the tree looks at its own digits of the start only. -/
def walkPostings (start : InstanceNum) (entry : KeyLane) : List InstanceNum :=
  let limit := if start = 0 then entry.postings.max else start
  entry.postings.root.elim [] fun root ↦
    (Radix.walkDesc root.1 root.2 0 limit true).map Prod.fst

/-- The residents of a lane that the postings of the touched resources name, each once, and the
scratch set. -/
def walkFootprintDesc (conf : ConfID) (f : Footprint) (lane : InstanceLane) (start : InstanceNum) :
    List (InstanceNum × LaneSlot) × List Resource :=
  let walk := e.eachFootprintResource conf f (fun lanes state ↦
    ((lanes.get? lane).elim state.1 fun entry ↦ state.1 ++ walkPostings start entry, state.2)) []
  (walk.1.dedup.filterMap fun inst ↦ ((e.laneTree lane).get? inst).map fun slot ↦ (inst, slot),
    walk.2)

/-- The eligible residents of a lane with global scope. -/
def walkGlobalDesc (lane : InstanceLane) (start : InstanceNum) : List (InstanceNum × LaneSlot) :=
  if start = 0 then []
  else (e.laneTree lane).walkPruned (fun summary ↦ summary.globalMax != 0)
    (fun slot ↦ slot.global && slot.eligible) start

/-- The lanes of a configuration that the engine knows. -/
def lanes (conf : ConfID) : List InstanceLane :=
  e.laneIndex.keys.filter fun lane ↦ lane.conf == conf

/-- Passes each lane that the resources touched by a footprint have something for to `yield`, with
the scratch set. -/
def footprintLaneSet {σ : Type} (conf : ConfID) (f : Footprint)
    (yield : InstanceLane → σ × List Resource → σ × List Resource) (start : σ) : σ :=
  if f.all then ((e.lanes conf).foldl (fun state lane ↦ yield lane state) (start, [])).1
  else
    let walk := e.eachFootprintResource conf f (fun lanes state ↦
      lanes.keys.foldl (fun state lane ↦
        if lane ∈ state.1.2 then state
        else
          let next := yield lane (state.1.1, state.2)
          ((next.1, lane :: state.1.2), next.2)) state) (start, [])
    walk.1.1

/-- The largest eligible resident of a lane. -/
def maxEligibleAny (lane : InstanceLane) : InstanceNum := (e.laneTree lane).summary.maxEligibleAny

/-- The largest eligible resident of a lane with global scope. -/
def globalMax (lane : InstanceLane) : InstanceNum := (e.laneTree lane).summary.globalMax

end ConflictEngine

end MoreConsensus
