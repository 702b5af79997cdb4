import MoreConsensus.Conflicts.Index

/-!
# What the engine answers

The queries of the engine, described by the slots and postings it holds. Walks over a lane tree pass
exactly the slots of their sort (`Sound.mem_walkEligible`, `Sound.mem_walkGlobalDesc`), since the
aggregates they start from bound every slot. The queries of a footprint find exactly the resources
it touches (`mem_footprintQueries`), and footprints conflict when one touches a resource of the
other (`footprintsConflict_iff`). The walk over the postings of a footprint looks in each tree at
the digits of its start that the tree has (`mem_walkPostings`, `Sound.mem_walkFootprintDesc`). A
walk over the lanes of a footprint that makes such walks on its way does not come further than the
lanes of the first resource (`footprintLaneSet_of_nested`).
-/

set_option autoImplicit false

namespace MoreConsensus

open Library

/-! ### Aggregates that are maxima -/

/-- An aggregate that is a maximum is bounded when its parts are. -/
theorem top_sum_le_iff {α A : Type} [AddMonoid A] (weigh : α → A) {top : A → ℕ} (hzero : top 0 = 0)
    (htop : ∀ first second, top (first + second) = max (top first) (top second))
    (entries : List α) (limit : ℕ) :
    top (entries.map weigh).sum ≤ limit ↔ ∀ entry ∈ entries, top (weigh entry) ≤ limit := by
  induction entries with
  | nil => simp [hzero]
  | cons entry entries ih =>
    rw [List.map_cons, List.sum_cons, htop, max_le_iff, ih, List.forall_mem_cons]

theorem weigh_eq (num : InstanceNum) {slot : LaneSlot} (heligible : slot.eligible = true) :
    laneMeasure.weigh num slot =
      { count := 1, maxSeq := slot.seq, maxEligibleAny := num
        globalMax := if slot.global then num else 0 } :=
  if_neg (by simp [heligible])

/-- A node with an eligible slot of global scope has a global maximum that is not zero, unless the
slot is under zero. -/
theorem globalMax_ne_zero : laneMeasure.Shows (fun summary ↦ summary.globalMax != 0)
    fun slot ↦ slot.global && slot.eligible := by
  intro slots entry hentry hnamed hkeep
  obtain ⟨hglobal, heligible⟩ := Bool.and_eq_true_iff.mp hkeep
  have htop := (top_sum_le_iff (fun entry ↦ laneMeasure.weigh entry.1 entry.2) rfl
    LaneSummary.globalMax_add _ _).mp le_rfl _ hentry
  rw [weigh_eq _ heligible, if_pos hglobal] at htop
  exact bne_iff_ne.mpr (ne_of_gt ((Nat.pos_of_ne_zero hnamed).trans_le htop))

theorem PostingSet.max_le_iff {postings : PostingSet}
    (hsound : RadixTree.Sound postingMeasure postings) {limit : InstanceNum} :
    postings.max ≤ limit ↔ ∀ inst, RadixTree.get? postings inst = some () → inst ≤ limit := by
  rw [PostingSet.max, hsound.summary_eq, top_sum_le_iff _ rfl PostingSummary.maximum_add]
  refine ⟨fun hall inst hget ↦ hall _ ((RadixTree.mem_entries one_lt_fanout).mpr hget), ?_⟩
  rintro hall ⟨inst, ⟨⟩⟩ hentry
  exact hall inst ((RadixTree.mem_entries one_lt_fanout).mp hentry)

namespace ConflictEngine

variable {e : ConflictEngine} {lane : InstanceLane} {inst : InstanceNum} {slot : LaneSlot}

/-- The aggregates of a lane bound its eligible slots. -/
theorem Sound.bounds (hsound : e.Sound) (hget : (e.laneTree lane).get? inst = some slot)
    (heligible : slot.eligible = true) :
    inst ≤ e.maxEligibleAny lane ∧ (slot.global = true → inst ≤ e.globalMax lane) := by
  have hmem := (RadixTree.mem_entries one_lt_fanout).mpr hget
  rw [maxEligibleAny, globalMax, (hsound.lanes lane).summary_eq]
  refine ⟨?_, fun hglobal ↦ ?_⟩
  · have htop := (top_sum_le_iff (fun entry ↦ laneMeasure.weigh entry.1 entry.2) rfl
      LaneSummary.maxEligibleAny_add _ _).mp le_rfl _ hmem
    rwa [weigh_eq _ heligible] at htop
  · have htop := (top_sum_le_iff (fun entry ↦ laneMeasure.weigh entry.1 entry.2) rfl
      LaneSummary.globalMax_add _ _).mp le_rfl _ hmem
    rwa [weigh_eq _ heligible, if_pos hglobal] at htop

theorem Sound.le_prefixMaxSeq (hsound : e.Sound) (hget : (e.laneTree lane).get? inst = some slot)
    (heligible : slot.eligible = true) {through : InstanceNum} (hle : inst ≤ through) :
    slot.seq ≤ e.prefixMaxSeq lane through := by
  have hmem := (RadixTree.mem_entries one_lt_fanout).mpr hget
  have hweigh : (laneMeasure.weigh inst slot).maxSeq = slot.seq :=
    congrArg LaneSummary.maxSeq (weigh_eq inst heligible)
  rw [prefixMaxSeq, (hsound.lanes lane).prefixSummary_eq one_lt_fanout, ← hweigh]
  refine (top_sum_le_iff (fun entry ↦ laneMeasure.weigh entry.1 entry.2) rfl
    LaneSummary.maxSeq_add _ _).mp le_rfl _ (List.mem_filter.mpr ⟨hmem, ?_⟩)
  exact decide_eq_true hle

/-! ### Walks over a lane -/

/-- A walk from the largest eligible slot passes every eligible slot. -/
theorem Sound.mem_walkEligible (hsound : e.Sound) :
    (inst, slot) ∈ (e.walkDesc lane (e.maxEligibleAny lane)).filter (fun entry ↦ entry.2.eligible) ↔
      (e.laneTree lane).get? inst = some slot ∧ slot.eligible = true := by
  rw [List.mem_filter, walkDesc, RadixTree.mem_walkDesc one_lt_fanout, and_assoc]
  refine and_congr_right fun hget ↦ and_iff_right_of_imp fun heligible ↦ ?_
  exact (hsound.bounds hget heligible).1

/-- The walk over the slots of global scope passes every one that is eligible. Assumes: no slot of
the lane is under the number zero, which the aggregates use for none. -/
theorem Sound.mem_walkGlobalDesc (hsound : e.Sound)
    (hnamed : ∀ num slot, (e.laneTree lane).get? num = some slot → num ≠ 0) :
    (inst, slot) ∈ e.walkGlobalDesc lane (e.globalMax lane) ↔
      (e.laneTree lane).get? inst = some slot ∧ slot.global = true ∧ slot.eligible = true := by
  have hbound : (e.laneTree lane).get? inst = some slot → slot.global = true →
      slot.eligible = true → inst ≤ e.globalMax lane := fun hget hglobal heligible ↦
    (hsound.bounds hget heligible).2 hglobal
  rw [walkGlobalDesc]
  split_ifs with hzero
  · -- a slot of global scope would be under zero
    refine iff_of_false (by simp) ?_
    rintro ⟨hget, hglobal, heligible⟩
    refine hnamed inst slot hget ?_
    exact Nat.le_zero.mp (hzero ▸ hbound hget hglobal heligible)
  rw [(hsound.lanes lane).mem_walkPruned one_lt_fanout globalMax_ne_zero
    fun num slot hget _ ↦ hnamed num slot hget, Bool.and_eq_true, and_assoc]
  refine and_congr_right fun hget ↦ and_congr_right fun hglobal ↦ ?_
  exact and_iff_left_of_imp fun heligible ↦ hbound hget hglobal heligible

end ConflictEngine

/-! ### Resources of a footprint -/

/-- Whether a footprint touches a resource: it has the point, a point of the span, or a span that
overlaps it. -/
def Footprint.Touches (f : Footprint) (resource : Resource) : Prop :=
  (∃ key ∈ f.points, resource = .point key ∨ resource.covers key = true) ∨
    ∃ span ∈ f.spans, resource.overlaps span.start span.stop = true

instance (f : Footprint) (resource : Resource) : Decidable (f.Touches resource) :=
  inferInstanceAs (Decidable ((∃ key ∈ f.points, _) ∨ ∃ span ∈ f.spans, _))

theorem Span.covers_eq (span : Span) (point : Bytes) :
    span.covers point = (decide (span.start ≤ point) && decide (point < span.stop)) := by
  simp only [Span.covers, bytesLess_eq, ← decide_not, not_lt]

/-- Footprints conflict when one of them touches a resource of the other. Assumes: both name their
resources. -/
theorem footprintsConflict_iff {f other : Footprint} (hf : f.all = false)
    (hother : other.all = false) :
    footprintsConflict f other = true ↔
      ∃ resource ∈ footprintResources other, f.Touches resource := by
  simp only [footprintsConflict, hf, hother, Bool.false_or, Bool.or_eq_true, List.any_eq_true,
    footprintResources, List.mem_append, List.mem_map, Footprint.Touches, Span.covers_eq,
    bytesLess_eq, List.contains_iff_mem, Bool.and_eq_true, decide_eq_true_eq]
  constructor
  · rintro ((⟨point, hpoint, hmem | ⟨span, hspan, hcovers⟩⟩ |
      ⟨point, hpoint, span, hspan, hcovers⟩) |
      ⟨first, hfirst, second, hsecond, hoverlap⟩)
    · exact ⟨_, .inl ⟨point, hmem, rfl⟩, .inl ⟨point, hpoint, .inl rfl⟩⟩
    · exact ⟨_, .inr ⟨span, hspan, rfl⟩, .inl ⟨point, hpoint, .inr (by simpa [Extent.covers])⟩⟩
    · exact ⟨_, .inl ⟨point, hpoint, rfl⟩, .inr ⟨span, hspan, by simpa [Extent.overlaps]⟩⟩
    · exact ⟨_, .inr ⟨second, hsecond, rfl⟩, .inr ⟨first, hfirst, by
        simpa [Extent.overlaps] using hoverlap.symm⟩⟩
  · rintro ⟨_, ⟨point, hpoint, rfl⟩ | ⟨span, hspan, rfl⟩,
      ⟨key, hkey, hsame | hcovers⟩ | ⟨first, hfirst, hoverlap⟩⟩
    · obtain rfl := Extent.point.inj hsame
      exact .inl (.inl ⟨point, hkey, .inl hpoint⟩)
    · simp [Extent.covers] at hcovers
    · exact .inl (.inr ⟨point, hpoint, first, hfirst, by simpa [Extent.overlaps] using hoverlap⟩)
    · exact absurd hsame (by simp)
    · exact .inl (.inl ⟨key, hkey, .inr ⟨span, hspan, by simpa [Extent.covers] using hcovers⟩⟩)
    · have hboth : span.start < first.stop ∧ first.start < span.stop := by
        simpa [Extent.overlaps] using hoverlap
      exact .inr ⟨first, hfirst, span, hspan, hboth.symm⟩

namespace ConflictEngine

variable {e : ConflictEngine} {conf : ConfID} {f : Footprint} {lane : InstanceLane}
  {inst : InstanceNum} {slot : LaneSlot}

variable {resource : Resource} {entry : KeyLane} {start : InstanceNum}

/-- The queries of a footprint find the resources that it touches. -/
theorem mem_footprintQueries (hknown : e.PointsKnown) :
    resource ∈ e.footprintQueries conf f ↔
      f.Touches resource ∧ ∃ lanes, (e.resources conf).find resource = some lanes := by
  have hofPoint : ∀ key, resource ∈ (if (e.pointKeys conf).contains key then [Extent.point key]
      else []) ++ ((e.resources conf).queryContaining key).map Prod.fst ↔
        (resource = .point key ∨ resource.covers key = true) ∧
          ∃ lanes, (e.resources conf).find resource = some lanes := fun key ↦ by
    have hpoint : resource ∈ (if (e.pointKeys conf).contains key then [Extent.point key] else []) ↔
        resource = .point key ∧ ∃ lanes, (e.resources conf).find resource = some lanes := by
      rw [hknown conf key, List.mem_ite_nil_right, List.mem_singleton, and_comm]
      refine and_congr_right fun heq ↦ ?_
      rw [heq, Option.isSome_iff_exists]
    rw [List.mem_append, hpoint, or_and_right]
    simp [IntervalMap.mem_queryContaining, and_comm]
  have hofSpan : ∀ span : Span,
      resource ∈ ((e.resources conf).queryOverlap span.start span.stop).map Prod.fst ↔
        resource.overlaps span.start span.stop = true ∧
          ∃ lanes, (e.resources conf).find resource = some lanes := by
    simp [IntervalMap.mem_queryOverlap, and_comm]
  rw [footprintQueries, List.mem_append, List.mem_flatMap, List.mem_flatMap]
  simp only [hofPoint, hofSpan, ← and_assoc, exists_and_right, Footprint.Touches]
  exact or_and_right.symm

/-- What the touched resources have for one lane. -/
def footprintEntries (e : ConflictEngine) (conf : ConfID) (f : Footprint) (lane : InstanceLane) :
    List KeyLane :=
  (e.footprintQueries conf f).reverse.dedup.reverse.filterMap fun resource ↦
    ((e.resources conf).find resource).bind fun lanes ↦ lanes.get? lane

theorem mem_footprintEntries (hknown : e.PointsKnown) :
    entry ∈ e.footprintEntries conf f lane ↔ ∃ resource, f.Touches resource ∧
      ((e.resources conf).find resource).bind (fun lanes ↦ lanes.get? lane) = some entry := by
  simp only [footprintEntries, List.mem_filterMap, List.mem_reverse, List.mem_dedup,
    mem_footprintQueries hknown]
  refine exists_congr fun resource ↦ and_congr_left fun hfound ↦ and_iff_left ?_
  obtain ⟨lanes, hfind, -⟩ := Option.bind_eq_some_iff.mp hfound
  exact ⟨lanes, hfind⟩

/-- A walk that is alone sees the entries of a lane under the touched resources, and leaves all of
these in the scratch set. -/
theorem eachFootprintResource_eq {σ : Type} (visit : σ → KeyLane → σ) (start : σ) :
    let walk := e.eachFootprintResource conf f (fun lanes state ↦
      ((lanes.get? lane).elim state.1 (visit state.1), state.2)) start
    walk.1 = (e.footprintEntries conf f lane).foldl visit start ∧
      ∀ resource, resource ∈ walk.2 ↔ resource ∈ e.footprintQueries conf f := by
  have hyield : ∀ (resource : Resource) (state : σ × List Resource),
      (((e.resources conf).find resource).elim state fun lanes ↦
        ((lanes.get? lane).elim state.1 (visit state.1), state.2)) =
      ((((e.resources conf).find resource).bind fun lanes ↦ lanes.get? lane).elim state.1
        (visit state.1), state.2) := by
    intro resource state
    cases (e.resources conf).find resource with
    | none => rfl
    | some lanes => rfl
  obtain ⟨hstate, hmarks⟩ := @eachOnce_of_kept _ _ _ _ (fun s resource ↦
    (((e.resources conf).find resource).bind fun lanes ↦ lanes.get? lane).elim s (visit s))
    hyield (e.footprintQueries conf f) start
  refine ⟨hstate.trans ?_, hmarks⟩
  rw [footprintEntries, List.foldl_filterMap]
  congr 1
  funext s resource
  cases ((e.resources conf).find resource).bind fun lanes ↦ lanes.get? lane <;> rfl

theorem footprintMax_eq : (e.footprintMax conf f lane).1 =
    (e.footprintEntries conf f lane).foldl (fun best entry ↦
      (max best.1 entry.postings.max, max best.2 entry.retiredFloor)) (0, 0) :=
  (eachFootprintResource_eq (fun (best : InstanceNum × InstanceNum) entry ↦
    (max best.1 entry.postings.max, max best.2 entry.retiredFloor)) (0, 0)).1

theorem walkFootprintDesc_eq : (e.walkFootprintDesc conf f lane start).1 =
    ((e.footprintEntries conf f lane).flatMap (walkPostings start)).dedup.filterMap fun inst ↦
      ((e.laneTree lane).get? inst).map fun slot ↦ (inst, slot) := by
  rw [List.flatMap_eq_foldl, walkFootprintDesc]
  dsimp only
  rw [(eachFootprintResource_eq (fun seen entry ↦ seen ++ walkPostings start entry) []).1]

theorem keyLane_eq (hfound : ((e.resources conf).find resource).bind (fun lanes ↦ lanes.get? lane) =
    some entry) : e.keyLane conf resource lane = entry := by
  rw [keyLane, hfound, Option.getD_some]

/-- A posting is in an entry. -/
theorem exists_posted (hposted : e.Posted conf resource lane inst) :
    ∃ entry, ((e.resources conf).find resource).bind (fun lanes ↦ lanes.get? lane) = some entry ∧
      entry.postings.get? inst = some () := by
  unfold Posted keyLane at hposted
  cases hentry : ((e.resources conf).find resource).bind fun lanes ↦ lanes.get? lane with
  | none =>
    rw [hentry] at hposted
    simp [RadixTree.get?] at hposted
  | some entry =>
    rw [hentry] at hposted
    exact ⟨entry, rfl, hposted⟩

/-- The maxima of a footprint are bounded when the postings and floors of its entries are. -/
theorem footprintMax_le_iff {limit : InstanceNum} :
    ((e.footprintMax conf f lane).1.1 ≤ limit ↔
        ∀ entry ∈ e.footprintEntries conf f lane, entry.postings.max ≤ limit) ∧
      ((e.footprintMax conf f lane).1.2 ≤ limit ↔
        ∀ entry ∈ e.footprintEntries conf f lane, entry.retiredFloor ≤ limit) := by
  have hfold : ∀ (entries : List KeyLane) (best : InstanceNum × InstanceNum),
      let top := entries.foldl (fun best entry ↦
        (max best.1 entry.postings.max, max best.2 entry.retiredFloor)) best
      (top.1 ≤ limit ↔ best.1 ≤ limit ∧ ∀ entry ∈ entries, entry.postings.max ≤ limit) ∧
        (top.2 ≤ limit ↔ best.2 ≤ limit ∧ ∀ entry ∈ entries, entry.retiredFloor ≤ limit) := by
    intro entries
    induction entries with
    | nil => simp
    | cons entry entries ih =>
      intro best
      obtain ⟨hfirst, hsecond⟩ := ih (max best.1 entry.postings.max, max best.2 entry.retiredFloor)
      simp only [List.foldl_cons, hfirst, hsecond, max_le_iff, List.forall_mem_cons, and_assoc,
        and_self]
  rw [footprintMax_eq]
  refine (hfold _ (0, 0)).imp (fun h ↦ h.trans ?_) fun h ↦ h.trans ?_
  · exact and_iff_right (Nat.zero_le _)
  · exact and_iff_right (Nat.zero_le _)

/-! ### The walk over the postings of a footprint -/

/-- A walk passes the postings up to the digits of its start that the tree has, and from zero those
up to the largest. -/
theorem mem_walkPostings :
    inst ∈ walkPostings start entry ↔ entry.postings.get? inst = some () ∧
      ∃ root ∈ entry.postings.root,
        inst ≤ (if start = 0 then entry.postings.max else start) % 64 ^ (root.1 + 1) := by
  rw [← RadixTree.mem_entries one_lt_fanout]
  unfold walkPostings RadixTree.entries
  cases entry.postings.root with
  | none => simp
  | some root =>
    simp only [Option.elim_some, Radix.walkDesc_eq, List.map_reverse, List.mem_reverse,
      List.mem_map,
      List.mem_filter, Radix.upTo, Bool.not_true, Bool.false_or, decide_eq_true_eq, Nat.zero_add,
      Option.mem_def, Option.some.injEq, exists_eq_left']
    constructor
    · rintro ⟨⟨num, ⟨⟩⟩, hmem, rfl⟩
      exact hmem
    · exact fun hmem ↦ ⟨(inst, ()), hmem, rfl⟩

/-- A lane with a slot is known. -/
theorem mem_lanes (hget : (e.laneTree lane).get? inst = some slot) (hconf : lane.conf = conf) :
    lane ∈ e.lanes conf := by
  rw [lanes, List.mem_filter, FiniteMap.mem_keys]
  refine ⟨?_, beq_iff_eq.mpr hconf⟩
  unfold laneTree at hget
  cases htree : e.laneIndex.get? lane with
  | none =>
    rw [htree] at hget
    simp [RadixTree.get?] at hget
  | some tree => exact ⟨tree, rfl⟩

/-- The walk of a footprint passes the slots with a posting under a touched resource whose tree has
enough digits for it. -/
theorem Sound.mem_walkFootprintDesc (hsound : e.Sound) :
    (inst, slot) ∈ (e.walkFootprintDesc conf f lane start).1 ↔
      (e.laneTree lane).get? inst = some slot ∧
        ∃ resource, f.Touches resource ∧
          inst ∈ walkPostings start (e.keyLane conf resource lane) := by
  simp only [walkFootprintDesc_eq, List.mem_filterMap, List.mem_dedup, List.mem_flatMap,
    Option.map_eq_some_iff, Prod.mk.injEq]
  constructor
  · rintro ⟨_, ⟨entry, hentry, hmem⟩, _, hget, rfl, rfl⟩
    obtain ⟨resource, htouches, hfound⟩ := (mem_footprintEntries hsound.points).mp hentry
    exact ⟨hget, resource, htouches, (keyLane_eq hfound).symm ▸ hmem⟩
  · rintro ⟨hget, resource, htouches, hmem⟩
    obtain ⟨entry, hfound, -⟩ := exists_posted (mem_walkPostings.mp hmem).1
    have hentry := (mem_footprintEntries hsound.points).mpr ⟨resource, htouches, hfound⟩
    exact ⟨inst, ⟨entry, hentry, keyLane_eq hfound ▸ hmem⟩, slot, hget, rfl, rfl⟩

/-! ### Walks inside the walk over the lanes -/

/-- What the first touched resource that has any lane has for the lanes. -/
def entrance (e : ConflictEngine) (conf : ConfID) (f : Footprint) : KeyLanes :=
  (((e.footprintQueries conf f).filterMap (e.resources conf).find).find? fun lanes ↦
    !lanes.keys.isEmpty).getD ∅

section

variable {σ : Type} {yield : InstanceLane → σ × List Resource → σ × List Resource}
  {visit : σ → InstanceLane → σ} (hyield : ∀ lane state, (yield lane state).1 = visit state.1 lane ∧
    ∀ resource ∈ e.footprintQueries conf f, resource ∈ (yield lane state).2)

include hyield

/-- The lanes of one resource are all visited, and leave every touched resource in the scratch
set. -/
theorem foldl_lanes {lanes : List InstanceLane} (hnodup : lanes.Nodup)
    (state : (σ × List InstanceLane) × List Resource) (hnew : ∀ lane ∈ lanes, lane ∉ state.1.2)
    (hmarks : lanes = [] → ∀ resource ∈ e.footprintQueries conf f, resource ∈ state.2) :
    let after := lanes.foldl (fun state lane ↦
      if lane ∈ state.1.2 then state
      else
        let next := yield lane (state.1.1, state.2)
        ((next.1, lane :: state.1.2), next.2)) state
    after.1.1 = lanes.foldl visit state.1.1 ∧
      ∀ resource ∈ e.footprintQueries conf f, resource ∈ after.2 := by
  induction lanes generalizing state with
  | nil => exact ⟨rfl, hmarks rfl⟩
  | cons lane lanes ih =>
    obtain ⟨hother, hnodup⟩ := List.nodup_cons.mp hnodup
    obtain ⟨hlane, hnew⟩ := List.forall_mem_cons.mp hnew
    obtain ⟨hvisit, hfull⟩ := hyield lane (state.1.1, state.2)
    rw [List.foldl_cons, List.foldl_cons, if_neg hlane, ← hvisit]
    refine ih hnodup _ (fun later hlater ↦ ?_) fun _ ↦ hfull
    rw [List.mem_cons, not_or]
    exact ⟨fun heq ↦ hother (heq ▸ hlater), hnew later hlater⟩

/-- When the walk over the lanes makes a walk over the resources in each lane, those of the first
resource are the only lanes it comes to: the resources that follow are found in the scratch set. -/
theorem footprintLaneSet_of_nested (hall : f.all = false) (start : σ) :
    e.footprintLaneSet conf f yield start = (e.entrance conf f).keys.foldl visit start := by
  rw [footprintLaneSet, hall, if_neg Bool.false_ne_true, eachFootprintResource]
  dsimp only
  refine (eachOnce_of_marked Prod.fst
    (fun resource ↦ ((e.resources conf).find resource).any fun lanes ↦ !lanes.keys.isEmpty)
    (fun resource ↦ ((e.resources conf).find resource).elim start fun lanes ↦
      lanes.keys.foldl visit start) (fun resource state hidle ↦ ?_)
    fun resource marks hacts ↦ ?_).trans ?_
  · cases hfind : (e.resources conf).find resource with
    | none => rfl
    | some lanes =>
      rw [hfind, Option.any_some, Bool.not_eq_false', List.isEmpty_iff] at hidle
      rw [Option.elim_some, hidle, List.foldl_nil]
  · cases hfind : (e.resources conf).find resource with
    | none => simp [hfind] at hacts
    | some lanes =>
      rw [hfind, Option.any_some, Bool.not_eq_true', List.isEmpty_eq_false_iff] at hacts
      exact foldl_lanes hyield lanes.nodup_keys ((start, []), marks)
        (fun _ _ ↦ List.not_mem_nil) fun hempty ↦ absurd hempty hacts
  · rw [entrance, List.find?_filterMap]
    cases hfirst : (e.footprintQueries conf f).find? fun resource ↦
        ((e.resources conf).find resource).any fun lanes ↦ !lanes.keys.isEmpty with
    | none => rfl
    | some resource =>
      rw [Option.elim_some, Option.bind_some]
      cases (e.resources conf).find resource <;> rfl

end

end ConflictEngine

end MoreConsensus
