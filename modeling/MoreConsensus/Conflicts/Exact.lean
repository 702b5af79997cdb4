import MoreConsensus.Conflicts.Queries
import MoreConsensus.Conflicts.Reachable

/-!
# Dependencies and conflicts against a plain scan

The dependencies of a command and the conflicts of a TryPreAccept, computed through walks of the
engine, are compared with a scan over the resident instances: the dependency on a lane is its
largest eligible instance that interferes with the command and is not skipped (`greatestConflict`),
and a TryPreAccept is refused for the least instance in its way.

Both are exact if and only if the walks come to the greatest conflict of each lane, or the least
instance in the way (`RawNode.computeAttrsAt_exact`, `RawNode.tryPreAcceptConflict_exact`). They
miss some: a walk from the sixty-fourth instance of a lane finds nothing in the tree of one level of
a resource whose only instance is the fifth, and lanes that only the second touched resource has are
not walked at all (`computeAttrsAt_misses`, `tryPreAcceptConflict_misses`).
-/

set_option autoImplicit false

namespace MoreConsensus

open Library ConflictEngine

/-! ### Largest and least -/

theorem maxInstance_le_iff {nums : List InstanceNum} {bound : InstanceNum} :
    maxInstance nums ≤ bound ↔ ∀ num ∈ nums, num ≤ bound :=
  foldl_max_le_iff.trans (and_iff_right (Nat.zero_le _))

/-- The largest of some numbers is one of them, unless it is zero. -/
theorem maxInstance_mem {nums : List InstanceNum} (hpos : maxInstance nums ≠ 0) :
    maxInstance nums ∈ nums := by
  by_contra hmem
  have hle : maxInstance nums ≤ maxInstance nums - 1 := by
    refine maxInstance_le_iff.mpr fun num hnum ↦ ?_
    have hbound := maxInstance_le_iff.mp le_rfl num hnum
    exact Nat.le_sub_one_of_lt (lt_of_le_of_ne hbound fun heq ↦ hmem (heq ▸ hnum))
  exact absurd hle (not_le.mpr (Nat.sub_lt (Nat.pos_of_ne_zero hpos) one_pos))

/-- The search for the least conflict finds one of the conflicts that no other is below. -/
theorem leastConflict_spec (conflicts : List (InstanceRef × Status)) :
    let least := conflicts.foldl (fun best conflict ↦ match best with
      | none => some conflict
      | some least => if conflict.1 < least.1 then some conflict else some least) none
    (least = none ↔ conflicts = []) ∧
      ∀ found, least = some found → found ∈ conflicts ∧ ∀ other ∈ conflicts, found.1 ≤ other.1 := by
  have hfold : ∀ (conflicts : List (InstanceRef × Status)) (start : InstanceRef × Status),
      ∃ found, conflicts.foldl (fun best conflict ↦ match best with
          | none => some conflict
          | some least => if conflict.1 < least.1 then some conflict else some least) (some start) =
        some found ∧ found ∈ start :: conflicts ∧
          ∀ other ∈ start :: conflicts, found.1 ≤ other.1 := by
    intro conflicts
    induction conflicts with
    | nil => exact fun start ↦ ⟨start, rfl, by simp, by simp⟩
    | cons conflict rest ih =>
      intro start
      rw [List.foldl_cons]
      dsimp only
      split_ifs with hlt
      · obtain ⟨found, hfound, hmem, hleast⟩ := ih conflict
        refine ⟨found, hfound, List.mem_cons_of_mem _ hmem, fun other hother ↦ ?_⟩
        rcases List.mem_cons.mp hother with rfl | hrest
        · exact (hleast conflict List.mem_cons_self).trans hlt.le
        · exact hleast other hrest
      · obtain ⟨found, hfound, hmem, hleast⟩ := ih start
        refine ⟨found, hfound, ?_, fun other hother ↦ ?_⟩
        · rcases List.mem_cons.mp hmem with rfl | hrest
          · exact List.mem_cons_self
          · exact List.mem_cons_of_mem _ (List.mem_cons_of_mem _ hrest)
        · rcases List.mem_cons.mp hother with rfl | hrest
          · exact hleast _ List.mem_cons_self
          rcases List.mem_cons.mp hrest with rfl | hrest
          · exact (hleast start List.mem_cons_self).trans (not_lt.mp hlt)
          · exact hleast other (List.mem_cons_of_mem _ hrest)
  cases conflicts with
  | nil => simp
  | cons conflict rest =>
    obtain ⟨found, hfound, hmem, hleast⟩ := hfold rest conflict
    rw [List.foldl_cons]
    dsimp only
    rw [hfound]
    refine ⟨by simp, fun other hother ↦ ?_⟩
    obtain rfl := Option.some.inj hother
    exact ⟨hmem, hleast⟩

namespace RawNode

variable {n : RawNode} {lane : InstanceLane} {ref : InstanceRef} {rec : InstanceRecord}

/-! ### What the walks visit -/

section

variable (hn : n.index.Coherent)

include hn

theorem sound_engine : n.engine.Sound := hn.indexes.sound

/-- The slot of a resident record. -/
theorem slot_of_record (hrec : n.record? ref = some rec) :
    ∃ slot, (n.engine.laneTree (laneFor ref)).get? ref.inst = some slot ∧ slot.seq = rec.seq ∧
      slot.eligible = recordConflictEligible rec ∧
      slot.global = recordHasGlobalConflictScope rec := by
  have hslots : (n.engine.slot ref).map LaneSlot.facts =
      (n.record? ref).map fun rec ↦ (slotForRecord rec).facts := hn.indexes.slots ref
  rw [hrec, Option.map_some] at hslots
  obtain ⟨slot, hslot, hfacts⟩ := Option.map_eq_some_iff.mp hslots
  simp only [LaneSlot.facts, Prod.mk.injEq] at hfacts
  exact ⟨slot, hslot, hfacts⟩

/-- A lane has slots for resident records only. -/
theorem record_of_slot {inst : InstanceNum} {slot : LaneSlot}
    (hslot : (n.engine.laneTree lane).get? inst = some slot) :
    ∃ rec, n.record? (lane.ref inst) = some rec := by
  have hslots : (n.engine.slot (lane.ref inst)).map LaneSlot.facts =
      (n.record? (lane.ref inst)).map fun rec ↦ (slotForRecord rec).facts := hn.indexes.slots _
  have hthere : n.engine.slot (lane.ref inst) = some slot := hslot
  rw [hthere, Option.map_some] at hslots
  obtain ⟨rec, hrec, -⟩ := Option.map_eq_some_iff.mp hslots.symm
  exact ⟨rec, hrec⟩

theorem mem_recordsOf {walk : List (InstanceNum × LaneSlot)} :
    rec ∈ n.recordsOf lane walk ↔ n.record? rec.ref = some rec ∧ laneFor rec.ref = lane ∧
      ∃ slot, (rec.ref.inst, slot) ∈ walk := by
  simp only [recordsOf, List.mem_filterMap, Prod.exists]
  constructor
  · rintro ⟨inst, slot, hwalk, hrec⟩
    have hkey : lane.ref inst = rec.ref := (hn.keyed.record_key rec hrec).symm
    obtain ⟨hlane, hinst⟩ := (ref_eq_iff lane inst rec.ref).mp hkey
    rw [hkey] at hrec
    exact ⟨hrec, hlane.symm, slot, hinst ▸ hwalk⟩
  · rintro ⟨hrec, rfl, slot, hwalk⟩
    exact ⟨rec.ref.inst, slot, hwalk, hrec⟩

theorem mem_eligibleRecords :
    rec ∈ n.eligibleRecords lane ↔ n.record? rec.ref = some rec ∧ laneFor rec.ref = lane ∧
      recordConflictEligible rec = true := by
  rw [eligibleRecords, mem_recordsOf hn]
  refine and_congr_right fun hrec ↦ and_congr_right ?_
  rintro rfl
  obtain ⟨slot, hslot, -, heligible, -⟩ := slot_of_record hn hrec
  simp only [(sound_engine hn).mem_walkEligible]
  constructor
  · rintro ⟨other, hother, hkept⟩
    rw [← heligible, Option.some.inj (hslot.symm.trans hother)]
    exact hkept
  · exact fun hkept ↦ ⟨slot, hslot, heligible.trans hkept⟩

end

/-- Every resident instance has a number. -/
def Named (n : RawNode) : Prop := ∀ ref ∈ n.instances.keys, ref.inst ≠ 0

/-- Whether a record has a posting under a resource that a footprint touches. -/
def Posts (f : Footprint) (rec : InstanceRecord) : Prop :=
  recordConflictEligible rec = true ∧ recordHasGlobalConflictScope rec = false ∧
    ∃ resource ∈ footprintResources rec.command.footprint, f.Touches resource

instance (f : Footprint) (rec : InstanceRecord) : Decidable (Posts f rec) :=
  inferInstanceAs (Decidable (_ ∧ _ ∧ ∃ resource ∈ _, _))

/-- The largest resident of a lane with a posting under what a footprint touches. -/
def greatestPosted (n : RawNode) (f : Footprint) (lane : InstanceLane) : InstanceNum :=
  maxInstance ((n.instances.entries.filter fun entry ↦
    laneFor entry.1 == lane && decide (Posts f entry.2.record)).map fun entry ↦ entry.1.inst)

/-- One of the posting trees of a record under what a footprint touches has its number among those
up to the largest posted one, in the digits that the tree has. -/
def PostedWithin (n : RawNode) (f : Footprint) (rec : InstanceRecord) : Prop :=
  ∃ resource ∈ footprintResources rec.command.footprint, f.Touches resource ∧
    ∃ root ∈ (n.engine.keyLane rec.ref.conf resource (laneFor rec.ref)).postings.root,
      rec.ref.inst ≤ n.greatestPosted f (laneFor rec.ref) % 64 ^ (root.1 + 1)

/-- Whether the walks of a footprint that names its resources come to a record: its scope is global,
or the first resource of the footprint has its lane and a posting tree is walked as far as it. -/
def Reached (n : RawNode) (f : Footprint) (rec : InstanceRecord) : Prop :=
  recordHasGlobalConflictScope rec = true ∨
    laneFor rec.ref ∈ (n.engine.entrance rec.ref.conf f).keys ∧ n.PostedWithin f rec

instance (n : RawNode) (f : Footprint) (rec : InstanceRecord) : Decidable (n.Reached f rec) :=
  inferInstanceAs (Decidable (_ ∨ _ ∧ ∃ resource ∈ _, _ ∧ ∃ root ∈ _, _))

section

variable (hn : n.index.Coherent)

include hn

theorem Named.slots (hnamed : n.Named) (num : InstanceNum) (slot : LaneSlot)
    (hslot : (n.engine.laneTree lane).get? num = some slot) : num ≠ 0 := by
  obtain ⟨rec, hrec⟩ := record_of_slot hn hslot
  obtain ⟨inst, hget, -⟩ := Option.map_eq_some_iff.mp hrec
  exact hnamed (lane.ref num) ((FiniteMap.mem_keys ..).mpr ⟨inst, hget⟩)

theorem mem_globalRecords (hnamed : n.Named) :
    rec ∈ n.globalRecords lane ↔ n.record? rec.ref = some rec ∧ laneFor rec.ref = lane ∧
      recordHasGlobalConflictScope rec = true ∧ recordConflictEligible rec = true := by
  rw [globalRecords, mem_recordsOf hn]
  refine and_congr_right fun hrec ↦ and_congr_right ?_
  rintro rfl
  obtain ⟨slot, hslot, -, heligible, hglobal⟩ := slot_of_record hn hrec
  simp only [(sound_engine hn).mem_walkGlobalDesc (hnamed.slots hn)]
  constructor
  · rintro ⟨other, hother, hscope, hkept⟩
    rw [← heligible, ← hglobal, Option.some.inj (hslot.symm.trans hother)]
    exact ⟨hscope, hkept⟩
  · rintro ⟨hscope, hkept⟩
    exact ⟨slot, hslot, hglobal.trans hscope, heligible.trans hkept⟩

/-- Where the walk of a footprint starts in a lane. -/
theorem footprintMax_eq_greatestPosted (f : Footprint) :
    (n.engine.footprintMax lane.conf f lane).1.1 = n.greatestPosted f lane := by
  refine eq_of_forall_ge_iff fun limit ↦ ?_
  rw [footprintMax_le_iff.1, greatestPosted, maxInstance_le_iff]
  constructor
  · intro hall num hnum
    obtain ⟨⟨ref, inst⟩, hentry, rfl⟩ := List.mem_map.mp hnum
    obtain ⟨hmem, hkept⟩ := List.mem_filter.mp hentry
    rw [Bool.and_eq_true, beq_iff_eq, decide_eq_true_eq] at hkept
    obtain ⟨hlane, heligible, hscope, resource, hresource, htouches⟩ := hkept
    have hlane : laneFor ref = lane := hlane
    subst hlane
    have hrec : n.record? ref = some inst.record := by
      rw [record?, (FiniteMap.mem_entries ..).mp hmem, Option.map_some]
    have hposted : n.engine.Posted ref.conf resource (laneFor ref) ref.inst :=
      (hn.indexes.posted ..).mpr ⟨rfl, inst.record, hrec, heligible, hscope, hresource⟩
    obtain ⟨entry, hfound, hget⟩ := exists_posted hposted
    have hsound := (sound_engine hn).postings ref.conf resource (laneFor ref)
    rw [keyLane_eq hfound] at hsound
    exact (PostingSet.max_le_iff hsound).mp (hall entry ((mem_footprintEntries
      (sound_engine hn).points).mpr ⟨resource, htouches, hfound⟩)) ref.inst hget
  · intro hall entry hentry
    obtain ⟨resource, htouches, hfound⟩ := (mem_footprintEntries (sound_engine hn).points).mp hentry
    have hsound := (sound_engine hn).postings lane.conf resource lane
    rw [keyLane_eq hfound] at hsound
    refine (PostingSet.max_le_iff hsound).mpr fun num hget ↦ hall num ?_
    have hposted : n.engine.Posted lane.conf resource lane num := by
      rwa [Posted, keyLane_eq hfound]
    obtain ⟨-, rec, hrec, heligible, hscope, hresource⟩ := (hn.indexes.posted ..).mp hposted
    obtain ⟨inst, hget, rfl⟩ := Option.map_eq_some_iff.mp hrec
    refine List.mem_map.mpr ⟨(lane.ref num, inst), List.mem_filter.mpr
      ⟨(FiniteMap.mem_entries ..).mpr hget, ?_⟩, rfl⟩
    rw [Bool.and_eq_true, beq_iff_eq, decide_eq_true_eq]
    exact ⟨laneFor_ref lane num, heligible, hscope, resource, hresource, htouches⟩

theorem mem_footprintRecords (hnamed : n.Named) {conf : ConfID} {f : Footprint} :
    rec ∈ (n.footprintRecords conf f lane).1 ↔ n.record? rec.ref = some rec ∧
      laneFor rec.ref = lane ∧ lane.conf = conf ∧ recordConflictEligible rec = true ∧
        recordHasGlobalConflictScope rec = false ∧ n.PostedWithin f rec := by
  rw [footprintRecords, mem_recordsOf hn]
  refine and_congr_right fun hrec ↦ and_congr_right ?_
  rintro rfl
  obtain ⟨slot, hslot, -, heligible, -⟩ := slot_of_record hn hrec
  have hposted : ∀ resource, n.engine.Posted conf resource (laneFor rec.ref) rec.ref.inst ↔
      (laneFor rec.ref).conf = conf ∧ ConflictEngine.Listed rec resource := by
    intro resource
    refine (hn.indexes.posted ..).trans (and_congr_right fun _ ↦ ?_)
    constructor
    · rintro ⟨other, hother, hlisted⟩
      rwa [Option.some.inj (hrec.symm.trans hother)]
    · exact fun hlisted ↦ ⟨rec, hrec, hlisted⟩
  -- the walk does not start from zero, since what is posted has a number
  have hstart : ∀ {resource}, f.Touches resource → ConflictEngine.Listed rec resource →
      n.greatestPosted f (laneFor rec.ref) ≠ 0 := by
    rintro resource htouches ⟨hkept, hscope, hmem⟩ hzero
    obtain ⟨inst, hget, hinst⟩ := Option.map_eq_some_iff.mp hrec
    have hle := maxInstance_le_iff.mp hzero.le rec.ref.inst (List.mem_map.mpr ⟨(rec.ref, inst),
      List.mem_filter.mpr ⟨(FiniteMap.mem_entries ..).mpr hget, by
        simp only [hinst, beq_self_eq_true, Bool.true_and, decide_eq_true_eq]
        exact ⟨hkept, hscope, resource, hmem, htouches⟩⟩, rfl⟩)
    exact hnamed rec.ref ((FiniteMap.mem_keys ..).mpr ⟨inst, hget⟩) (Nat.le_zero.mp hle)
  simp only [List.mem_filter, (sound_engine hn).mem_walkFootprintDesc, mem_walkPostings]
  constructor
  · rintro ⟨other, ⟨-, resource, htouches, hget, root, hroot, hle⟩, -⟩
    obtain ⟨rfl, hlisted⟩ := (hposted resource).mp hget
    rw [footprintMax_eq_greatestPosted hn, if_neg (hstart htouches hlisted)] at hle
    exact ⟨rfl, hlisted.1, hlisted.2.1, resource, hlisted.2.2, htouches, root, hroot, hle⟩
  · rintro ⟨rfl, hkept, hscope, resource, hmem, htouches, root, hroot, hle⟩
    have hlisted : ConflictEngine.Listed rec resource := ⟨hkept, hscope, hmem⟩
    refine ⟨slot, ⟨hslot, resource, htouches, (hposted resource).mpr ⟨rfl, hlisted⟩,
      root, hroot, ?_⟩,
      heligible.trans hkept⟩
    rwa [footprintMax_eq_greatestPosted hn, if_neg (hstart htouches hlisted)]

/-- Every instance of global scope that a walk passes is resident. -/
theorem globalAbsent_eq (hnamed : n.Named) : n.globalAbsent lane = [] := by
  rw [globalAbsent, List.map_eq_nil_iff, List.filter_eq_nil_iff]
  rintro ⟨inst, slot⟩ hentry
  have hslot := (((sound_engine hn).mem_walkGlobalDesc (hnamed.slots hn)).mp hentry).1
  obtain ⟨rec, hrec⟩ := record_of_slot hn hslot
  obtain ⟨found, hget, -⟩ := Option.map_eq_some_iff.mp hrec
  simp [FiniteMap.contains, hget]

end

/-- Nothing is kept of folded instances that an instance could depend on. -/
def Unfolded (n : RawNode) : Prop :=
  ∀ lane, (n.retiredLane lane).eligibleAny = 0 ∧ (n.retiredLane lane).globalMax = 0

section

variable (hn : n.index.Coherent)

include hn

theorem Unfolded.footprintMax_eq (hunfolded : n.Unfolded) (conf : ConfID)
    (f : Footprint) : (n.engine.footprintMax conf f lane).1.2 = 0 := by
  refine Nat.le_zero.mp (footprintMax_le_iff.2.mpr fun entry hentry ↦ ?_)
  obtain ⟨resource, -, hfound⟩ := (mem_footprintEntries (sound_engine hn).points).mp hentry
  have hfloor : (n.engine.keyLane conf resource lane).retiredFloor ≤
      (n.retiredLane lane).eligibleAny := hn.floors conf resource lane
  rwa [keyLane_eq hfound, (hunfolded lane).1] at hfloor

/-- A lane with a resident instance is known to the engine. -/
theorem known_of_record (hrec : n.record? ref = some rec) :
    laneFor ref ∈ n.engine.lanes ref.conf := by
  obtain ⟨slot, hslot, -⟩ := slot_of_record hn hrec
  exact mem_lanes hslot rfl

omit hn in
/-- The walk over the lanes of a footprint visits those that the first touched resource has, and all
when the footprint is everything. -/
theorem footprintVisits_eq (conf : ConfID) (f : Footprint) :
    n.footprintVisits conf f =
      (if f.all then n.engine.lanes conf else (n.engine.entrance conf f).keys).map fun lane ↦
        (lane, (n.engine.footprintMax conf f lane).1.2, (n.footprintRecords conf f lane).1) := by
  have hmarks : ∀ lane, ∀ resource ∈ n.engine.footprintQueries conf f,
      resource ∈ (n.footprintRecords conf f lane).2 := fun lane resource ↦
    ((eachFootprintResource_eq (fun seen entry ↦ seen ++ walkPostings _ entry) []).2 resource).mpr
  rw [List.map_eq_flatMap, List.flatMap_eq_foldl, footprintVisits]
  cases hall : f.all with
  | true =>
    rw [footprintLaneSet, if_pos hall, if_pos rfl]
    exact (List.foldl_hom Prod.fst fun _ _ ↦ rfl).symm
  | false =>
    rw [if_neg Bool.false_ne_true]
    exact @footprintLaneSet_of_nested _ _ _ _ _ (fun visits lane ↦ visits ++
      [(lane, (n.engine.footprintMax conf f lane).1.2, (n.footprintRecords conf f lane).1)])
      (fun lane _ ↦ ⟨rfl, hmarks lane⟩) hall []

section

variable {f : Footprint} (hall : f.all = false)

include hall

omit hn in
/-- A lane is visited once if it is one of the first resource, and not at all otherwise. -/
theorem mem_ownVisits {visit : InstanceLane × InstanceNum × List InstanceRecord} :
    visit ∈ (n.footprintVisits lane.conf f).filter (fun visit ↦ visit.1 == lane) ↔
      lane ∈ (n.engine.entrance lane.conf f).keys ∧ visit =
        (lane, (n.engine.footprintMax lane.conf f lane).1.2,
          (n.footprintRecords lane.conf f lane).1) := by
  rw [footprintVisits_eq, hall, if_neg Bool.false_ne_true, List.mem_filter, List.mem_map,
    beq_iff_eq]
  constructor
  · rintro ⟨⟨other, hother, rfl⟩, hsame⟩
    have hsame : other = lane := hsame
    subst hsame
    exact ⟨hother, rfl⟩
  · rintro ⟨hmem, rfl⟩
    exact ⟨⟨lane, hmem, rfl⟩, rfl⟩

theorem floor_ownVisits (hunfolded : n.Unfolded) {num : InstanceNum}
    (hnum : num ∈ ((n.footprintVisits lane.conf f).filter fun visit ↦ visit.1 == lane).map
      fun visit ↦ visit.2.1) : num = 0 := by
  obtain ⟨visit, hvisit, rfl⟩ := List.mem_map.mp hnum
  rw [((mem_ownVisits hall).mp hvisit).2]
  exact hunfolded.footprintMax_eq hn _ _

theorem mem_ownRecords (hnamed : n.Named) {rec : InstanceRecord} :
    rec ∈ ((n.footprintVisits lane.conf f).filter fun visit ↦ visit.1 == lane).flatMap
        (fun visit ↦ visit.2.2) ↔
      n.record? rec.ref = some rec ∧ laneFor rec.ref = lane ∧ recordConflictEligible rec = true ∧
        recordHasGlobalConflictScope rec = false ∧
          laneFor rec.ref ∈ (n.engine.entrance rec.ref.conf f).keys ∧ n.PostedWithin f rec := by
  simp only [List.mem_flatMap, mem_ownVisits hall]
  constructor
  · rintro ⟨_, ⟨hmem, rfl⟩, hrec⟩
    obtain ⟨hresident, rfl, -, heligible, hscope, hwithin⟩ :=
      (mem_footprintRecords hn hnamed).mp hrec
    exact ⟨hresident, rfl, heligible, hscope, hmem, hwithin⟩
  · rintro ⟨hrec, rfl, heligible, hscope, hmem, hwithin⟩
    exact ⟨_, ⟨hmem, rfl⟩, (mem_footprintRecords hn hnamed).mpr
      ⟨hrec, rfl, rfl, heligible, hscope, hwithin⟩⟩

end

/-- The computation of a dependency visits the eligible residents of the lane that it comes to, and
adds nothing else. Assumes: no instance is folded. -/
theorem visited_spec (hnamed : n.Named) (hunfolded : n.Unfolded) {f : Footprint} :
    (∀ num ∈ (n.visited f lane).2, num = 0) ∧ ∀ rec, rec ∈ (n.visited f lane).1 ↔
      n.record? rec.ref = some rec ∧ laneFor rec.ref = lane ∧ recordConflictEligible rec = true ∧
        (f.all = true ∨ n.Reached f rec) := by
  have hknown : ∀ rec, n.record? rec.ref = some rec → laneFor rec.ref = lane →
      (n.engine.lanes lane.conf).contains lane = true := by
    rintro rec hrec rfl
    exact List.contains_iff_mem.mpr (known_of_record hn hrec)
  unfold visited
  cases hall : f.all with
  | true =>
    simp only [if_true, true_or, and_true]
    split_ifs with hlane
    · exact ⟨by simp [(hunfolded lane).1], fun rec ↦ mem_eligibleRecords hn⟩
    · refine ⟨by simp, fun rec ↦ iff_of_false (by simp) ?_⟩
      rintro ⟨hrec, hat, -⟩
      exact hlane (hknown rec hrec hat)
  | false =>
    simp only [Bool.false_eq_true, if_false, false_or]
    split_ifs with hlane
    · refine ⟨fun num hnum ↦ ?_, fun rec ↦ ?_⟩
      · rw [globalAbsent_eq hn hnamed, (hunfolded lane).2] at hnum
        rcases List.mem_append.mp hnum with hfloor | hzero
        · exact floor_ownVisits hn hall hunfolded hfloor
        · exact List.mem_singleton.mp hzero
      · rw [List.mem_append, mem_ownRecords hn hall hnamed, mem_globalRecords hn hnamed,
          ← and_or_left, ← and_or_left]
        refine and_congr_right fun _ ↦ and_congr_right fun _ ↦ ?_
        rw [and_comm (a := recordHasGlobalConflictScope rec = true), ← and_or_left]
        refine and_congr_right fun _ ↦ ?_
        rw [Reached]
        cases recordHasGlobalConflictScope rec <;> simp
    · refine ⟨fun num ↦ floor_ownVisits hn hall hunfolded, fun rec ↦ ?_⟩
      refine (mem_ownRecords hn hall hnamed).trans ?_
      refine and_congr_right fun hrec ↦ and_congr_right fun hat ↦ ?_
      exact absurd (hknown rec hrec hat) hlane

end

/-! ### Dependencies -/

/-- Whether a resident record is eligible and interferes with a command. -/
def interferes (cmd : Command) (rec : InstanceRecord) : Bool :=
  recordConflictEligible rec && recordsConflict { kind := .command, command := cmd } rec

/-- The largest resident instance of a lane, other than an excluded one, that is eligible,
interferes with a command and is not skipped by the timing rule, zero for none. -/
def greatestConflict (n : RawNode) (cmd : Command) (exclude : InstanceRef) (processAt : ℕ)
    (timedPreAccept : Bool) (lane : InstanceLane) : InstanceNum :=
  maxInstance ((n.instances.entries.filter fun entry ↦
    laneFor entry.1 == lane && entry.1 != exclude && interferes cmd entry.2.record &&
      !n.skipTimedConflict cmd exclude processAt timedPreAccept entry.2.record).map
        fun entry ↦ entry.1.inst)

/-- Every resident instance that takes part in conflicts has a kind and a sequence number, and no
other has more than the least sequence number. -/
def Sequenced (n : RawNode) : Prop :=
  ∀ entry ∈ n.instances.entries, if recordConflictEligible entry.2.record then
    entry.2.record.kind ≠ .unset ∧ 1 ≤ entry.2.record.seq else entry.2.record.seq ≤ 1

theorem Sequenced.of_record (hsequenced : n.Sequenced) (hrec : n.record? ref = some rec) :
    if recordConflictEligible rec then rec.kind ≠ .unset ∧ 1 ≤ rec.seq else rec.seq ≤ 1 := by
  obtain ⟨inst, hget, rfl⟩ := Option.map_eq_some_iff.mp hrec
  exact hsequenced (ref, inst) ((FiniteMap.mem_entries ..).mpr hget)

/-- An entry with a value and without global scope names its resources. -/
theorem all_eq_false (hnoop : rec.kind ≠ .noop) (hunset : rec.kind ≠ .unset)
    (hscope : recordHasGlobalConflictScope rec = false) : rec.command.footprint.all = false := by
  unfold recordHasGlobalConflictScope entryHasGlobalConflictScope at hscope
  cases hkind : rec.kind <;> simp_all

theorem kind_ne_noop (heligible : recordConflictEligible rec = true) : rec.kind ≠ .noop := by
  intro hnoop
  simp [recordConflictEligible, hnoop] at heligible

variable {cmd : Command}

/-- Interference as the computation of attributes tests it. -/
theorem interferes_eq (hkind : recordConflictEligible rec = true → rec.kind ≠ .unset) :
    interferes cmd rec = (recordConflictEligible rec && (recordHasGlobalConflictScope rec ||
      cmd.footprint.all || footprintsConflict cmd.footprint rec.command.footprint)) := by
  rw [interferes]
  cases heligible : recordConflictEligible rec with
  | false => simp
  | true =>
    have hcommand : recordHasGlobalConflictScope { kind := .command, command := cmd } =
        cmd.footprint.all := by simp [recordHasGlobalConflictScope, entryHasGlobalConflictScope]
    rw [recordsConflict, if_neg (by simp [kind_ne_noop heligible, hkind heligible]), hcommand]
    cases cmd.footprint.all <;> cases recordHasGlobalConflictScope rec <;> simp

/-- A record interferes with a command when its scope is global, the command touches everything, or
the command touches one of its resources. -/
theorem interferes_iff (hkind : recordConflictEligible rec = true → rec.kind ≠ .unset) :
    interferes cmd rec = true ↔ recordConflictEligible rec = true ∧
      (cmd.footprint.all = true ∨ recordHasGlobalConflictScope rec = true ∨
        recordHasGlobalConflictScope rec = false ∧
          ∃ resource ∈ footprintResources rec.command.footprint,
            cmd.footprint.Touches resource) := by
  rw [interferes_eq hkind, Bool.and_eq_true]
  refine and_congr_right fun heligible ↦ ?_
  cases hall : cmd.footprint.all with
  | true => simp
  | false =>
    cases hscope : recordHasGlobalConflictScope rec with
    | true => simp
    | false =>
      have hother := all_eq_false (kind_ne_noop heligible) (hkind heligible) hscope
      simp [footprintsConflict_iff hall hother]

variable {exclude : InstanceRef} {processAt : ℕ} {timedPreAccept : Bool}

theorem addsDependency_eq (hkind : recordConflictEligible rec = true → rec.kind ≠ .unset) :
    n.addsDependency cmd exclude processAt timedPreAccept rec =
      (rec.ref != exclude && interferes cmd rec &&
        !n.skipTimedConflict cmd exclude processAt timedPreAccept rec) := by
  rw [interferes_eq hkind, addsDependency]
  generalize n.skipTimedConflict cmd exclude processAt timedPreAccept rec = skipped
  by_cases hexclude : rec.ref = exclude
  · simp [hexclude]
  · have hother : (rec.ref != exclude) = true := bne_iff_ne.mpr hexclude
    cases recordConflictEligible rec <;> cases recordHasGlobalConflictScope rec <;>
      cases cmd.footprint.all <;> simp [hexclude, hother]

/-- A resident record other than an excluded one that is eligible, interferes with a command and is
not skipped by the timing rule. -/
def Conflicting (n : RawNode) (cmd : Command) (exclude : InstanceRef) (processAt : ℕ)
    (timedPreAccept : Bool) (rec : InstanceRecord) : Prop :=
  n.record? rec.ref = some rec ∧ rec.ref ≠ exclude ∧ interferes cmd rec = true ∧
    n.skipTimedConflict cmd exclude processAt timedPreAccept rec = false

section

variable (hn : n.index.Coherent)

include hn

/-- The number the scan finds in a lane is that of a conflicting record, unless it is zero, and no
conflicting record of the lane is above it. -/
theorem greatestConflict_spec :
    let greatest := n.greatestConflict cmd exclude processAt timedPreAccept lane
    (greatest ≠ 0 → ∃ rec, n.Conflicting cmd exclude processAt timedPreAccept rec ∧
      rec.ref = lane.ref greatest) ∧
      ∀ rec, n.Conflicting cmd exclude processAt timedPreAccept rec → laneFor rec.ref = lane →
        rec.ref.inst ≤ greatest := by
  refine ⟨fun hpos ↦ ?_, fun rec hrec hlane ↦ maxInstance_le_iff.mp le_rfl _ ?_⟩
  · obtain ⟨⟨ref, inst⟩, hentry, hnum⟩ := List.mem_map.mp (maxInstance_mem hpos)
    obtain ⟨hmem, hkept⟩ := List.mem_filter.mp hentry
    simp only [Bool.and_eq_true, beq_iff_eq, bne_iff_ne, Bool.not_eq_true'] at hkept
    have hrec : n.record? ref = some inst.record := by
      rw [record?, (FiniteMap.mem_entries ..).mp hmem, Option.map_some]
    have hkey : inst.record.ref = ref := hn.keyed.record_key _ hrec
    refine ⟨inst.record, ⟨hkey ▸ hrec, hkey ▸ hkept.1.1.2, hkept.1.2, hkept.2⟩, ?_⟩
    rw [hkey]
    exact ((ref_eq_iff lane _ ref).mpr ⟨hkept.1.1.1.symm, hnum.symm⟩).symm
  · obtain ⟨hresident, hother, hinterferes, hskip⟩ := hrec
    obtain ⟨inst, hget, hinst⟩ := Option.map_eq_some_iff.mp hresident
    refine List.mem_map.mpr ⟨(rec.ref, inst), List.mem_filter.mpr
      ⟨(FiniteMap.mem_entries ..).mpr hget, ?_⟩, rfl⟩
    simp [hinst, hlane, hother, hinterferes, hskip]

/-- The dependency on a lane is the number of a conflicting record that the walks come to, unless it
is zero, and no such record is above it. -/
theorem laneDependency_spec (hnamed : n.Named) (hunfolded : n.Unfolded) (hsequenced : n.Sequenced) :
    let through := n.laneDependency cmd exclude processAt timedPreAccept lane
    (through ≠ 0 → ∃ rec, n.Conflicting cmd exclude processAt timedPreAccept rec ∧
      (cmd.footprint.all = true ∨ n.Reached cmd.footprint rec) ∧ rec.ref = lane.ref through) ∧
      ∀ rec, n.Conflicting cmd exclude processAt timedPreAccept rec → laneFor rec.ref = lane →
        cmd.footprint.all = true ∨ n.Reached cmd.footprint rec → rec.ref.inst ≤ through := by
  obtain ⟨hretired, hvisited⟩ := @visited_spec n lane hn hnamed hunfolded cmd.footprint
  have hkind : ∀ {ref rec}, n.record? ref = some rec → recordConflictEligible rec = true →
      rec.kind ≠ .unset := fun hrec heligible ↦ by
    have hseq := hsequenced.of_record hrec
    rw [if_pos heligible] at hseq
    exact hseq.1
  unfold laneDependency
  generalize n.visited cmd.footprint lane = seen at hretired hvisited ⊢
  obtain ⟨records, retired⟩ := seen
  refine ⟨fun hpos ↦ ?_, fun rec hrec hlane hreached ↦ maxInstance_le_iff.mp le_rfl _ ?_⟩
  · rcases List.mem_append.mp (maxInstance_mem hpos) with hfloor | hadded
    · exact absurd (hretired _ hfloor) hpos
    · obtain ⟨rec, hmem, hnum⟩ := List.mem_map.mp hadded
      obtain ⟨hmem, hadds⟩ := List.mem_filter.mp hmem
      obtain ⟨hrec, hlane, heligible, hreached⟩ := (hvisited rec).mp hmem
      rw [addsDependency_eq (hkind hrec), Bool.and_eq_true, Bool.and_eq_true, bne_iff_ne,
        Bool.not_eq_true'] at hadds
      refine ⟨rec, ⟨hrec, hadds.1.1, hadds.1.2, hadds.2⟩, hreached, ?_⟩
      exact ((ref_eq_iff lane _ rec.ref).mpr ⟨hlane.symm, hnum.symm⟩).symm
  · obtain ⟨hresident, hother, hinterferes, hskip⟩ := hrec
    have heligible := ((interferes_iff (hkind hresident)).mp hinterferes).1
    refine List.mem_append_right _ (List.mem_map.mpr ⟨rec, List.mem_filter.mpr
      ⟨(hvisited rec).mpr ⟨hresident, hlane, heligible, hreached⟩, ?_⟩, rfl⟩)
    simp [addsDependency_eq (hkind hresident), hother, hinterferes, hskip]

end

theorem lt_saturatingSeqIncrement {seq value : ℕ} (hle : seq ≤ value) :
    seq < saturatingSeqIncrement value ∨ maxUint64 ≤ saturatingSeqIncrement value := by
  unfold saturatingSeqIncrement
  split_ifs with hmax
  · exact .inr hmax.ge
  · exact .inl (Nat.lt_succ_of_le hle)

/-- The sequence number after a dependency is above the one of every instance it covers. -/
theorem lt_seq_of_covered (hn : n.index.Coherent) (hsequenced : n.Sequenced)
    (hrec : n.record? ref = some rec) {through : InstanceNum} (hcovered : ref.inst ≤ through)
    {last : InstanceRef} {lastRec : InstanceRecord} (hlast : n.record? last = some lastRec)
    (hlane : laneFor last = laneFor ref) (heligible : recordConflictEligible lastRec = true)
    (hthrough : last.inst = through) :
    rec.seq < saturatingSeqIncrement (n.prefixMaxSeq (laneFor ref) through) ∨
      maxUint64 ≤ saturatingSeqIncrement (n.prefixMaxSeq (laneFor ref) through) := by
  have hbound : ∀ {other otherRec}, n.record? other = some otherRec →
      laneFor other = laneFor ref → recordConflictEligible otherRec = true →
        other.inst ≤ through → otherRec.seq ≤ n.prefixMaxSeq (laneFor ref) through := by
    intro other otherRec hother hsame hkept hle
    obtain ⟨slot, hslot, hseq, hslotEligible, -⟩ := slot_of_record hn hother
    rw [hsame] at hslot
    rw [← hseq]
    exact ((sound_engine hn).le_prefixMaxSeq hslot (hslotEligible.trans hkept) hle).trans
      (le_max_left ..)
  refine lt_saturatingSeqIncrement ?_
  cases hkept : recordConflictEligible rec with
  | true => exact hbound hrec rfl hkept hcovered
  | false =>
    have hseq := hsequenced.of_record hrec
    have hleast := hsequenced.of_record hlast
    rw [hkept, if_neg Bool.false_ne_true] at hseq
    rw [if_pos heligible] at hleast
    exact (hseq.trans hleast.2).trans (hbound hlast hlane heligible hthrough.le)

/-- Whether the computation of attributes comes to a resident record: the command touches
everything, or it touches something and a walk reaches the record. -/
def Found (n : RawNode) (f : Footprint) (rec : InstanceRecord) : Prop :=
  f.all = true ∨ (f.points ≠ [] ∨ f.spans ≠ []) ∧ n.Reached f rec

instance (n : RawNode) (f : Footprint) (rec : InstanceRecord) : Decidable (n.Found f rec) :=
  inferInstanceAs (Decidable (_ ∨ _ ∧ _))

/-- The attributes are a dependency for each voter, the number of a conflicting record that is found
if it is not zero and not below any of these, and a sequence number above the one of each. -/
theorem computeAttrsAt_spec (hn : n.index.Coherent) (hnamed : n.Named) (hunfolded : n.Unfolded)
    (hsequenced : n.Sequenced) :
    ∃ through : ReplicaID → InstanceNum,
      (n.computeAttrsAt cmd exclude processAt timedPreAccept).deps =
        (n.votersForConf exclude.conf).map through ∧
      (∀ voter, through voter ≠ 0 → ∃ rec, n.Conflicting cmd exclude processAt timedPreAccept rec ∧
        n.Found cmd.footprint rec ∧
          rec.ref = (⟨exclude.conf, voter⟩ : InstanceLane).ref (through voter)) ∧
      (∀ voter rec, n.Conflicting cmd exclude processAt timedPreAccept rec →
        n.Found cmd.footprint rec → laneFor rec.ref = ⟨exclude.conf, voter⟩ →
          rec.ref.inst ≤ through voter) ∧
      ∀ voter ∈ n.votersForConf exclude.conf, through voter ≠ 0 →
        saturatingSeqIncrement (n.prefixMaxSeq ⟨exclude.conf, voter⟩ (through voter)) ≤
          (n.computeAttrsAt cmd exclude processAt timedPreAccept).seq := by
  cases hempty : !cmd.footprint.all && cmd.footprint.points.isEmpty &&
      cmd.footprint.spans.isEmpty with
  | true =>
    -- a command that touches nothing gets no dependencies
    have hnone : ∀ rec, ¬ n.Found cmd.footprint rec := by
      simp only [Bool.and_eq_true, Bool.not_eq_true', List.isEmpty_iff] at hempty
      rintro rec (hall | ⟨hpoints | hspans, -⟩)
      · simp [hall] at hempty
      · exact hpoints hempty.1.2
      · exact hspans hempty.2
    refine ⟨fun _ ↦ 0, ?_, fun _ h ↦ absurd rfl h, fun _ rec _ hfound ↦ absurd hfound (hnone rec),
      fun _ _ h ↦ absurd rfl h⟩
    rw [computeAttrsAt, if_pos hempty, List.map_const']
  | false =>
    have hfound : ∀ rec, n.Found cmd.footprint rec ↔
        cmd.footprint.all = true ∨ n.Reached cmd.footprint rec := by
      intro rec
      rw [Found]
      cases hall : cmd.footprint.all with
      | true => simp
      | false =>
        simp only [hall, Bool.not_false, Bool.true_and, Bool.and_eq_false_iff,
          List.isEmpty_eq_false_iff] at hempty
        simp [hempty]
    have hspec := fun voter ↦ @laneDependency_spec n ⟨exclude.conf, voter⟩ cmd exclude processAt
      timedPreAccept hn hnamed hunfolded hsequenced
    simp only [← hfound] at hspec
    refine ⟨fun voter ↦ n.laneDependency cmd exclude processAt timedPreAccept ⟨exclude.conf, voter⟩,
      ?_, fun voter ↦ (hspec voter).1, fun voter rec hrec hfound hlane ↦
        (hspec voter).2 rec hrec hlane hfound, fun voter hvoter hpos ↦ ?_⟩
    · simp [computeAttrsAt, hempty]
    · rw [computeAttrsAt, if_neg (by simp [hempty])]
      refine (foldl_max_le_iff.mp le_rfl).2 _ (List.mem_map.mpr ⟨(⟨exclude.conf, voter⟩, _), ?_,
        if_neg hpos⟩)
      rw [← List.map_prod_left_eq_zip]
      exact List.mem_map.mpr ⟨_, List.mem_map_of_mem hvoter, rfl⟩

/-- In every state that a node reaches and in which no instance is folded, the dependencies of a
command are those of a scan over the resident instances exactly if the walks come to the greatest
conflict of each lane, and its sequence number is above that of every resident instance that its
dependencies cover, unless it is the largest there is. Assumes: no compaction of the run finds its
barrier as a mere promise, and resident instances have numbers and are sequenced. -/
theorem computeAttrsAt_exact {id : ReplicaID} {cfg : Config} {base : VoterSet} {storage : Storage}
    (hnew : newRawNode id cfg base storage = some n) {calls : List Call}
    (hmeets : RunMeets SettlesBarrier n calls) {m : RawNode} (hrun : n.run calls = m)
    (hunfolded : m.Unfolded) (hnamed : m.Named) (hsequenced : m.Sequenced) (cmd : Command)
    (exclude : InstanceRef) (processAt : ℕ) (timedPreAccept : Bool) :
    let attrs := m.computeAttrsAt cmd exclude processAt timedPreAccept
    let greatest := fun voter ↦
      m.greatestConflict cmd exclude processAt timedPreAccept ⟨exclude.conf, voter⟩
    (attrs.deps = (m.votersForConf exclude.conf).map greatest ↔
      ∀ voter ∈ m.votersForConf exclude.conf,
        ∀ rec ∈ m.record? (InstanceLane.ref ⟨exclude.conf, voter⟩ (greatest voter)),
          m.Found cmd.footprint rec) ∧
      ∀ entry ∈ (m.votersForConf exclude.conf).zip attrs.deps, ∀ ref rec,
        m.record? ref = some rec → laneFor ref = ⟨exclude.conf, entry.1⟩ → ref.inst ≤ entry.2 →
          rec.seq < attrs.seq ∨ maxUint64 ≤ attrs.seq := by
  have hm : m.index.Coherent := hrun ▸ coherent_run (coherent_newRawNode hnew) hmeets
  intro attrs greatest
  have hscan := fun voter ↦ @greatestConflict_spec m ⟨exclude.conf, voter⟩ cmd exclude processAt
    timedPreAccept hm
  obtain ⟨through, hdeps, hattained, hbound, hseq⟩ :=
    @computeAttrsAt_spec m cmd exclude processAt timedPreAccept hm hnamed hunfolded hsequenced
  have hnumber : ∀ {ref rec}, m.record? ref = some rec → ref.inst ≠ 0 := fun hrec ↦ by
    obtain ⟨inst, hget, -⟩ := Option.map_eq_some_iff.mp hrec
    exact hnamed _ ((FiniteMap.mem_keys ..).mpr ⟨inst, hget⟩)
  refine ⟨?_, fun entry hentry ref rec hrec hlane hcovered ↦ ?_⟩
  · rw [hdeps, List.map_inj_left]
    refine forall₂_congr fun voter _ ↦ ⟨fun heq rec hrec ↦ ?_, fun hfound ↦ le_antisymm ?_ ?_⟩
    · have hpos : greatest voter ≠ 0 := hnumber hrec
      obtain ⟨found, hfound, hreached, href⟩ := hattained voter (heq ▸ hpos)
      rw [heq] at href
      rw [← href] at hrec
      rwa [← Option.some.inj (hfound.1.symm.trans hrec)]
    · by_cases hzero : through voter = 0
      · exact hzero ▸ Nat.zero_le _
      · obtain ⟨rec, hrec, -, href⟩ := hattained voter hzero
        have hle := (hscan voter).2 rec hrec (by rw [href, laneFor_ref])
        rwa [href] at hle
    · by_cases hzero : greatest voter = 0
      · exact hzero ▸ Nat.zero_le _
      · obtain ⟨rec, hrec, href⟩ := (hscan voter).1 hzero
        have hle := hbound voter rec hrec (hfound rec (href ▸ hrec.1)) (by rw [href, laneFor_ref])
        rwa [href] at hle
  · rw [hdeps, ← List.map_prod_left_eq_zip] at hentry
    obtain ⟨voter, hvoter, rfl⟩ := List.mem_map.mp hentry
    -- an instance that is covered has a number, so the dependency is one
    have hpos : through voter ≠ 0 := fun hzero ↦
      hnumber hrec (Nat.le_zero.mp (hzero ▸ hcovered))
    obtain ⟨last, hlast, -, href⟩ := hattained voter hpos
    have heligible : recordConflictEligible last = true :=
      (Bool.and_eq_true_iff.mp hlast.2.2.1).1
    have hlt := lt_seq_of_covered hm hsequenced hrec hcovered hlast.1
      (by rw [href, laneFor_ref, hlane]) heligible (by rw [href]; rfl)
    rw [hlane] at hlt
    have hmax := hseq voter hvoter hpos
    exact hlt.imp (fun hlt ↦ hlt.trans_le hmax) fun hle ↦ hle.trans hmax

instance (n : RawNode) : Decidable n.Named :=
  inferInstanceAs (Decidable (∀ ref ∈ n.instances.keys, ref.inst ≠ 0))

instance (n : RawNode) : Decidable n.Sequenced :=
  inferInstanceAs (Decidable (∀ entry ∈ n.instances.entries,
    if recordConflictEligible entry.2.record then entry.2.record.kind ≠ .unset ∧
      1 ≤ entry.2.record.seq else entry.2.record.seq ≤ 1))

/-- A node that has folded nothing has no retired lanes. -/
theorem unfolded_of_isEmpty (hempty : n.retired.entries = []) : n.Unfolded := by
  intro lane
  have hnone : n.retired.get? lane = none := by
    cases hget : n.retired.get? lane with
    | none => rfl
    | some found =>
      have hmem := (FiniteMap.mem_entries ..).mpr hget
      simp [hempty] at hmem
  rw [retiredLane, hnone]
  exact ⟨rfl, rfl⟩

end RawNode

/-! ### Walks that miss -/

/-- The PreAccept of a command for one key. -/
def pointPreAccept (replica : ReplicaID) (inst : InstanceNum) (key : Bytes) : Message :=
  { type := .preAccept, source := replica, target := 1, ref := ⟨replica, inst, 1⟩
    ballot := ⟨0, 0, replica⟩, seq := 1, deps := [0, 0, 0], kind := .command
    command := { payload := [1], footprint := { points := [key] } } }

/-- A command for two keys. -/
def pairCommand : Command := { payload := [3], footprint := { points := [[1], [2]] } }

/-- A command for all keys around it. -/
def spanCommand : Command := { payload := [2], footprint := { spans := [⟨[1], [3]⟩] } }

/-- The command of the second replica that is so many later. -/
def spanPreAccept (inst : InstanceNum) : Message :=
  { type := .preAccept, source := 2, target := 1, ref := ⟨2, inst, 1⟩, ballot := ⟨0, 0, 2⟩, seq := 2
    deps := [0, 5, 1], kind := .command, command := spanCommand }

namespace RawNode

theorem computeAttrsAt_exact_low :
    ∃ n, newRawNode 1 {} threeReplicas {} = some n ∧
      ((n.run [.step (pointPreAccept 2 5 [2]), .step (spanPreAccept 6)]).computeAttrsAt
        spanCommand ⟨2, 6, 1⟩ 0
        false).deps = [0, 5, 0] := by
  have hsome : (newRawNode 1 {} threeReplicas {}).isSome = true := by decide +kernel
  have hall : ∀ n ∈ newRawNode 1 {} threeReplicas {},
      let m := n.run [.step (pointPreAccept 2 5 [2]), .step (spanPreAccept 6)]
      RunMeets SettlesBarrier n [.step (pointPreAccept 2 5 [2]), .step (spanPreAccept 6)] ∧
        m.retired.entries = [] ∧ m.Named ∧ m.Sequenced ∧
        (∀ voter ∈ m.votersForConf 1, ∀ rec ∈ m.record? (InstanceLane.ref ⟨1, voter⟩
          (m.greatestConflict spanCommand ⟨2, 6, 1⟩ 0 false ⟨1, voter⟩)),
            m.Found spanCommand.footprint rec) ∧
        (m.votersForConf 1).map (fun voter ↦
          m.greatestConflict spanCommand ⟨2, 6, 1⟩ 0 false ⟨1, voter⟩) = [0, 5, 0] := by
    decide +kernel
  obtain ⟨n, hn⟩ := Option.isSome_iff_exists.mp hsome
  obtain ⟨hmeets, hempty, hnamed, hsequenced, hfound, hscan⟩ := hall n hn
  refine ⟨n, hn, ?_⟩
  rw [(computeAttrsAt_exact hn hmeets rfl (unfolded_of_isEmpty hempty) hnamed hsequenced spanCommand
    ⟨2, 6, 1⟩ 0 false).1.mpr hfound]
  exact hscan

end RawNode

/-- The second replica has proposed sixty-four commands, and the first one has learned of the fifth
and the last: the last one interferes with the fifth, which is not among the dependencies computed
for it. Or it has learned of commands for one key each, of two replicas: the command for both keys
gets the dependency on the first one only. -/
theorem computeAttrsAt_misses :
    ∃ n, RawNode.newRawNode 1 {} threeReplicas {} = some n ∧
      (let m := n.run [.step (pointPreAccept 2 5 [2]), .step (spanPreAccept 64)]
       m.Unfolded ∧ m.computeAttrsAt spanCommand ⟨2, 64, 1⟩ 0 false = ⟨1, [0, 0, 0]⟩ ∧
         m.greatestConflict spanCommand ⟨2, 64, 1⟩ 0 false ⟨1, 2⟩ = 5) ∧
      let m := n.run [.step (pointPreAccept 2 1 [1]), .step (pointPreAccept 3 1 [2])]
      m.Unfolded ∧ m.computeAttrsAt pairCommand ⟨1, 1, 1⟩ 0 false = ⟨2, [0, 1, 0]⟩ ∧
        m.greatestConflict pairCommand ⟨1, 1, 1⟩ 0 false ⟨1, 3⟩ = 1 := by
  have hsome : (RawNode.newRawNode 1 {} threeReplicas {}).isSome = true := by decide +kernel
  have hall : ∀ n ∈ RawNode.newRawNode 1 {} threeReplicas {},
      (let m := n.run [.step (pointPreAccept 2 5 [2]), .step (spanPreAccept 64)]
       m.retired.entries = [] ∧ m.computeAttrsAt spanCommand ⟨2, 64, 1⟩ 0 false = ⟨1, [0, 0, 0]⟩ ∧
         m.greatestConflict spanCommand ⟨2, 64, 1⟩ 0 false ⟨1, 2⟩ = 5) ∧
      let m := n.run [.step (pointPreAccept 2 1 [1]), .step (pointPreAccept 3 1 [2])]
      m.retired.entries = [] ∧ m.computeAttrsAt pairCommand ⟨1, 1, 1⟩ 0 false = ⟨2, [0, 1, 0]⟩ ∧
        m.greatestConflict pairCommand ⟨1, 1, 1⟩ 0 false ⟨1, 3⟩ = 1 := by decide +kernel
  obtain ⟨n, hn⟩ := Option.isSome_iff_exists.mp hsome
  obtain ⟨⟨hlow, hattrs, hscan⟩, hlanes, hpair, hmissed⟩ := hall n hn
  exact ⟨n, hn, ⟨RawNode.unfolded_of_isEmpty hlow, hattrs, hscan⟩,
    RawNode.unfolded_of_isEmpty hlanes, hpair, hmissed⟩

namespace RawNode

variable {n : RawNode} {lane : InstanceLane} {ref : InstanceRef} {rec : InstanceRecord}
  {msg : Message}

/-! ### Conflicts of a TryPreAccept -/

/-- An eligible resident instance of the configuration that is in the way of a TryPreAccept. -/
def Violates (n : RawNode) (msg : Message) (ref : InstanceRef) (rec : InstanceRecord) : Prop :=
  ref.conf = msg.ref.conf ∧ n.record? ref = some rec ∧ recordConflictEligible rec = true ∧
    n.considerRecord msg rec = true

instance (n : RawNode) (msg : Message) (ref : InstanceRef) (rec : InstanceRecord) :
    Decidable (n.Violates msg ref rec) :=
  inferInstanceAs (Decidable (_ ∧ _ ∧ _ ∧ _))

/-- Whether a TryPreAccept comes to a record: the tried value has global scope, or a walk of its
footprint reaches the record. -/
def TryFound (n : RawNode) (msg : Message) (rec : InstanceRecord) : Prop :=
  recordHasGlobalConflictScope (tryCandidateRecord msg) = true ∨
    n.Reached msg.command.footprint rec

instance (n : RawNode) (msg : Message) (rec : InstanceRecord) : Decidable (n.TryFound msg rec) :=
  inferInstanceAs (Decidable (_ ∨ _))

theorem recordsConflict_of_considerRecord (hconsider : n.considerRecord msg rec = true) :
    recordsConflict (tryCandidateRecord msg) rec = true := by
  by_contra hnot
  rw [Bool.not_eq_true] at hnot
  simp [considerRecord, hnot] at hconsider

/-- Without folded instances the conflicts of some lanes are the visited records that are in the
way. -/
theorem mem_laneConflicts {lanes : List InstanceLane} {retired : InstanceLane → InstanceNum}
    (hretired : ∀ lane, retired lane = 0) {visit : InstanceLane → List InstanceRecord}
    {conflict : InstanceRef × Status} :
    (conflict ∈ lanes.flatMap fun lane ↦ n.laneConflicts msg lane (retired lane) (visit lane)) ↔
      ∃ lane ∈ lanes, ∃ rec ∈ visit lane, n.considerRecord msg rec = true ∧
        (rec.ref, rec.status) = conflict := by
  simp [laneConflicts, hretired, and_assoc]

/-- A record in the way of a command without global scope: the command names its resources. -/
theorem all_of_considerRecord (hconsider : n.considerRecord msg rec = true)
    (hcandidate : recordHasGlobalConflictScope (tryCandidateRecord msg) = false) :
    (tryCandidateRecord msg).command.footprint.all = false := by
  have hconflict := recordsConflict_of_considerRecord hconsider
  rw [recordsConflict] at hconflict
  split_ifs at hconflict with hkinds hglobal <;>
  · simp only [Bool.or_eq_true, decide_eq_true_eq, not_or] at hkinds
    obtain ⟨⟨⟨hnoop, -⟩, hunset⟩, -⟩ := hkinds
    exact all_eq_false hnoop hunset hcandidate

theorem conf_of_known {lane : InstanceLane} (hmem : lane ∈ n.engine.lanes msg.ref.conf)
    (hat : laneFor rec.ref = lane) : rec.ref.conf = msg.ref.conf := by
  subst hat
  exact beq_iff_eq.mp (List.mem_filter.mp hmem).2

section

variable (hn : n.index.Coherent)

include hn

/-- A record in the way is resident in a lane that the engine knows. -/
theorem resident_of_violates {conflict : InstanceRef × Status}
    (hrec : n.Violates msg conflict.1 rec) (hstatus : rec.status = conflict.2) :
    n.record? rec.ref = some rec ∧ laneFor rec.ref ∈ n.engine.lanes msg.ref.conf ∧
      (rec.ref, rec.status) = conflict := by
  obtain ⟨hconf, hrec, -, -⟩ := hrec
  have hkey : rec.ref = conflict.1 := hn.keyed.record_key _ hrec
  have hknown := known_of_record hn hrec
  rw [hconf, ← hkey] at hknown
  exact ⟨hkey ▸ hrec, hknown, Prod.ext hkey hstatus⟩

/-- The conflicts of a command that names its resources: those of its lanes, and the records of
global scope. -/
theorem mem_namedConflicts (hnamed : n.Named) (hunfolded : n.Unfolded)
    (hscope : recordHasGlobalConflictScope (tryCandidateRecord msg) = false)
    {conflict : InstanceRef × Status} :
    conflict ∈ ((n.footprintVisits msg.ref.conf (tryCandidateRecord msg).command.footprint).flatMap
        fun visit ↦ n.laneConflicts msg visit.1 visit.2.1 visit.2.2) ++
      (n.engine.lanes msg.ref.conf).flatMap (fun lane ↦
        n.laneConflicts msg lane (n.retiredLane lane).globalMax (n.globalRecords lane)) ↔
      ∃ rec, n.Violates msg conflict.1 rec ∧ n.TryFound msg rec ∧ rec.status = conflict.2 := by
  rw [List.mem_append, footprintVisits_eq, List.flatMap_map,
    mem_laneConflicts fun lane ↦ hunfolded.footprintMax_eq hn _ _,
    mem_laneConflicts fun lane ↦ (hunfolded lane).2]
  constructor
  · rintro (⟨lane, hmem, rec, hrec, hconsider, rfl⟩ | ⟨lane, hmem, rec, hrec, hconsider, rfl⟩)
    · rw [if_neg (by simpa using all_of_considerRecord hconsider hscope)] at hmem
      obtain ⟨hresident, rfl, hconf, heligible, -, hwithin⟩ :=
        (mem_footprintRecords hn hnamed).mp hrec
      rw [← hconf] at hmem
      exact ⟨rec, ⟨hconf, hresident, heligible, hconsider⟩, .inr (.inr ⟨hmem, hwithin⟩), rfl⟩
    · obtain ⟨hrec, hat, hglobal, heligible⟩ := (mem_globalRecords hn hnamed).mp hrec
      exact ⟨rec, ⟨conf_of_known hmem hat, hrec, heligible, hconsider⟩, .inr (.inl hglobal), rfl⟩
  · rintro ⟨rec, hrec, hfound, hstatus⟩
    obtain ⟨hresident, hknown, heq⟩ := resident_of_violates hn hrec hstatus
    obtain ⟨-, -, heligible, hconsider⟩ := hrec
    have hat : rec.ref.conf = msg.ref.conf := conf_of_known hknown rfl
    cases hglobal : recordHasGlobalConflictScope rec with
    | true =>
      exact .inr ⟨_, hknown, rec, (mem_globalRecords hn hnamed).mpr
        ⟨hresident, rfl, hglobal, heligible⟩, hconsider, heq⟩
    | false =>
      rcases hfound with hcandidate | hscoped | ⟨hmem, hwithin⟩
      · simp [hcandidate] at hscope
      · simp [hscoped] at hglobal
      · refine .inl ⟨laneFor rec.ref, ?_, rec, (mem_footprintRecords hn hnamed).mpr
          ⟨hresident, rfl, hat, heligible, hglobal, hwithin⟩, hconsider, heq⟩
        rw [if_neg (by simpa using all_of_considerRecord hconsider hscope), ← hat]
        exact hmem

/-- The conflicts met by a TryPreAccept: the records in its way that the walks come to. -/
theorem exists_conflicts (hnamed : n.Named) (hunfolded : n.Unfolded) :
    ∃ conflicts : List (InstanceRef × Status),
      n.tryPreAcceptConflict msg = conflicts.foldl (fun best conflict ↦ match best with
        | none => some conflict
        | some least => if conflict.1 < least.1 then some conflict else some least) none ∧
      ∀ conflict, conflict ∈ conflicts ↔ ∃ rec, n.Violates msg conflict.1 rec ∧
        n.TryFound msg rec ∧ rec.status = conflict.2 := by
  refine ⟨_, rfl, fun conflict ↦ ?_⟩
  split_ifs with hnoop hscope
  · refine iff_of_false (by simp) ?_
    rintro ⟨rec, ⟨-, -, -, hconsider⟩, -⟩
    have hconflict := recordsConflict_of_considerRecord hconsider
    simp [recordsConflict, hnoop] at hconflict
  · rw [mem_laneConflicts fun lane ↦ (hunfolded lane).1]
    constructor
    · rintro ⟨lane, hmem, rec, hrec, hconsider, rfl⟩
      obtain ⟨hrec, hat, heligible⟩ := (mem_eligibleRecords hn).mp hrec
      exact ⟨rec, ⟨conf_of_known hmem hat, hrec, heligible, hconsider⟩, .inl hscope, rfl⟩
    · rintro ⟨rec, hrec, -, hstatus⟩
      obtain ⟨hresident, hknown, heq⟩ := resident_of_violates hn hrec hstatus
      exact ⟨_, hknown, rec, (mem_eligibleRecords hn).mpr ⟨hresident, rfl, hrec.2.2.1⟩,
        hrec.2.2.2, heq⟩
  · exact mem_namedConflicts hn hnamed hunfolded (Bool.eq_false_of_not_eq_true hscope)

end

/-- The least of the records in the way of a TryPreAccept. -/
theorem exists_least (n : RawNode) (msg : Message) {ref : InstanceRef} {rec : InstanceRecord}
    (hrec : n.Violates msg ref rec) : ∃ least rec, n.Violates msg least rec ∧
      ∀ other rec, n.Violates msg other rec → least ≤ other := by
  obtain ⟨hnone, hsome⟩ := leastConflict_spec ((n.instances.entries.filter fun entry ↦
    decide (n.Violates msg entry.1 entry.2.record)).map fun entry ↦
      (entry.1, entry.2.record.status))
  have hmem : ∀ {ref rec}, n.Violates msg ref rec → (ref, rec.status) ∈
      (n.instances.entries.filter fun entry ↦ decide (n.Violates msg entry.1 entry.2.record)).map
        fun entry ↦ (entry.1, entry.2.record.status) := by
    intro ref rec hrec
    obtain ⟨inst, hget, rfl⟩ := Option.map_eq_some_iff.mp hrec.2.1
    exact List.mem_map.mpr ⟨(ref, inst), List.mem_filter.mpr
      ⟨(FiniteMap.mem_entries ..).mpr hget, decide_eq_true hrec⟩, rfl⟩
  generalize List.foldl _ none _ = found at hnone hsome
  cases found with
  | none => exact absurd (hnone.mp rfl ▸ hmem hrec) List.not_mem_nil
  | some least =>
    obtain ⟨hleast, hbelow⟩ := hsome least rfl
    obtain ⟨entry, hentry, rfl⟩ := List.mem_map.mp hleast
    exact ⟨entry.1, _, of_decide_eq_true (List.mem_filter.mp hentry).2, fun other rec hother ↦
      hbelow _ (hmem hother)⟩

/-- In every state that a node reaches and in which no instance is folded: a TryPreAccept meets a
conflict exactly if an eligible resident instance of its configuration is in its way, and the
conflict is the least one, exactly if the walks come to the least instance in its way. Assumes: no
compaction of the run finds its barrier as a mere promise, and resident instances have numbers. -/
theorem tryPreAcceptConflict_exact {id : ReplicaID} {cfg : Config} {base : VoterSet}
    {storage : Storage} (hnew : newRawNode id cfg base storage = some n) {calls : List Call}
    (hmeets : RunMeets SettlesBarrier n calls) {m : RawNode} (hrun : n.run calls = m)
    (hunfolded : m.Unfolded) (hnamed : m.Named) (msg : Message) :
    (((m.tryPreAcceptConflict msg).isSome = true ↔ ∃ ref rec, m.Violates msg ref rec) ∧
      ∀ ref status, m.tryPreAcceptConflict msg = some (ref, status) →
        (∃ rec, m.Violates msg ref rec ∧ rec.status = status) ∧
          ∀ other rec, m.Violates msg other rec → ref ≤ other) ↔
      ∀ ref rec, m.Violates msg ref rec → (∀ other rec, m.Violates msg other rec → ref ≤ other) →
        m.TryFound msg rec := by
  have hm : m.index.Coherent := hrun ▸ coherent_run (coherent_newRawNode hnew) hmeets
  obtain ⟨conflicts, hsearch, hmem⟩ := exists_conflicts hm hnamed hunfolded
  obtain ⟨hnone, hsome⟩ := leastConflict_spec conflicts
  rw [← hsearch] at hnone hsome
  constructor
  · rintro ⟨hreports, hreported⟩ ref rec hrec hleast
    obtain ⟨⟨found, status⟩, hfound⟩ := Option.isSome_iff_exists.mp (hreports.mpr ⟨ref, rec, hrec⟩)
    obtain ⟨-, hbelow⟩ := hreported found status hfound
    obtain ⟨other, hother, htry, -⟩ := (hmem _).mp (hsome _ hfound).1
    obtain rfl : found = ref := le_antisymm (hbelow ref rec hrec) (hleast found other hother)
    rwa [Option.some.inj (hrec.2.1.symm.trans hother.2.1)]
  · intro hreached
    refine ⟨⟨fun hreport ↦ ?_, fun ⟨ref, rec, hrec⟩ ↦ ?_⟩, fun ref status hfound ↦ ?_⟩
    · obtain ⟨conflict, hfound⟩ := Option.isSome_iff_exists.mp hreport
      obtain ⟨rec, hrec, -⟩ := (hmem _).mp (hsome _ hfound).1
      exact ⟨conflict.1, rec, hrec⟩
    · obtain ⟨least, rec, hleast, hbelow⟩ := exists_least m msg hrec
      rw [Option.isSome_iff_ne_none, Ne, hnone]
      exact List.ne_nil_of_mem ((hmem (least, rec.status)).mpr
        ⟨rec, hleast, hreached least rec hleast hbelow, rfl⟩)
    · obtain ⟨hconflict, hleast⟩ := hsome (ref, status) hfound
      obtain ⟨rec, hrec, -, hstatus⟩ := (hmem _).mp hconflict
      refine ⟨⟨rec, hrec, hstatus⟩, fun other otherRec hother ↦ ?_⟩
      obtain ⟨least, rec, hbest, hbelow⟩ := exists_least m msg hother
      exact (hleast (least, rec.status) ((hmem _).mpr
        ⟨rec, hbest, hreached least rec hbest hbelow, rfl⟩)).trans (hbelow other otherRec hother)

end RawNode

/-- A recovery of the first command of the third replica tries it without dependencies. -/
def spanTry : Message :=
  { type := .tryPreAccept, source := 3, target := 1, ref := ⟨3, 1, 1⟩, ballot := ⟨0, 1, 3⟩, seq := 1
    deps := [0, 0, 0], kind := .command, command := spanCommand }

/-- A recovery of a command for two keys tries it with the command for the first one as
dependency. -/
def pairTry : Message :=
  { type := .tryPreAccept, source := 2, target := 1, ref := ⟨2, 2, 1⟩, ballot := ⟨0, 1, 2⟩, seq := 2
    deps := [0, 1, 0], kind := .command, command := pairCommand }

theorem RawNode.tryPreAcceptConflict_exact_low :
    ∃ n, newRawNode 1 {} threeReplicas {} = some n ∧
      ((n.run [.step (pointPreAccept 2 5 [2]), .step (spanPreAccept 6)]).tryPreAcceptConflict
        spanTry).isSome = true := by
  have hsome : (newRawNode 1 {} threeReplicas {}).isSome = true := by decide +kernel
  have hall : ∀ n ∈ newRawNode 1 {} threeReplicas {},
      let calls := [.step (pointPreAccept 2 5 [2]), .step (spanPreAccept 6)]
      let m := n.run calls
      RunMeets SettlesBarrier n calls ∧ m.retired.entries = [] ∧ m.Named ∧
        (∀ entry ∈ m.instances.entries, m.TryFound spanTry entry.2.record) ∧
        ∃ rec ∈ m.record? ⟨2, 5, 1⟩, m.Violates spanTry ⟨2, 5, 1⟩ rec := by
    decide +kernel
  obtain ⟨n, hn⟩ := Option.isSome_iff_exists.mp hsome
  obtain ⟨hmeets, hempty, hnamed, hfound, rec, -, hviolates⟩ := hall n hn
  refine ⟨n, hn, ((tryPreAcceptConflict_exact hn hmeets rfl (unfolded_of_isEmpty hempty) hnamed
    spanTry).mpr fun ref rec hrec _ ↦ ?_).1.mpr ⟨_, rec, hviolates⟩⟩
  obtain ⟨inst, hget, rfl⟩ := Option.map_eq_some_iff.mp hrec.2.1
  exact hfound (ref, inst) ((FiniteMap.mem_entries ..).mpr hget)

/-- Once the replica knows of the sixty-fourth command, which depends on the one that is tried, it
does not find the fifth, which neither depends on it nor is among its dependencies. And it does not
find the command for the second of two keys, in another lane than the one for the first. -/
theorem tryPreAcceptConflict_misses :
    ∃ n, RawNode.newRawNode 1 {} threeReplicas {} = some n ∧
      (let m := n.run [.step (pointPreAccept 2 5 [2]), .step (spanPreAccept 64)]
       m.Unfolded ∧ m.tryPreAcceptConflict spanTry = none ∧
         ∃ rec, m.Violates spanTry ⟨2, 5, 1⟩ rec) ∧
      let m := n.run [.step (pointPreAccept 2 1 [1]), .step (pointPreAccept 3 1 [2])]
      m.Unfolded ∧ m.tryPreAcceptConflict pairTry = none ∧
        ∃ rec, m.Violates pairTry ⟨3, 1, 1⟩ rec := by
  have hsome : (RawNode.newRawNode 1 {} threeReplicas {}).isSome = true := by decide +kernel
  have hall : ∀ n ∈ RawNode.newRawNode 1 {} threeReplicas {},
      (let m := n.run [.step (pointPreAccept 2 5 [2]), .step (spanPreAccept 64)]
       m.retired.entries = [] ∧ m.tryPreAcceptConflict spanTry = none ∧
         ∃ rec ∈ m.record? ⟨2, 5, 1⟩, m.Violates spanTry ⟨2, 5, 1⟩ rec) ∧
      let m := n.run [.step (pointPreAccept 2 1 [1]), .step (pointPreAccept 3 1 [2])]
      m.retired.entries = [] ∧ m.tryPreAcceptConflict pairTry = none ∧
        ∃ rec ∈ m.record? ⟨3, 1, 1⟩, m.Violates pairTry ⟨3, 1, 1⟩ rec := by decide +kernel
  obtain ⟨n, hn⟩ := Option.isSome_iff_exists.mp hsome
  obtain ⟨⟨hlow, hnone, rec, -, hviolates⟩, hlanes, hmissed, other, -, hother⟩ := hall n hn
  exact ⟨n, hn, ⟨RawNode.unfolded_of_isEmpty hlow, hnone, rec, hviolates⟩,
    RawNode.unfolded_of_isEmpty hlanes, hmissed, other, hother⟩

end MoreConsensus
