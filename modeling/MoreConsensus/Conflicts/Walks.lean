import MoreConsensus.Conflicts.Footprints
import MoreConsensus.Conflicts.Trees
import MoreConsensus.Trackers

/-!
# Walks over the postings of a footprint

The engine holds the slots of the resident records and postings of their instances under the
resources of their footprints. `Contents` says which, and `EngineRun` follows it through any
sequence of updates. `walkFootprintDesc` starts in every posting tree from the same number, of which
a tree that is too low looks at the last digits only and loses postings
(`walkFootprintDesc_too_high`). The walk passes the residents posted under a touched resource up to
its start, each once, exactly if each of them is under a tree that has enough digits for it
(`EngineRun.walkFootprintDesc_exact`).
-/

set_option autoImplicit false

namespace MoreConsensus

open Library ConflictEngine

/-! ### Contents of an engine -/

/-- The slots of the residents, and which instances are posted under which resources. -/
structure Contents where
  slots : InstanceRef → Option LaneSlot := fun _ ↦ none
  posted : ConfID → Resource → InstanceLane → InstanceNum → Prop := fun _ _ _ _ ↦ False

namespace Contents

variable (c : Contents)

/-- Without a slot there is nothing to take out. -/
def remove (ref : InstanceRef) (rec : InstanceRecord) : Contents :=
  if c.slots ref = none then c
  else
    { slots := Function.update c.slots ref none
      posted := fun conf resource lane inst ↦ c.posted conf resource lane inst ∧
        ¬ (conf = ref.conf ∧ lane.ref inst = ref ∧ Listed rec resource) }

def put (rec : InstanceRecord) : Contents :=
  { slots := Function.update c.slots rec.ref (some (slotForRecord rec))
    posted := fun conf resource lane inst ↦ c.posted conf resource lane inst ∨
      (conf = rec.ref.conf ∧ lane.ref inst = rec.ref ∧ Listed rec resource) }

def apply (prev : Option InstanceRecord) (rec : InstanceRecord) : Contents :=
  (prev.elim c fun old ↦ c.remove old.ref old).put rec

end Contents

/-- An engine that is made by indexing, removing and folding records, and what it contains. -/
inductive EngineRun : ConflictEngine → Contents → Prop
  | empty : EngineRun {} {}
  | apply {e c} (hrun : EngineRun e c) (prev : Option InstanceRecord) (rec : InstanceRecord) :
      EngineRun (e.apply prev rec) (c.apply prev rec)
  | remove {e c} (hrun : EngineRun e c) (ref : InstanceRef) (rec : InstanceRecord) :
      EngineRun (e.remove ref rec) (c.remove ref rec)
  | foldRecord {e c} (hrun : EngineRun e c) (folded : InstanceNum) (rec : InstanceRecord) :
      EngineRun (e.foldRecord folded rec) (c.remove rec.ref rec)

/-- The engine has these contents. -/
structure Holds (e : ConflictEngine) (c : Contents) : Prop where
  sound : e.Sound
  slots : ∀ ref, e.slot ref = c.slots ref
  posted : ∀ conf resource lane inst, e.Posted conf resource lane inst ↔
    c.posted conf resource lane inst

namespace Holds

variable {e : ConflictEngine} {c : Contents}

theorem remove (hholds : Holds e c) (ref : InstanceRef) (rec : InstanceRecord) :
    Holds (e.remove ref rec) (c.remove ref rec) := by
  by_cases hslot : e.slot ref = none
  · have hsame : e.remove ref rec = e := by
      unfold ConflictEngine.remove
      rw [RadixTree.remove_eq_none.mpr hslot]
    rw [hsame, Contents.remove, if_pos ((hholds.slots ref).symm.trans hslot)]
    exact hholds
  · obtain ⟨hsound, hslots, -, hposted⟩ := remove_spec hholds.sound hslot rec
    rw [Contents.remove, if_neg fun hnone ↦ hslot ((hholds.slots ref).trans hnone)]
    refine ⟨hsound, fun other ↦ ?_, fun conf resource lane inst ↦ ?_⟩
    · rw [hslots, hholds.slots]
      exact (Function.update_apply ..).symm
    · rw [hposted, hholds.posted]

theorem put (hholds : Holds e c) (rec : InstanceRecord) :
    Holds (e.apply none rec) (c.put rec) := by
  obtain ⟨hsound, hslots, -, hposted⟩ := set_spec hholds.sound rec
  refine ⟨hsound, fun other ↦ ?_, fun conf resource lane inst ↦ ?_⟩
  · rw [hslots, hholds.slots]
    exact (Function.update_apply ..).symm
  · rw [hposted, hholds.posted]
    rfl

theorem apply (hholds : Holds e c) (prev : Option InstanceRecord) (rec : InstanceRecord) :
    Holds (e.apply prev rec) (c.apply prev rec) := by
  cases prev with
  | none => exact hholds.put rec
  | some old => exact (hholds.remove old.ref old).put rec

theorem ensureLane (hholds : Holds e c) (lane : InstanceLane) : Holds (e.ensureLane lane) c where
  sound :=
    { lanes := fun seen ↦ by
        rw [laneTree_ensureLane]
        exact hholds.sound.lanes seen
      postings := hholds.sound.postings
      points := hholds.sound.points }
  slots ref := by
    rw [slot, laneTree_ensureLane]
    exact hholds.slots ref
  posted := hholds.posted

/-- Folding takes a record out; the floors that it raises are not postings. -/
theorem foldRecord (hholds : Holds e c) (folded : InstanceNum) (rec : InstanceRecord) :
    Holds (e.foldRecord folded rec) (c.remove rec.ref rec) := by
  have hrest := (hholds.ensureLane (laneFor rec.ref)).remove rec.ref rec
  unfold ConflictEngine.foldRecord
  dsimp only
  split
  · exact hrest
  · obtain ⟨hsound, hlanes, hpostings, -⟩ := foldl_raise rec.ref.conf (laneFor rec.ref)
      hrest.sound rec.ref.inst (footprintResources rec.command.footprint)
    refine ⟨hsound, fun other ↦ ?_, fun conf resource lane inst ↦ ?_⟩
    · rw [slot_of_laneIndex hlanes]
      exact hrest.slots other
    · rw [Posted, hpostings]
      exact hrest.posted conf resource lane inst

end Holds

theorem EngineRun.holds {e : ConflictEngine} {c : Contents} (hrun : EngineRun e c) : Holds e c := by
  induction hrun with
  | empty =>
    exact ⟨sound_empty, fun _ ↦ rfl, fun _ _ _ inst ↦ iff_of_false (not_posted_empty _ _ _ inst) id⟩
  | apply _ prev rec ih => exact ih.apply prev rec
  | remove _ ref rec ih => exact ih.remove ref rec
  | foldRecord _ folded rec ih => exact ih.foldRecord folded rec

/-! ### Walks -/

/-- A posting tree is high enough for its largest number. -/
theorem PostingSet.log_max_le {postings : PostingSet}
    (hsound : RadixTree.Sound postingMeasure postings)
    {root : (level : ℕ) × Radix 64 Unit PostingSummary level} (hroot : root ∈ postings.root) :
    Nat.log 64 postings.max ≤ root.1 := by
  rw [RadixTree.log_le_iff one_lt_fanout, ← Nat.le_sub_one_iff_lt (Nat.pow_pos (by decide)),
    PostingSet.max, hsound.summary_eq, top_sum_le_iff _ rfl PostingSummary.maximum_add]
  rintro ⟨num, ⟨⟩⟩ hentry
  have hget := (RadixTree.mem_entries one_lt_fanout).mp hentry
  have hlow : Nat.log 64 num ≤ root.1 := by
    by_contra hhigh
    rw [RadixTree.get?, Option.mem_def.mp hroot, Option.elim_some, if_pos (not_le.mp hhigh)] at hget
    exact absurd hget (by simp)
  exact Nat.le_sub_one_of_lt ((RadixTree.log_le_iff one_lt_fanout).mp hlow)

/-- A walk from a number passes the postings up to the digits of it that the tree has, and a walk
from zero all of them. -/
theorem mem_walkPostings_iff {entry : KeyLane}
    (hsound : RadixTree.Sound postingMeasure entry.postings) {start inst : InstanceNum} :
    inst ∈ walkPostings start entry ↔ entry.postings.get? inst = some () ∧
      (start = 0 ∨ ∃ root ∈ entry.postings.root, inst ≤ start % 64 ^ (root.1 + 1)) := by
  rw [mem_walkPostings]
  refine and_congr_right fun hget ↦ ?_
  by_cases hzero : start = 0
  · rw [if_pos hzero]
    refine iff_of_true ?_ (.inl hzero)
    cases hroot : entry.postings.root with
    | none => simp [RadixTree.get?, hroot] at hget
    | some root =>
      refine ⟨root, rfl, ?_⟩
      have hlow := (RadixTree.log_le_iff one_lt_fanout).mp (PostingSet.log_max_le hsound hroot)
      rw [Nat.mod_eq_of_lt hlow]
      exact (PostingSet.max_le_iff hsound).mp le_rfl inst hget
  · simp [hzero]

/-- Whether a footprint has a part of a resource; one without limits has a part of each. -/
def Footprint.Overlaps (f : Footprint) (resource : Resource) : Prop :=
  f.all = true ∨ f.Touches resource

/-- The walk of a footprint passes the residents posted under a resource that the footprint
overlaps, up to its start or all of them when it starts from zero, each once and nothing else,
exactly if each of them is posted under a resource that the footprint names, in a tree that has
enough digits of the start. -/
theorem EngineRun.walkFootprintDesc_exact {e : ConflictEngine} {c : Contents} (hrun : EngineRun e c)
    (conf : ConfID) (f : Footprint) (lane : InstanceLane) (start : InstanceNum) :
    (((e.walkFootprintDesc conf f lane start).1.map Prod.fst).Nodup ∧
      ∀ inst slot, (inst, slot) ∈ (e.walkFootprintDesc conf f lane start).1 ↔
        c.slots (lane.ref inst) = some slot ∧ (start = 0 ∨ inst ≤ start) ∧
          ∃ resource, f.Overlaps resource ∧ c.posted conf resource lane inst) ↔
      ∀ inst, (c.slots (lane.ref inst)).isSome = true → start = 0 ∨ inst ≤ start →
        (∃ resource, f.Overlaps resource ∧ c.posted conf resource lane inst) →
          ∃ resource, f.Touches resource ∧ c.posted conf resource lane inst ∧
            (start = 0 ∨ ∃ root ∈ (e.keyLane conf resource lane).postings.root,
              inst ≤ start % 64 ^ (root.1 + 1)) := by
  have hholds := hrun.holds
  have hnodup : ((e.walkFootprintDesc conf f lane start).1.map Prod.fst).Nodup := by
    rw [walkFootprintDesc_eq, List.map_filterMap]
    refine (List.nodup_dedup _).filterMap fun first second num hfirst hsecond ↦ ?_
    simp only [Option.map_map, Option.mem_def, Option.map_eq_some_iff] at hfirst hsecond
    obtain ⟨_, -, hfirst⟩ := hfirst
    obtain ⟨_, -, hsecond⟩ := hsecond
    exact hfirst.trans hsecond.symm
  have hmem : ∀ inst slot, (inst, slot) ∈ (e.walkFootprintDesc conf f lane start).1 ↔
      c.slots (lane.ref inst) = some slot ∧ ∃ resource, f.Touches resource ∧
        c.posted conf resource lane inst ∧ (start = 0 ∨
          ∃ root ∈ (e.keyLane conf resource lane).postings.root,
            inst ≤ start % 64 ^ (root.1 + 1)) := by
    intro inst slot
    have hslot : (e.laneTree lane).get? inst = c.slots (lane.ref inst) := by
      rw [← hholds.slots, ConflictEngine.slot, laneFor_ref]
      rfl
    simp only [hholds.sound.mem_walkFootprintDesc, hslot, ← hholds.posted, Posted,
      mem_walkPostings_iff (hholds.sound.postings conf _ lane)]
  rw [and_iff_right hnodup]
  constructor
  · intro hexact inst hslot hle hposted
    obtain ⟨slot, hslot⟩ := Option.isSome_iff_exists.mp hslot
    exact ((hmem inst slot).mp ((hexact inst slot).mpr ⟨hslot, hle, hposted⟩)).2
  · intro hreached inst slot
    rw [hmem]
    refine and_congr_right fun hslot ↦ ⟨?_, ?_⟩
    · rintro ⟨resource, htouches, hposted, hwithin⟩
      refine ⟨hwithin.imp_right ?_, resource, .inr htouches, hposted⟩
      rintro ⟨root, -, hle⟩
      exact hle.trans (Nat.mod_le _ _)
    · rintro ⟨hle, hposted⟩
      exact hreached inst (Option.isSome_iff_exists.mpr ⟨slot, hslot⟩) hle hposted

/-- The record of an instance with one point. -/
def pointRecord (inst : InstanceNum) (point : Bytes) : InstanceRecord :=
  { ref := ⟨1, inst, 1⟩, status := .preAccepted
    command := { footprint := { points := [point] } } }

/-- A walk from sixty-nine passes a posting under five: in a tree of one digit it looks for numbers
up to five. -/
theorem walkFootprintDesc_exact_five :
    ∃ e c, EngineRun e c ∧ (5, slotForRecord (pointRecord 5 [7])) ∈
      (e.walkFootprintDesc 1 { points := [[7]] } ⟨1, 1⟩ 69).1 := by
  have hrun := EngineRun.empty.apply none (pointRecord 5 [7])
  have htouches : ({ points := [[7]] } : Footprint).Touches (.point [7]) := by decide
  have hposted : (Contents.apply {} none (pointRecord 5 [7])).posted 1 (.point [7]) ⟨1, 1⟩ 5 :=
    .inr ⟨rfl, rfl, rfl, rfl, by decide⟩
  refine ⟨_, _, hrun, (((hrun.walkFootprintDesc_exact 1 { points := [[7]] } ⟨1, 1⟩ 69).mpr ?_).2
    _ _).mpr ⟨rfl, .inr (by decide), .point [7], .inr htouches, hposted⟩⟩
  rintro inst - - ⟨resource, -, hfalse | ⟨-, href, -⟩⟩
  · exact hfalse.elim
  · obtain rfl : inst = 5 := congrArg InstanceRef.inst href
    exact ⟨.point [7], htouches, hposted, .inr (by decide +kernel)⟩

/-- A posting under five is not passed by a walk from sixty-four, and a footprint without limits
passes nothing. -/
theorem walkFootprintDesc_too_high :
    ∃ e c slot, EngineRun e c ∧ c.slots ⟨1, 5, 1⟩ = some slot ∧
      ({ points := [[7]] } : Footprint).Overlaps (.point [7]) ∧ c.posted 1 (.point [7]) ⟨1, 1⟩ 5 ∧
        (e.walkFootprintDesc 1 { points := [[7]] } ⟨1, 1⟩ 64).1 = [] ∧
          (e.walkFootprintDesc 1 { all := true } ⟨1, 1⟩ 0).1 = [] := by
  refine ⟨_, _, _, EngineRun.empty.apply none (pointRecord 5 [7]), rfl, ?_, ?_, ?_, ?_⟩
  · exact .inr (.inl ⟨[7], by decide, .inl rfl⟩)
  · exact .inr ⟨rfl, rfl, rfl, rfl, by decide⟩
  · decide +kernel
  · decide +kernel

end MoreConsensus
