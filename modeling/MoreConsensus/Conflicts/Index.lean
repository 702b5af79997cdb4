import MoreConsensus.Conflicts.Engine

/-!
# The engine as an index

What the engine holds is observed through the slot a lane tree has for an instance and what a
resource has for a lane (`keyLane`). Updates are described by what they do to both, and from there
by what becomes of the relation to a set of records (`Indexes`): every record has its slot, its
postings are under the resources of its footprint and nowhere else, and every tree has the
aggregates of its own slots.
-/

set_option autoImplicit false

namespace MoreConsensus

open Library

/-! ### Entries -/

theorem one_lt_fanout : 1 < 64 := by decide

/-- What the index keeps of a slot. -/
def LaneSlot.facts (slot : LaneSlot) : ℕ × Bool × Bool := (slot.seq, slot.eligible, slot.global)

/-- A tree without one slot, if it has it. -/
theorem RadixTree.get?_remove_getD {σ A : Type} [AddMonoid A] {measure : Measure σ A}
    {tree : RadixTree 64 σ A} (hsound : tree.Sound measure) (num : ℕ) :
    RadixTree.Sound measure ((tree.remove measure num).getD tree) ∧ ∀ other,
      ((tree.remove measure num).getD tree).get? other =
        if other = num then none else tree.get? other := by
  cases hremove : tree.remove measure num with
  | some rest => exact RadixTree.remove_eq_some one_lt_fanout hsound hremove
  | none =>
    refine ⟨hsound, fun other ↦ ?_⟩
    rw [Option.getD_none]
    split_ifs with hother
    · rw [hother, RadixTree.remove_eq_none.mp hremove]
    · rfl

namespace ConflictEngine

/-- What a resource has for a lane. -/
def keyLane (e : ConflictEngine) (conf : ConfID) (resource : Resource) (lane : InstanceLane) :
    KeyLane :=
  (((e.resources conf).find resource).bind fun lanes ↦ lanes.get? lane).getD {}

variable (e : ConflictEngine) (conf other : ConfID) (resource probe : Resource)
  (lane seen : InstanceLane)

theorem resources_ensureResource (f : KeyLane → KeyLane) :
    ((e.ensureResource conf lane f resource).resources other) =
      if other = conf then (e.resources conf).update resource ∅ fun lanes ↦
        lanes.insert lane (f ((lanes.get? lane).getD {}))
      else e.resources other := by
  simp only [resources, ensureResource, FiniteMap.get?_insert]
  split_ifs <;> rfl

theorem keyLane_ensureResource (f : KeyLane → KeyLane) :
    (e.ensureResource conf lane f resource).keyLane other probe seen =
      if other = conf ∧ probe = resource ∧ seen = lane then f (e.keyLane conf resource lane)
      else e.keyLane other probe seen := by
  simp only [keyLane, resources_ensureResource]
  by_cases hconf : other = conf
  · subst hconf
    by_cases hprobe : probe = resource
    · subst hprobe
      simp only [if_true, IntervalMap.find_update, Option.bind_some, FiniteMap.get?_insert,
        true_and]
      by_cases hseen : seen = lane
      · cases (e.resources other).find probe <;> simp [hseen]
      · cases (e.resources other).find probe <;> simp [hseen]
    · simp [IntervalMap.find_update, hprobe]
  · simp [hconf]

/-- A resource that has nothing for any lane has nothing for this one. -/
theorem keyLane_of_empty {lanes : KeyLanes} (hempty : resourceEntryEmpty lanes = true) :
    (lanes.get? lane).getD {} = {} := by
  cases hget : lanes.get? lane with
  | none => rfl
  | some entry =>
    have hentry := List.all_eq_true.mp hempty (lane, entry) ((lanes.mem_entries ..).mpr hget)
    simp only [Bool.and_eq_true, Option.isNone_iff_eq_none, beq_iff_eq] at hentry
    obtain ⟨⟨root⟩, floor⟩ := entry
    obtain ⟨rfl, rfl⟩ := hentry
    rfl

theorem find_deleteResource :
    ((e.deleteResource conf resource).resources other).find probe =
      if other = conf ∧ probe = resource then none else (e.resources other).find probe := by
  have hfind : ∀ map : IntervalMap Bytes KeyLanes, (((if map.isEmpty then e.intervals.erase conf
      else e.intervals.insert conf map).get? other).getD ∅).find probe =
        if other = conf then map.find probe else (e.resources other).find probe := by
    intro map
    by_cases hempty : map.isEmpty = true
    · rw [if_pos hempty, FiniteMap.get?_erase]
      split_ifs
      · rw [Option.getD_none, IntervalMap.find_empty, IntervalMap.find_of_isEmpty hempty]
      · rfl
    · rw [if_neg hempty, FiniteMap.get?_insert]
      split_ifs <;> rfl
  rw [resources, deleteResource]
  dsimp only
  rw [hfind, IntervalMap.find_erase]
  by_cases hconf : other = conf
  · subst hconf
    simp
  · simp [hconf]

theorem keyLane_withoutPosting {lanes : KeyLanes} (inst : InstanceNum) (entry : KeyLane) :
    ((withoutPosting lanes lane inst entry).get? seen).getD {} =
      if seen = lane then entry.without inst else (lanes.get? seen).getD {} := by
  unfold withoutPosting
  dsimp only
  split_ifs with hempty hseen hseen
  · rw [FiniteMap.get?_erase, if_pos hseen]
    simp only [Bool.and_eq_true, Option.isNone_iff_eq_none, beq_iff_eq] at hempty
    generalize entry.without inst = rest at hempty ⊢
    obtain ⟨⟨root⟩, floor⟩ := rest
    obtain ⟨rfl, rfl⟩ := hempty
    rfl
  · rw [FiniteMap.get?_erase, if_neg hseen]
  · rw [FiniteMap.get?_insert, if_pos hseen, Option.getD_some]
  · rw [FiniteMap.get?_insert, if_neg hseen]

theorem keyLane_setResource (lanes : KeyLanes) :
    (e.setResource conf resource lanes).keyLane other probe seen =
      if other = conf ∧ probe = resource then (lanes.get? seen).getD {}
      else e.keyLane other probe seen := by
  unfold setResource
  split_ifs with hempty hat hat
  · rw [keyLane, find_deleteResource, if_pos hat, keyLane_of_empty seen hempty]
    rfl
  · rw [keyLane, find_deleteResource, if_neg hat]
    rfl
  · obtain ⟨rfl, rfl⟩ := hat
    simp [keyLane, resources, IntervalMap.find_update]
  · simp only [keyLane, resources, FiniteMap.get?_insert]
    by_cases hconf : other = conf
    · subst hconf
      have hprobe : probe ≠ resource := fun hprobe ↦ hat ⟨rfl, hprobe⟩
      simp [IntervalMap.find_update, hprobe]
    · simp [hconf]

theorem keyLane_removeResourcePosting (inst : InstanceNum) :
    (e.removeResourcePosting conf lane inst resource).keyLane other probe seen =
      if other = conf ∧ probe = resource ∧ seen = lane then
        (e.keyLane conf resource lane).without inst
      else e.keyLane other probe seen := by
  have habsent : e.keyLane conf resource lane = {} → e.keyLane other probe seen =
      if other = conf ∧ probe = resource ∧ seen = lane then
        (e.keyLane conf resource lane).without inst
      else e.keyLane other probe seen := by
    intro hnone
    split_ifs with hat
    · obtain ⟨rfl, rfl, rfl⟩ := hat
      rw [hnone]
      rfl
    · rfl
  unfold removeResourcePosting
  cases hfind : (e.resources conf).find resource with
  | none => exact habsent (by rw [keyLane, hfind]; rfl)
  | some lanes =>
    have hlanes : ∀ seen, e.keyLane conf resource seen = (lanes.get? seen).getD {} := fun seen ↦ by
      rw [keyLane, hfind, Option.bind_some]
    dsimp only
    cases hget : lanes.get? lane with
    | none => exact habsent (by rw [hlanes, hget]; rfl)
    | some entry =>
      dsimp only
      rw [keyLane_setResource, keyLane_withoutPosting, hlanes, hget, Option.getD_some]
      by_cases hat : other = conf ∧ probe = resource
      · obtain ⟨rfl, rfl⟩ := hat
        simp only [true_and, if_true, hlanes]
      · rw [if_neg hat, if_neg fun hall ↦ hat ⟨hall.1, hall.2.1⟩]

/-! ### Points -/

/-- The map of points has the points of the tree. -/
def PointsKnown : Prop :=
  ∀ conf key, (e.pointKeys conf).contains key = ((e.resources conf).find (.point key)).isSome

variable {e}

theorem PointsKnown.ensureResource (hknown : e.PointsKnown) (f : KeyLane → KeyLane) :
    (e.ensureResource conf lane f resource).PointsKnown := by
  intro other key
  have hfind : (((e.ensureResource conf lane f resource).resources other).find
      (.point key)).isSome =
      (decide (other = conf ∧ Extent.point key = resource) ||
        ((e.resources other).find (.point key)).isSome) := by
    rw [resources_ensureResource]
    by_cases hconf : other = conf
    · subst hconf
      rw [if_pos rfl, IntervalMap.find_update]
      by_cases hkey : Extent.point key = resource <;> simp [hkey]
    · simp [hconf]
  have hkeys : (e.ensureResource conf lane f resource).pointKeys other =
      if other = conf ∧ ((e.resources conf).find resource).isNone ∧ resource.isPoint = true then
        (e.pointKeys conf).insert resource.start () else e.pointKeys other := by
    simp only [pointKeys, ConflictEngine.ensureResource, Bool.and_eq_true]
    by_cases hfresh : ((e.resources conf).find resource).isNone = true ∧ resource.isPoint = true
    · by_cases hconf : other = conf
      · simp [hfresh, hconf]
      · simp [hfresh, hconf, FiniteMap.get?_insert]
    · rw [if_neg hfresh, if_neg fun hall ↦ hfresh hall.2]
  rw [hfind, hkeys]
  by_cases hat : other = conf ∧ Extent.point key = resource
  · obtain ⟨rfl, rfl⟩ := hat
    have hold := hknown other key
    cases hpresent : (e.resources other).find (.point key) with
    | none => simp [FiniteMap.contains, Extent.isPoint, Extent.start]
    | some lanes => simpa [hpresent] using hold
  · rw [decide_eq_false hat, Bool.false_or, ← hknown]
    split_ifs with hfresh
    · obtain ⟨rfl, -, hpoint⟩ := hfresh
      have hkey : key ≠ resource.start := by
        rintro rfl
        refine hat ⟨rfl, ?_⟩
        cases resource with
        | point key => rfl
        | span start stop => simp [Extent.isPoint] at hpoint
      simp [FiniteMap.contains, FiniteMap.get?_insert, hkey]
    · rfl

theorem PointsKnown.deleteResource (hknown : e.PointsKnown) :
    (e.deleteResource conf resource).PointsKnown := by
  intro other key
  have hkeys : ((e.deleteResource conf resource).pointKeys other).contains key =
      if other = conf ∧ resource = .point key then false else (e.pointKeys other).contains key := by
    have hget : ∀ keys : FiniteMap Bytes Unit, (((if keys.entries.isEmpty then e.points.erase conf
        else e.points.insert conf keys).get? other).getD ∅).contains key =
          if other = conf then keys.contains key else (e.pointKeys other).contains key := by
      intro keys
      by_cases hempty : keys.entries.isEmpty = true
      · rw [if_pos hempty, FiniteMap.get?_erase]
        have hnone : keys.contains key = false := by
          rw [← Bool.not_eq_true, FiniteMap.contains_iff_mem_keys, FiniteMap.keys,
            List.isEmpty_iff.mp hempty]
          simp
        split_ifs
        · rw [hnone]
          rfl
        · rfl
      · rw [if_neg hempty, FiniteMap.get?_insert]
        split_ifs <;> rfl
    rw [pointKeys, ConflictEngine.deleteResource]
    cases resource with
    | span start stop => simp [Extent.isPoint, pointKeys]
    | point place =>
      have hpoint : ¬ (!(Extent.point place).isPoint) = true := by simp [Extent.isPoint]
      rw [if_neg hpoint]
      refine (hget ((e.pointKeys conf).erase place)).trans ?_
      simp only [Extent.point.injEq]
      by_cases hconf : other = conf
      · subst hconf
        by_cases hkey : key = place
        · simp [hkey, FiniteMap.contains, FiniteMap.get?_erase]
        · simp [hkey, Ne.symm hkey, FiniteMap.contains, FiniteMap.get?_erase]
      · simp [hconf]
  rw [hkeys, find_deleteResource, hknown]
  by_cases hat : other = conf ∧ resource = .point key
  · rw [if_pos hat, if_pos ⟨hat.1, hat.2.symm⟩]
    rfl
  · rw [if_neg hat, if_neg fun hsame ↦ hat ⟨hsame.1, hsame.2.symm⟩]

theorem PointsKnown.removeResourcePosting (hknown : e.PointsKnown) (inst : InstanceNum) :
    (e.removeResourcePosting conf lane inst resource).PointsKnown := by
  unfold ConflictEngine.removeResourcePosting
  split
  · exact hknown
  next lanes hfind =>
  split
  · exact hknown
  unfold setResource
  split_ifs
  · exact hknown.deleteResource _ _
  · intro other key
    refine (hknown other key).trans ?_
    simp only [resources, FiniteMap.get?_insert]
    by_cases hconf : other = conf
    · subst hconf
      rw [if_pos rfl, Option.getD_some, IntervalMap.find_update]
      split_ifs with hkey
      · change ((e.resources other).find (.point key)).isSome = _
        rw [hkey, hfind]
        rfl
      · rfl
    · rw [if_neg hconf]

/-! ### Postings -/

variable (e) in
/-- Whether an instance has a posting under a resource. -/
def Posted (inst : InstanceNum) : Prop :=
  (e.keyLane conf resource lane).postings.get? inst = some ()

/-- Every tree has the aggregates of its own slots, and the points are known. -/
structure Sound (e : ConflictEngine) : Prop where
  lanes : ∀ lane, (e.laneTree lane).Sound laneMeasure
  postings : ∀ conf resource lane, (e.keyLane conf resource lane).postings.Sound postingMeasure
  points : e.PointsKnown

theorem sound_empty : Sound {} where
  lanes _ := RadixTree.sound_empty
  postings _ _ _ := RadixTree.sound_empty
  points _ _ := rfl

theorem not_posted_empty (inst : InstanceNum) : ¬ Posted {} conf resource lane inst := by
  change RadixTree.get? {} inst ≠ some ()
  simp [RadixTree.get?]

theorem Sound.ensureResource (hsound : e.Sound) {f : KeyLane → KeyLane}
    (hf : ∀ entry : KeyLane, entry.postings.Sound postingMeasure →
      (f entry).postings.Sound postingMeasure) :
    (e.ensureResource conf lane f resource).Sound where
  lanes := hsound.lanes
  postings other probe seen := by
    rw [keyLane_ensureResource]
    split_ifs
    · exact hf _ (hsound.postings _ _ _)
    · exact hsound.postings _ _ _
  points := hsound.points.ensureResource _ _ _ f

theorem laneIndex_removeResourcePosting (inst : InstanceNum) :
    (e.removeResourcePosting conf lane inst resource).laneIndex = e.laneIndex := by
  unfold removeResourcePosting
  split
  · rfl
  split
  · rfl
  unfold setResource
  split_ifs <;> rfl

theorem Sound.removeResourcePosting (hsound : e.Sound) (inst : InstanceNum) :
    (e.removeResourcePosting conf lane inst resource).Sound where
  lanes seen := by
    rw [laneTree, laneIndex_removeResourcePosting]
    exact hsound.lanes seen
  postings other probe seen := by
    rw [keyLane_removeResourcePosting]
    split_ifs
    · exact (RadixTree.get?_remove_getD (hsound.postings _ _ _) inst).1
    · exact hsound.postings _ _ _
  points := hsound.points.removeResourcePosting _ _ _ inst

/-- What a change of postings leaves: the entries at some places change as `op` says. -/
structure Reposts (op : Prop → Prop → Prop)
    (places : ConfID → Resource → InstanceLane → InstanceNum → Prop) (e rest : ConflictEngine) :
    Prop where
  sound : rest.Sound
  lanes : rest.laneIndex = e.laneIndex
  floors : ∀ other probe seen, (rest.keyLane other probe seen).retiredFloor =
    (e.keyLane other probe seen).retiredFloor
  posted : ∀ other probe seen num, rest.Posted other probe seen num ↔
    op (e.Posted other probe seen num) (places other probe seen num)

theorem reposts_removeResourcePosting (inst : InstanceNum) (hsound : e.Sound) :
    Reposts (fun posted place ↦ posted ∧ ¬ place)
      (fun other probe seen num ↦ other = conf ∧ probe = resource ∧ seen = lane ∧ num = inst) e
      (e.removeResourcePosting conf lane inst resource) where
  sound := hsound.removeResourcePosting ..
  lanes := laneIndex_removeResourcePosting ..
  floors other probe seen := by
    rw [keyLane_removeResourcePosting]
    split_ifs with hat
    · obtain ⟨rfl, rfl, rfl⟩ := hat
      rfl
    · rfl
  posted other probe seen num := by
    rw [Posted, keyLane_removeResourcePosting]
    split_ifs with hat
    · obtain ⟨rfl, rfl, rfl⟩ := hat
      rw [KeyLane.without, (RadixTree.get?_remove_getD (hsound.postings _ _ _) inst).2]
      by_cases hnum : num = inst <;> simp [hnum, Posted]
    · exact (and_iff_left fun hplace ↦ hat ⟨hplace.1, hplace.2.1, hplace.2.2.1⟩).symm

theorem reposts_posting (inst : InstanceNum) (hsound : e.Sound) :
    Reposts Or
      (fun other probe seen num ↦ other = conf ∧ probe = resource ∧ seen = lane ∧ num = inst) e
      (e.ensureResource conf lane (KeyLane.posting inst) resource) where
  sound := hsound.ensureResource _ _ _ fun _ hentry ↦ hentry.set inst ()
  lanes := rfl
  floors other probe seen := by
    rw [keyLane_ensureResource]
    split_ifs with hat
    · obtain ⟨rfl, rfl, rfl⟩ := hat
      rfl
    · rfl
  posted other probe seen num := by
    rw [Posted, keyLane_ensureResource]
    split_ifs with hat
    · obtain ⟨rfl, rfl, rfl⟩ := hat
      rw [KeyLane.posting, RadixTree.get?_set one_lt_fanout]
      by_cases hnum : num = inst <;> simp [hnum, Posted]
    · exact (or_iff_left fun hplace ↦ hat ⟨hplace.1, hplace.2.1, hplace.2.2.1⟩).symm

/-- Floors are raised one resource after the other. -/
theorem foldl_raise (hsound : e.Sound) (inst : InstanceNum) (resources : List Resource) :
    let rest := resources.foldl (fun e resource ↦
      e.ensureResource conf lane (KeyLane.raise inst) resource) e
    rest.Sound ∧ rest.laneIndex = e.laneIndex ∧
      (∀ other probe seen, (rest.keyLane other probe seen).postings =
        (e.keyLane other probe seen).postings) ∧
      ∀ other probe seen, (rest.keyLane other probe seen).retiredFloor ≤
        max (e.keyLane other probe seen).retiredFloor (if seen = lane then inst else 0) := by
  induction resources generalizing e with
  | nil => exact ⟨hsound, rfl, fun _ _ _ ↦ rfl, fun _ _ _ ↦ le_max_left ..⟩
  | cons resource resources ih =>
    obtain ⟨hrest, hlanes, hpostings, hfloors⟩ :=
      ih (e := e.ensureResource conf lane (KeyLane.raise inst) resource)
        (hsound.ensureResource _ _ _ fun _ hentry ↦ hentry)
    refine ⟨hrest, hlanes, fun other probe seen ↦ ?_, fun other probe seen ↦ ?_⟩
    · rw [List.foldl_cons, hpostings, keyLane_ensureResource]
      split_ifs with hat
      · obtain ⟨rfl, rfl, rfl⟩ := hat
        rfl
      · rfl
    · refine (hfloors other probe seen).trans ?_
      rw [keyLane_ensureResource]
      split_ifs with hat hseen hseen
      · obtain ⟨rfl, rfl, rfl⟩ := hat
        exact max_le (Nat.max_le.mpr ⟨le_max_left .., le_max_right ..⟩) (le_max_right ..)
      · exact absurd hat.2.2 hseen
      · exact le_rfl
      · exact le_rfl

/-! ### Records -/

variable (e) in
/-- The slot of an instance. -/
def slot (ref : InstanceRef) : Option LaneSlot := (e.laneTree (laneFor ref)).get? ref.inst

/-- Whether a record has a posting under a resource. -/
def Listed (rec : InstanceRecord) (resource : Resource) : Prop :=
  recordConflictEligible rec = true ∧ recordHasGlobalConflictScope rec = false ∧
    resource ∈ footprintResources rec.command.footprint

/-- The engine is the index of a set of records. -/
structure Indexes (e : ConflictEngine) (records : InstanceRef → Option InstanceRecord) : Prop where
  sound : e.Sound
  /-- Every record has its slot, and there are no others. -/
  slots : ∀ ref, (e.slot ref).map LaneSlot.facts =
    (records ref).map fun rec ↦ (slotForRecord rec).facts
  /-- Every record is under its resources, and nothing else is. -/
  posted : ∀ conf resource lane inst, e.Posted conf resource lane inst ↔
    lane.conf = conf ∧ ∃ rec, records (lane.ref inst) = some rec ∧ Listed rec resource

variable {records : InstanceRef → Option InstanceRecord} {ref : InstanceRef} {rec : InstanceRecord}

theorem ref_eq_iff (lane : InstanceLane) (inst : InstanceNum) (ref : InstanceRef) :
    lane.ref inst = ref ↔ lane = laneFor ref ∧ inst = ref.inst := by
  obtain ⟨conf, replica⟩ := lane
  obtain ⟨owner, num, id⟩ := ref
  simp only [InstanceLane.ref, laneFor, InstanceRef.mk.injEq, InstanceLane.mk.injEq]
  tauto

/-- The postings of a record change one resource after the other. -/
theorem reposts_record {op : Prop → Prop → Prop} (hop : ∀ p a b, op (op p a) b ↔ op p (a ∨ b))
    (hnone : ∀ p, op p False ↔ p) {touch : ConflictEngine → Resource → ConflictEngine}
    (htouch : ∀ e resource, Sound e → Reposts op (fun other probe seen num ↦
      other = ref.conf ∧ probe = resource ∧ seen = laneFor ref ∧ num = ref.inst) e
        (touch e resource))
    (hsound : e.Sound) (rec : InstanceRecord) :
    Reposts op (fun other probe seen num ↦ other = ref.conf ∧ seen.ref num = ref ∧
      Listed rec probe) e
      (if !recordConflictEligible rec || recordHasGlobalConflictScope rec then e
        else (footprintResources rec.command.footprint).foldl touch e) := by
  have hfold : ∀ resources : List Resource,
      Reposts op (fun other probe seen num ↦ other = ref.conf ∧
      probe ∈ resources ∧ seen = laneFor ref ∧ num = ref.inst) e (resources.foldl touch e) := by
    intro resources
    induction resources generalizing e with
    | nil => exact ⟨hsound, rfl, fun _ _ _ ↦ rfl, fun _ _ _ _ ↦ by simp [hnone]⟩
    | cons resource resources ih =>
      have hfirst := htouch e resource hsound
      have hrest := ih hfirst.sound
      refine ⟨hrest.sound, hrest.lanes.trans hfirst.lanes,
        fun other probe seen ↦ (hrest.floors ..).trans (hfirst.floors ..),
        fun other probe seen num ↦ (hrest.posted ..).trans ?_⟩
      rw [hfirst.posted, hop, List.mem_cons, or_and_right, and_or_left]
  split_ifs with hskip
  · refine ⟨hsound, rfl, fun _ _ _ ↦ rfl, fun other probe seen num ↦ ?_⟩
    refine (hnone _).symm.trans (iff_of_eq (congrArg (op _) (eq_false fun hat ↦ ?_).symm))
    obtain ⟨-, -, heligible, hglobal, -⟩ := hat
    simp [heligible, hglobal] at hskip
  · obtain ⟨hrest, hlanes, hfloors, hposted⟩ := hfold (footprintResources rec.command.footprint)
    simp only [Bool.or_eq_true, Bool.not_eq_true', not_or, Bool.not_eq_false,
      Bool.not_eq_true] at hskip
    refine ⟨hrest, hlanes, hfloors, fun other probe seen num ↦ (hposted ..).trans ?_⟩
    rw [ref_eq_iff, Listed, eq_true hskip.1, eq_true hskip.2, true_and, true_and,
      and_comm (a := _ ∈ _)]

/-- The postings of a record that is taken out go. -/
theorem unpost_spec (hsound : e.Sound) (ref : InstanceRef) (rec : InstanceRecord) :
    Reposts (fun posted place ↦ posted ∧ ¬ place)
      (fun other probe seen num ↦ other = ref.conf ∧ seen.ref num = ref ∧ Listed rec probe) e
      (if !recordConflictEligible rec || recordHasGlobalConflictScope rec then e
        else (footprintResources rec.command.footprint).foldl
          (fun e resource ↦ e.removeResourcePosting ref.conf (laneFor ref) ref.inst resource) e) :=
  reposts_record (fun _ _ _ ↦ by tauto) (fun _ ↦ by simp)
    (fun _ _ hsound ↦ reposts_removeResourcePosting _ _ _ _ hsound) hsound rec

/-- The postings of a record are put in. -/
theorem post_spec (hsound : e.Sound) (rec : InstanceRecord) :
    Reposts Or (fun other probe seen num ↦
      other = rec.ref.conf ∧ seen.ref num = rec.ref ∧ Listed rec probe) e (e.post rec) :=
  reposts_record (fun _ _ _ ↦ or_assoc) (fun _ ↦ by simp)
    (fun _ _ hsound ↦ reposts_posting _ _ _ _ hsound) hsound rec

/-- Setting the tree of a lane. -/
theorem laneTree_insert (tree : LaneTree) (resident : ℕ) (seen : InstanceLane) :
    laneTree { e with laneIndex := e.laneIndex.insert lane tree, resident := resident } seen =
      if seen = lane then tree else e.laneTree seen := by
  simp only [laneTree, FiniteMap.get?_insert]
  split_ifs <;> rfl

theorem laneFor_eq_iff {ref other : InstanceRef} :
    other = ref ↔ laneFor other = laneFor ref ∧ other.inst = ref.inst := by
  obtain ⟨replica, inst, conf⟩ := ref
  obtain ⟨owner, num, id⟩ := other
  simp only [laneFor, InstanceRef.mk.injEq, InstanceLane.mk.injEq]
  tauto

/-- Setting the tree of a lane to one that differs in one slot. -/
theorem slot_insert {tree : LaneTree} {value : Option LaneSlot} (resident : ℕ)
    (htree : ∀ num, tree.get? num =
      if num = ref.inst then value else (e.laneTree (laneFor ref)).get? num) (other : InstanceRef) :
    slot { e with laneIndex := e.laneIndex.insert (laneFor ref) tree, resident := resident } other =
      if other = ref then value else e.slot other := by
  rw [slot, laneTree_insert]
  by_cases hlane : laneFor other = laneFor ref
  · rw [if_pos hlane, htree, slot, hlane]
    simp only [laneFor_eq_iff, hlane, true_and]
  · rw [if_neg hlane, if_neg fun heq ↦ hlane (congrArg laneFor heq), slot]

/-- Setting the tree of a lane leaves the rest sound. -/
theorem Sound.insert (hsound : e.Sound) {tree : LaneTree} (htree : tree.Sound laneMeasure)
    (resident : ℕ) :
    Sound { e with laneIndex := e.laneIndex.insert lane tree, resident := resident } where
  lanes seen := by
    rw [laneTree_insert]
    split_ifs
    · exact htree
    · exact hsound.lanes seen
  postings := hsound.postings
  points := hsound.points

theorem slot_of_laneIndex {other : ConflictEngine} (hlanes : other.laneIndex = e.laneIndex)
    (ref : InstanceRef) : other.slot ref = e.slot ref := by
  rw [slot, slot, laneTree, laneTree, hlanes]

/-- What taking a record out that has its slot does. -/
theorem remove_spec (hsound : e.Sound) (hslot : e.slot ref ≠ none) (rec : InstanceRecord) :
    (e.remove ref rec).Sound ∧
      (∀ other, (e.remove ref rec).slot other = if other = ref then none else e.slot other) ∧
      (∀ other probe seen, ((e.remove ref rec).keyLane other probe seen).retiredFloor =
        (e.keyLane other probe seen).retiredFloor) ∧
      ∀ other probe seen num, (e.remove ref rec).Posted other probe seen num ↔
        e.Posted other probe seen num ∧
          ¬ (other = ref.conf ∧ seen.ref num = ref ∧ Listed rec probe) := by
  unfold remove
  cases hremove : (e.laneTree (laneFor ref)).remove laneMeasure ref.inst with
  | none => exact absurd (RadixTree.remove_eq_none.mp hremove) hslot
  | some tree =>
    obtain ⟨htree, hget⟩ :=
      RadixTree.remove_eq_some one_lt_fanout (hsound.lanes (laneFor ref)) hremove
    obtain ⟨hrest, hlanes, hfloors, hposted⟩ :=
      unpost_spec (hsound.insert (laneFor ref) htree (e.resident - 1)) ref rec
    exact ⟨hrest, fun other ↦ (slot_of_laneIndex hlanes other).trans (slot_insert _ hget other),
      hfloors, hposted⟩

theorem Indexes.remove (hindexes : Indexes e records) (hrec : records ref = some rec) :
    Indexes (e.remove ref rec) (Function.update records ref none) := by
  have hslot : e.slot ref ≠ none := by
    intro hnone
    have hslots := hindexes.slots ref
    simp [hnone, hrec] at hslots
  obtain ⟨hsound, hslots, -, hposted⟩ := remove_spec hindexes.sound hslot rec
  refine ⟨hsound, fun other ↦ ?_, fun conf resource lane inst ↦ ?_⟩
  · rw [hslots, Function.update_apply]
    split_ifs
    · rfl
    · exact hindexes.slots other
  · rw [hposted, hindexes.posted, Function.update_apply]
    by_cases hat : lane.ref inst = ref
    · rw [if_pos hat]
      refine iff_of_false (fun hlisted ↦ hlisted.2 ?_) (by simp)
      obtain ⟨⟨rfl, found, hfound, hresource⟩, -⟩ := hlisted
      rw [hat, hrec, Option.some.injEq] at hfound
      exact ⟨congrArg InstanceRef.conf hat, hat, hfound ▸ hresource⟩
    · rw [if_neg hat]
      exact and_iff_left fun hall ↦ hat hall.2.1

/-- What putting a record in does. -/
theorem set_spec (hsound : e.Sound) (rec : InstanceRecord) :
    (e.apply none rec).Sound ∧
      (∀ other, (e.apply none rec).slot other =
        if other = rec.ref then some (slotForRecord rec) else e.slot other) ∧
      (∀ other probe seen, ((e.apply none rec).keyLane other probe seen).retiredFloor =
        (e.keyLane other probe seen).retiredFloor) ∧
      ∀ other probe seen num, (e.apply none rec).Posted other probe seen num ↔
        e.Posted other probe seen num ∨
          (other = rec.ref.conf ∧ seen.ref num = rec.ref ∧ Listed rec probe) := by
  have htree := (hsound.lanes (laneFor rec.ref)).set rec.ref.inst (slotForRecord rec)
  obtain ⟨hrest, hlanes, hfloors, hposted⟩ := post_spec (hsound.insert (laneFor rec.ref) htree
    (if ((e.laneTree (laneFor rec.ref)).get? rec.ref.inst).isSome then e.resident
      else e.resident + 1)) rec
  exact ⟨hrest, fun other ↦ (slot_of_laneIndex hlanes other).trans (slot_insert _
    (fun num ↦ RadixTree.get?_set one_lt_fanout ..) other), hfloors, hposted⟩

/-- Assumes: whatever was under the resources of the record that is replaced is under those of the
new one. -/
theorem Indexes.set (hindexes : Indexes e records)
    (hstale : ∀ old, records rec.ref = some old → ∀ resource, Listed old resource →
      Listed rec resource) :
    Indexes (e.apply none rec) (Function.update records rec.ref (some rec)) := by
  obtain ⟨hsound, hslots, -, hposted⟩ := set_spec hindexes.sound rec
  refine ⟨hsound, fun other ↦ ?_, fun conf resource lane inst ↦ ?_⟩
  · rw [hslots, Function.update_apply]
    split_ifs
    · rfl
    · exact hindexes.slots other
  · rw [hposted, hindexes.posted, Function.update_apply]
    by_cases hat : lane.ref inst = rec.ref
    · rw [if_pos hat]
      have hconf : lane.conf = rec.ref.conf := congrArg InstanceRef.conf hat
      constructor
      · rintro (⟨rfl, old, hold, hresource⟩ | ⟨rfl, -, hresource⟩)
        · exact ⟨rfl, rec, rfl, hstale old (hat ▸ hold) resource hresource⟩
        · exact ⟨hconf, rec, rfl, hresource⟩
      · rintro ⟨rfl, found, hfound, hresource⟩
        rw [Option.some.injEq] at hfound
        exact Or.inr ⟨hconf, hat, hfound ▸ hresource⟩
    · rw [if_neg hat]
      exact or_iff_left fun hall ↦ hat hall.2.1

/-- Assumes: the record that is replaced is the one of its reference. -/
theorem Indexes.apply (hindexes : Indexes e records) {prev : Option InstanceRecord}
    (hprev : records rec.ref = prev) (hkey : ∀ old, prev = some old → old.ref = rec.ref) :
    Indexes (e.apply prev rec) (Function.update records rec.ref (some rec)) := by
  cases prev with
  | none => exact hindexes.set fun old hold ↦ by simp [hprev] at hold
  | some old =>
    have hrest : Indexes (e.remove old.ref old) (Function.update records rec.ref none) := by
      rw [hkey old rfl]
      exact hindexes.remove hprev
    have hset : Indexes ((e.remove old.ref old).apply none rec)
        (Function.update (Function.update records rec.ref none) rec.ref (some rec)) :=
      hrest.set fun old hold ↦ by simp at hold
    rwa [Function.update_idem] at hset

/-- An index keeps the floors it has. -/
theorem Indexes.floors_apply (hindexes : Indexes e records) {prev : Option InstanceRecord}
    (hprev : records rec.ref = prev) (hkey : ∀ old, prev = some old → old.ref = rec.ref)
    (conf : ConfID) (resource : Resource) (lane : InstanceLane) :
    ((e.apply prev rec).keyLane conf resource lane).retiredFloor =
      (e.keyLane conf resource lane).retiredFloor := by
  cases prev with
  | none => exact (set_spec hindexes.sound rec).2.2.1 conf resource lane
  | some old =>
    have hslot : e.slot old.ref ≠ none := by
      intro hnone
      have hslots := hindexes.slots old.ref
      rw [hnone, hkey old rfl, hprev] at hslots
      simp at hslots
    obtain ⟨hrest, -, hfloors, -⟩ := remove_spec hindexes.sound hslot old
    exact ((set_spec hrest rec).2.2.1 conf resource lane).trans (hfloors conf resource lane)

theorem Indexes.floors_remove (hindexes : Indexes e records) (hrec : records ref = some rec)
    (conf : ConfID) (resource : Resource) (lane : InstanceLane) :
    ((e.remove ref rec).keyLane conf resource lane).retiredFloor =
      (e.keyLane conf resource lane).retiredFloor := by
  have hslot : e.slot ref ≠ none := by
    intro hnone
    have hslots := hindexes.slots ref
    simp [hnone, hrec] at hslots
  exact (remove_spec hindexes.sound hslot rec).2.2.1 conf resource lane

theorem laneTree_ensureLane (seen : InstanceLane) :
    (e.ensureLane lane).laneTree seen = e.laneTree seen := by
  rw [ensureLane]
  refine (laneTree_insert lane (e.laneTree lane) e.resident seen).trans ?_
  split_ifs with hseen
  · rw [hseen]
  · rfl

theorem Indexes.ensureLane (hindexes : Indexes e records) :
    Indexes (e.ensureLane lane) records where
  sound :=
    { lanes := fun seen ↦ by
        rw [laneTree_ensureLane]
        exact hindexes.sound.lanes seen
      postings := hindexes.sound.postings
      points := hindexes.sound.points }
  slots other := by
    rw [slot, laneTree_ensureLane]
    exact hindexes.slots other
  posted := hindexes.posted

/-- Folding a record takes it out of the index; the floors it raises are not postings. -/
theorem Indexes.foldRecord (hindexes : Indexes e records) (hrec : records rec.ref = some rec)
    (folded : InstanceNum) :
    Indexes (e.foldRecord folded rec) (Function.update records rec.ref none) ∧
      ∀ conf resource lane, ((e.foldRecord folded rec).keyLane conf resource lane).retiredFloor ≤
        max (e.keyLane conf resource lane).retiredFloor
          (if lane = laneFor rec.ref ∧ folded < rec.ref.inst ∧
            recordConflictEligible rec = true then
            rec.ref.inst else 0) := by
  have hrest := (hindexes.ensureLane (laneFor rec.ref)).remove hrec
  have hfloors := (hindexes.ensureLane (laneFor rec.ref)).floors_remove hrec
  unfold ConflictEngine.foldRecord
  dsimp only
  split
  · exact ⟨hrest, fun conf resource lane ↦ (hfloors conf resource lane).le.trans (le_max_left ..)⟩
  next hraises =>
  simp only [Bool.or_eq_true, decide_eq_true_eq, Bool.not_eq_true', not_or, not_le,
    Bool.not_eq_false, Bool.not_eq_true] at hraises
  obtain ⟨hsound, hlanes, hpostings, hraised⟩ := foldl_raise rec.ref.conf (laneFor rec.ref)
    hrest.sound rec.ref.inst (footprintResources rec.command.footprint)
  refine ⟨⟨hsound, fun other ↦ ?_, fun conf resource lane inst ↦ ?_⟩, fun conf resource lane ↦ ?_⟩
  · rw [slot_of_laneIndex hlanes]
    exact hrest.slots other
  · rw [Posted, hpostings]
    exact hrest.posted conf resource lane inst
  · refine (hraised conf resource lane).trans (le_of_eq ?_)
    rw [hfloors]
    simp only [hraises, and_true]
    rfl

/-- What the index keeps of a record. -/
structure Alike (rec old : InstanceRecord) : Prop where
  facts : (slotForRecord rec).facts = (slotForRecord old).facts
  footprint : rec.command.footprint = old.command.footprint

theorem Alike.refl (rec : InstanceRecord) : Alike rec rec := ⟨rfl, rfl⟩

theorem Alike.listed {old : InstanceRecord} (halike : Alike rec old) (resource : Resource) :
    Listed rec resource ↔ Listed old resource := by
  have hfacts := halike.facts
  simp only [LaneSlot.facts, eligible_slotForRecord, global_slotForRecord, Prod.mk.injEq] at hfacts
  rw [Listed, Listed, halike.footprint, hfacts.2.1, hfacts.2.2]

/-- Assumes: the records differ in nothing that the index keeps. -/
theorem Indexes.congr {others : InstanceRef → Option InstanceRecord}
    (hindexes : Indexes e records)
    (halike : ∀ ref, Option.Rel Alike (others ref) (records ref)) : Indexes e others := by
  have hfacts : ∀ {a b : Option InstanceRecord}, Option.Rel Alike a b →
      b.map (fun rec ↦ (slotForRecord rec).facts) = a.map fun rec ↦ (slotForRecord rec).facts := by
    rintro a b (hsame | _)
    · exact congrArg some hsame.facts.symm
    · rfl
  have hlisted : ∀ {a b : Option InstanceRecord} (resource : Resource), Option.Rel Alike a b →
      ((∃ rec, b = some rec ∧ Listed rec resource) ↔
        ∃ rec, a = some rec ∧ Listed rec resource) := by
    rintro a b resource (hsame | _)
    · simp [hsame.listed]
    · simp
  refine ⟨hindexes.sound, fun ref ↦ (hindexes.slots ref).trans (hfacts (halike ref)),
    fun conf resource lane inst ↦ (hindexes.posted ..).trans ?_⟩
  exact and_congr_right fun _ ↦ hlisted resource (halike _)

end ConflictEngine

end MoreConsensus
