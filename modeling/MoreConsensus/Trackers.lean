import MoreConsensus.Core

/-!
# Trackers of executed instances

A tracker keeps exact references and, for each lane, a contiguous prefix. What it contains is all
that matters: adding a reference adds exactly that reference, moving a prefix over exact references
adds nothing, and forgetting exact references adds nothing either. Over any sequence of calls the
tracker stands for the set of the references that were added (`Tracked.contains_exactly`).
-/

set_option autoImplicit false

namespace MoreConsensus

open Library

@[simp] theorem laneFor_ref (lane : InstanceLane) (inst : InstanceNum) :
    laneFor (lane.ref inst) = lane := rfl

@[simp] theorem ref_laneFor (ref : InstanceRef) : (laneFor ref).ref ref.inst = ref := rfl

theorem ref_eq_of_lane {ref : InstanceRef} {lane : InstanceLane} (hlane : laneFor ref = lane) :
    ref = lane.ref ref.inst := by
  rw [← hlane, ref_laneFor]

namespace ExecutedTracker

variable (tracker : ExecutedTracker)

variable {added : Set InstanceRef} {ref : InstanceRef} {lane : InstanceLane}

theorem contains_iff (hnamed : ref.inst ≠ 0) :
    tracker.contains ref = true ↔
      ref.inst ≤ tracker.throughOf (laneFor ref) ∨ ref ∈ tracker.exact := by
  have hzero : (ref.isZero || decide (ref.inst = 0)) = false := by
    simp [InstanceRef.isZero, hnamed]
  simp [contains, hzero]

theorem named_of_contains (hcontains : tracker.contains ref = true) :
    ref.inst ≠ 0 := by
  intro hzero
  simp [contains, hzero] at hcontains

/-- What holds of the exact references and along the prefixes holds of all references. -/
theorem forall_of_entries {P : InstanceRef → Prop} (hexact : ∀ ref ∈ tracker.exact, P ref)
    (hthrough : ∀ entry ∈ tracker.through.entries, ∀ inst < entry.2, P (entry.1.ref (inst + 1)))
    (hin : tracker.contains ref = true) : P ref := by
  have hnamed := tracker.named_of_contains hin
  rcases (tracker.contains_iff hnamed).mp hin with hle | hmem
  · unfold throughOf at hle
    cases hget : tracker.through.get? (laneFor ref) with
    | none =>
      rw [hget] at hle
      exact absurd (Nat.le_zero.mp hle) hnamed
    | some through =>
      rw [hget] at hle
      obtain ⟨inst, hinst⟩ := Nat.exists_eq_succ_of_ne_zero hnamed
      have hentry := hthrough _ ((FiniteMap.mem_entries _ _ _).mpr hget) inst
        (Nat.lt_of_succ_le (hinst ▸ hle))
      rwa [show inst + 1 = ref.inst from hinst.symm, ref_laneFor] at hentry
  · exact hexact ref hmem

theorem throughOf_insert (lane other : InstanceLane) (through : InstanceNum) :
    throughOf { tracker with through := tracker.through.insert lane through } other =
      if other = lane then through else tracker.throughOf other := by
  simp only [throughOf, FiniteMap.get?_insert]
  split_ifs <;> rfl

/-- A prefix may move over an exact reference. -/
theorem contains_insert_next (ref : InstanceRef)
    (hnext : lane.ref (tracker.throughOf lane + 1) ∈ tracker.exact) :
    contains { tracker with through := tracker.through.insert lane (tracker.throughOf lane + 1) }
      ref = tracker.contains ref := by
  by_cases hnamed : ref.inst = 0
  · simp [contains, hnamed]
  rw [Bool.eq_iff_iff, contains_iff _ hnamed, contains_iff _ hnamed, throughOf_insert]
  split_ifs with hlane
  · have href := ref_eq_of_lane hlane
    rw [hlane]
    constructor
    · rintro (hle | hexact)
      · rcases Nat.lt_or_eq_of_le hle with hlt | heq
        · exact Or.inl (Nat.lt_succ_iff.mp hlt)
        · exact Or.inr (by rw [href, heq]; exact hnext)
      · exact Or.inr hexact
    · exact fun hor ↦ hor.imp_left fun hle ↦ Nat.le_succ_of_le hle
  · exact Iff.rfl

theorem contains_advance (lane : InstanceLane) (bound : ℕ) (ref : InstanceRef) :
    (tracker.advance lane bound).contains ref = tracker.contains ref := by
  induction bound generalizing tracker with
  | zero => rfl
  | succ bound ih =>
    unfold advance
    cases hnext : instanceSuccessor (tracker.throughOf lane) with
    | none => rfl
    | some next =>
      have hvalue : next = tracker.throughOf lane + 1 := by
        unfold instanceSuccessor at hnext
        split_ifs at hnext
        exact (Option.some.inj hnext).symm
      dsimp only
      split_ifs with hexact
      · rw [ih, hvalue]
        exact tracker.contains_insert_next ref
          (hvalue ▸ List.contains_iff_mem.mp hexact)
      · rfl

theorem contains_add (hnamed : ref.inst ≠ 0) (other : InstanceRef) :
    (tracker.add ref).contains other = true ↔ tracker.contains other = true ∨ other = ref := by
  have hzero : (ref.isZero || decide (ref.inst = 0)) = false := by
    simp [InstanceRef.isZero, hnamed]
  simp only [add, hzero, Bool.false_eq_true, if_false, contains_advance]
  by_cases hother : other.inst = 0
  · have hne : other ≠ ref := fun heq ↦ hnamed (heq ▸ hother)
    simp [contains, hother, hne]
  · rw [contains_iff _ hother, contains_iff _ hother]
    change other.inst ≤ tracker.throughOf (laneFor other) ∨ _ ↔ _
    split_ifs with hexact
    · have hmem := List.contains_iff_mem.mp hexact
      constructor
      · exact Or.inl
      · rintro (hor | heq)
        · exact hor
        · exact Or.inr (heq ▸ hmem)
    · simp only [List.mem_cons]
      tauto

theorem contains_of_forgetExactThrough {tracker : ExecutedTracker}
    {through : InstanceNum}
    (hin : (tracker.forgetExactThrough lane through).contains ref = true) :
    tracker.contains ref = true := by
  have hnamed := named_of_contains _ hin
  unfold forgetExactThrough at hin
  split_ifs at hin with hzero
  · exact hin
  rw [contains_iff _ hnamed] at hin ⊢
  exact hin.imp_right fun hmem ↦ List.mem_of_mem_filter hmem

/-! ### Sequences of calls -/

/-- The prefix of a lane stops at a gap, or it has used up its bound on exact references. -/
theorem advance_gap (lane : InstanceLane) (bound : ℕ)
    (hwidth : ∀ ref ∈ tracker.exact, ref.inst ≤ maxUint64) :
    lane.ref ((tracker.advance lane bound).throughOf lane + 1) ∉ tracker.exact ∨
      (tracker.advance lane bound).throughOf lane = tracker.throughOf lane + bound ∧
        ∀ step < bound, lane.ref (tracker.throughOf lane + step + 1) ∈ tracker.exact := by
  induction bound generalizing tracker with
  | zero => exact .inr ⟨rfl, fun step hstep ↦ absurd hstep (Nat.not_lt_zero step)⟩
  | succ bound ih =>
    unfold advance instanceSuccessor
    by_cases hmax : maxUint64 ≤ tracker.throughOf lane
    · rw [if_pos hmax]
      exact .inl fun hmem ↦ absurd (hwidth _ hmem) (Nat.not_le.mpr (Nat.lt_succ_of_le hmax))
    rw [if_neg hmax]
    dsimp only
    split_ifs with hnext
    · have hrest := ih { tracker with
        through := tracker.through.insert lane (tracker.throughOf lane + 1) } hwidth
      rw [throughOf_insert, if_pos rfl] at hrest
      refine hrest.imp_right fun hall ↦
        ⟨hall.1.trans (Nat.add_right_comm _ 1 bound), fun step hstep ↦ ?_⟩
      cases step with
      | zero => exact List.contains_iff_mem.mp hnext
      | succ step =>
        have hmem := hall.2 step (Nat.lt_of_succ_lt_succ hstep)
        rwa [Nat.add_right_comm _ 1 step] at hmem
    · exact .inl fun hmem ↦ hnext (List.contains_iff_mem.mpr hmem)

/-- The number of exact references is bound enough: the prefix of the lane stops at a gap. -/
theorem advance_next_not_mem (lane : InstanceLane)
    (hwidth : ∀ ref ∈ tracker.exact, ref.inst ≤ maxUint64) :
    lane.ref ((tracker.advance lane tracker.exact.length).throughOf lane + 1) ∉ tracker.exact := by
  rcases tracker.advance_gap lane tracker.exact.length hwidth with hgap | ⟨hthrough, hall⟩
  · exact hgap
  intro hmem
  -- Otherwise more distinct references are exact than there are.
  let passed := (List.range (tracker.exact.length + 1)).map fun step ↦
    lane.ref (tracker.throughOf lane + step + 1)
  have hnodup : passed.Nodup := List.nodup_range.map fun first second heq ↦
    Nat.add_left_cancel (Nat.succ.inj (congrArg InstanceRef.inst heq))
  have hsubset : passed ⊆ tracker.exact := by
    intro ref href
    obtain ⟨step, hstep, rfl⟩ := List.mem_map.mp href
    rcases Nat.lt_or_eq_of_le (Nat.lt_succ_iff.mp (List.mem_range.mp hstep)) with hlt | rfl
    · exact hall step hlt
    · exact hthrough ▸ hmem
  have hlength := (List.subperm_of_subset hnodup hsubset).length_le
  rw [List.length_map, List.length_range] at hlength
  omega

theorem throughOf_advance_of_ne {lane other : InstanceLane} (bound : ℕ) (hne : other ≠ lane) :
    (tracker.advance lane bound).throughOf other = tracker.throughOf other := by
  induction bound generalizing tracker with
  | zero => rfl
  | succ bound ih =>
    unfold advance
    split
    · rfl
    · split_ifs
      · rw [ih, throughOf_insert, if_neg hne]
      · rfl

theorem exact_advance (lane : InstanceLane) (bound : ℕ) :
    (tracker.advance lane bound).exact = tracker.exact := by
  induction bound generalizing tracker with
  | zero => rfl
  | succ bound ih =>
    unfold advance
    split
    · rfl
    · split_ifs
      · exact ih _
      · rfl

/-- A tracker after some calls, with the references that were added. References have 64-bit
instance numbers, and exact references are forgotten up to the prefix of the lane at most. -/
inductive Tracked : ExecutedTracker → Set InstanceRef → Prop
  | empty : Tracked {} ∅
  | add {tracker : ExecutedTracker} {added : Set InstanceRef} (ref : InstanceRef)
      (hwidth : ref.inst ≤ maxUint64) (htracked : Tracked tracker added) :
      Tracked (tracker.add ref) (insert ref added)
  | forget {tracker : ExecutedTracker} {added : Set InstanceRef} (lane : InstanceLane)
      (through : InstanceNum) (hthrough : through ≤ tracker.throughOf lane)
      (htracked : Tracked tracker added) : Tracked (tracker.forgetExactThrough lane through) added

/-- What every call keeps: the tracker contains the references with an instance number that were
added, and the prefix of each lane ends at a gap. -/
structure Represents (tracker : ExecutedTracker) (added : Set InstanceRef) : Prop where
  contains : ∀ ref, tracker.contains ref = true ↔ ref ∈ added ∧ ref.inst ≠ 0
  gap : ∀ lane : InstanceLane, lane.ref (tracker.throughOf lane + 1) ∉ tracker.exact
  width : ∀ ref ∈ tracker.exact, ref.inst ≤ maxUint64

theorem Represents.add {tracker : ExecutedTracker}
    (hrep : Represents tracker added) (hwidth : ref.inst ≤ maxUint64) :
    Represents (tracker.add ref) (insert ref added) := by
  by_cases hnamed : ref.inst = 0
  · have hsame : tracker.add ref = tracker := by simp [ExecutedTracker.add, hnamed]
    rw [hsame]
    refine ⟨fun other ↦ (hrep.contains other).trans ?_, hrep.gap, hrep.width⟩
    refine and_congr_left fun hother ↦ ⟨Or.inr, fun hor ↦ hor.resolve_left ?_⟩
    exact fun heq ↦ hother (heq ▸ hnamed)
  have hadd : ∃ exact, tracker.add ref =
      advance { tracker with exact := exact } (laneFor ref) exact.length ∧
      ∀ other ∈ exact, other = ref ∨ other ∈ tracker.exact := by
    refine ⟨if tracker.exact.contains ref then tracker.exact else ref :: tracker.exact, ?_, ?_⟩
    · simp [ExecutedTracker.add, InstanceRef.isZero, hnamed]
    · split_ifs
      · exact fun other hother ↦ .inr hother
      · exact fun other hother ↦ List.mem_cons.mp hother
  obtain ⟨exact, hadd, hexact⟩ := hadd
  have hbounded : ∀ other ∈ exact, other.inst ≤ maxUint64 := fun other hother ↦
    (hexact other hother).elim (fun heq ↦ heq ▸ hwidth) (hrep.width other)
  refine ⟨fun other ↦ ?_, fun lane ↦ ?_, ?_⟩
  · rw [tracker.contains_add hnamed, hrep.contains]
    constructor
    · rintro (hold | rfl)
      · exact ⟨.inr hold.1, hold.2⟩
      · exact ⟨.inl rfl, hnamed⟩
    · rintro ⟨heq | hold, hother⟩
      · exact .inr heq
      · exact .inl ⟨hold, hother⟩
  · rw [hadd, exact_advance]
    by_cases hlane : lane = laneFor ref
    · rw [hlane]
      exact advance_next_not_mem { tracker with exact := exact } (laneFor ref) hbounded
    · rw [throughOf_advance_of_ne _ _ hlane]
      intro hmem
      rcases hexact _ hmem with heq | hold
      · exact hlane (congrArg laneFor heq)
      · exact hrep.gap lane hold
  · rw [hadd, exact_advance]
    exact hbounded

theorem Represents.forget {tracker : ExecutedTracker}
    (hrep : Represents tracker added) {through : InstanceNum}
    (hthrough : through ≤ tracker.throughOf lane) :
    Represents (tracker.forgetExactThrough lane through) added := by
  have hsame : ∀ other, (tracker.forgetExactThrough lane through).throughOf other =
      tracker.throughOf other := by
    intro other
    unfold forgetExactThrough
    split_ifs <;> rfl
  have hexact : ∀ ref, ref ∈ (tracker.forgetExactThrough lane through).exact →
      ref ∈ tracker.exact := by
    intro ref
    unfold forgetExactThrough
    split_ifs
    · exact id
    · exact List.mem_of_mem_filter
  refine ⟨fun ref ↦ ?_, fun other ↦ ?_, fun ref href ↦ hrep.width ref (hexact ref href)⟩
  · rw [← hrep.contains]
    refine ⟨contains_of_forgetExactThrough, fun hin ↦ ?_⟩
    have hnamed := tracker.named_of_contains hin
    rw [contains_iff _ hnamed] at hin ⊢
    rw [hsame]
    rcases hin with hle | hmem
    · exact .inl hle
    -- A reference that is forgotten is within the prefix.
    unfold forgetExactThrough
    split_ifs
    · exact .inr hmem
    by_cases hdrop : laneFor ref = lane ∧ ref.inst ≤ through
    · exact .inl (hdrop.1 ▸ hdrop.2.trans hthrough)
    · refine .inr (List.mem_filter.mpr ⟨hmem, ?_⟩)
      simpa [-not_and, not_and_or] using hdrop
  · rw [hsame]
    exact fun hmem ↦ hrep.gap other (hexact _ hmem)

theorem Tracked.represents {tracker : ExecutedTracker}
    (htracked : Tracked tracker added) : Represents tracker added := by
  induction htracked with
  | empty =>
    refine ⟨fun ref ↦ ?_, fun lane ↦ List.not_mem_nil, fun ref href ↦ ?_⟩
    · refine iff_of_false (fun hin ↦ ?_) fun hadded ↦ hadded.1
      have hnamed := named_of_contains _ hin
      rcases (contains_iff _ hnamed).mp hin with hle | hmem
      · exact hnamed (Nat.le_zero.mp hle)
      · exact List.not_mem_nil hmem
    · exact absurd href List.not_mem_nil
  | add ref hwidth _ ih => exact ih.add hwidth
  | forget lane through hthrough _ ih => exact ih.forget hthrough

/-- After any sequence of calls a tracker contains exactly the references with an instance number
that were added, and the prefix of a lane is the largest number up to which all instances of the
lane were added. Assumes: exact references are forgotten up to the prefix of the lane at most. -/
theorem Tracked.contains_exactly {tracker : ExecutedTracker} {added : Set InstanceRef}
    (htracked : Tracked tracker added) :
    (∀ ref, tracker.contains ref = true ↔ ref ∈ added ∧ ref.inst ≠ 0) ∧
      ∀ lane : InstanceLane, IsGreatest
        {through | ∀ inst, 1 ≤ inst → inst ≤ through → lane.ref inst ∈ added}
        (tracker.throughOf lane) := by
  have hrep := htracked.represents
  refine ⟨hrep.contains, fun lane ↦ ⟨fun inst hpos hle ↦ ?_, fun through hall ↦ ?_⟩⟩
  · have hnamed : (lane.ref inst).inst ≠ 0 := Nat.one_le_iff_ne_zero.mp hpos
    exact ((hrep.contains _).mp ((tracker.contains_iff hnamed).mpr (.inl hle))).1
  · by_contra hgreater
    -- The instance after the prefix would have been added, and is not there.
    have hnext := hall (tracker.throughOf lane + 1) (Nat.le_add_left 1 _)
      (Nat.succ_le_of_lt (Nat.lt_of_not_le hgreater))
    have hnamed : (lane.ref (tracker.throughOf lane + 1)).inst ≠ 0 := Nat.succ_ne_zero _
    rcases (tracker.contains_iff hnamed).mp ((hrep.contains _).mpr ⟨hnext, hnamed⟩) with hle | hmem
    · exact absurd hle (Nat.not_succ_le_self _)
    · exact hrep.gap lane hmem

/-- Two instances are added out of order, and then forgotten as exact references. -/
theorem Tracked.contains_exactly_swapped :
    (((({} : ExecutedTracker).add ⟨1, 2, 1⟩).add ⟨1, 1, 1⟩).forgetExactThrough ⟨1, 1⟩ 2).contains
        ⟨1, 2, 1⟩ = true ∧
      IsGreatest {through | ∀ inst, 1 ≤ inst → inst ≤ through →
          (⟨1, inst, 1⟩ : InstanceRef) ∈ ({⟨1, 1, 1⟩, ⟨1, 2, 1⟩} : Set InstanceRef)}
        ((((({} : ExecutedTracker).add ⟨1, 2, 1⟩).add ⟨1, 1, 1⟩).forgetExactThrough
          ⟨1, 1⟩ 2).throughOf ⟨1, 1⟩) := by
  have htracked := Tracked.forget ⟨1, 1⟩ 2 (by decide)
    (Tracked.add ⟨1, 1, 1⟩ (by decide) (Tracked.add ⟨1, 2, 1⟩ (by decide) Tracked.empty))
  rw [insert_empty_eq] at htracked
  have hexact := Tracked.contains_exactly htracked
  exact ⟨(hexact.1 ⟨1, 2, 1⟩).mpr ⟨.inr rfl, by decide⟩, hexact.2 ⟨1, 1⟩⟩

/-- A reference without an instance number is added to no effect. -/
theorem Tracked.add_unnamed :
    ∃ tracker added, Tracked tracker added ∧ (⟨1, 0, 1⟩ : InstanceRef) ∈ added ∧
      tracker.contains ⟨1, 0, 1⟩ = false :=
  ⟨_, _, Tracked.add ⟨1, 0, 1⟩ (by decide) Tracked.empty, Set.mem_insert _ _, rfl⟩

end ExecutedTracker

end MoreConsensus
