import MoreConsensus.Conflicts.Queries

/-!
# Lane trees and posting sets as finite maps

A lane tree is the finite map of the slots that were set and not removed, and a posting set the
finite set of its numbers (`epaxos/conflict_engine.go`). Lookups, aggregates, prefix maxima and
descending walks say what the map and the set say (`LaneRun.refines`). The aggregates use zero for
none, so the walk that prunes by the global maximum does not pass a slot under zero
(`walkGlobalRadixDesc_zero`). A number of 64 bits needs no more levels than the source allows
(`radixLevel_eq`).
-/

set_option autoImplicit false

namespace MoreConsensus

open Library

/-! ### Levels -/

def radixBits : ℕ := 6

def maxRadixLevel : ℕ := 10

/-- The loop over the levels that are tried, from one on. -/
def radixLevelFrom (value : InstanceNum) : ℕ → ℕ → ℕ
  | 0, level => level
  | tries + 1, level =>
    if value < 2 ^ (radixBits * (level + 1)) then level else radixLevelFrom value tries (level + 1)

def radixLevel (value : InstanceNum) : ℕ := radixLevelFrom value maxRadixLevel 0

theorem radixLevelFrom_eq {value : InstanceNum} {tries level : ℕ} (hlow : level ≤ Nat.log 64 value)
    (hhigh : Nat.log 64 value ≤ level + tries) :
    radixLevelFrom value tries level = Nat.log 64 value := by
  induction tries generalizing level with
  | zero => exact le_antisymm hlow hhigh
  | succ tries ih =>
    have hpow : (2 : ℕ) ^ (radixBits * (level + 1)) = 64 ^ (level + 1) := by
      simp [radixBits, pow_mul]
    have hlevel : value < 2 ^ (radixBits * (level + 1)) ↔ Nat.log 64 value ≤ level := by
      rw [hpow, RadixTree.log_le_iff one_lt_fanout]
    rw [radixLevelFrom]
    split_ifs with hless
    · exact le_antisymm hlow (hlevel.mp hless)
    · exact ih (not_le.mp (hlevel.not.mp hless)) (by omega)

/-- The level of a number of 64 bits is the number of its digits after the first. -/
theorem radixLevel_eq {value : InstanceNum} (hvalue : value < 2 ^ 64) :
    radixLevel value = Nat.log 64 value := by
  refine radixLevelFrom_eq (Nat.zero_le _) ?_
  rw [Nat.zero_add, RadixTree.log_le_iff one_lt_fanout]
  exact hvalue.trans_le (by decide)

/-! ### Lane trees -/

namespace LaneTree

variable (tree : LaneTree)

def set (num : InstanceNum) (slot : LaneSlot) : LaneTree := RadixTree.set laneMeasure tree num slot

/-- The tree after a removal, which does nothing when there is no such slot. -/
def remove (num : InstanceNum) : LaneTree := (RadixTree.remove laneMeasure tree num).getD tree

def slot (num : InstanceNum) : Option LaneSlot := RadixTree.get? tree num

def prefixMaxSeq (through : InstanceNum) : ℕ :=
  (RadixTree.prefixSummary laneMeasure tree through).maxSeq

def walkDesc (start : InstanceNum) : List (InstanceNum × LaneSlot) := RadixTree.walkDesc tree start

/-- The eligible slots of global scope, as the walk finds them that descends only where the global
maximum is not zero. -/
def walkGlobalRadixDesc (start : InstanceNum) : List (InstanceNum × LaneSlot) :=
  RadixTree.walkPruned (fun summary ↦ summary.globalMax != 0)
    (fun slot ↦ slot.global && slot.eligible) tree start

end LaneTree

/-- A lane tree that is made by setting and removing slots, and the slots that are left. -/
inductive LaneRun : LaneTree → (InstanceNum → Option LaneSlot) → Prop
  | empty : LaneRun {} fun _ ↦ none
  | set {tree slots} (hrun : LaneRun tree slots) (num : InstanceNum) (slot : LaneSlot) :
      LaneRun (tree.set num slot) (Function.update slots num (some slot))
  | remove {tree slots} (hrun : LaneRun tree slots) (num : InstanceNum) :
      LaneRun (tree.remove num) (Function.update slots num none)

/-! ### Posting sets -/

namespace PostingSet

variable (postings : PostingSet)

def insert (num : InstanceNum) : PostingSet := RadixTree.set postingMeasure postings num ()

def remove (num : InstanceNum) : PostingSet :=
  (RadixTree.remove postingMeasure postings num).getD postings

/-- The largest posting up to a number: the first one of a walk. -/
def predecessor (start : InstanceNum) : Option InstanceNum :=
  (RadixTree.walkDesc postings start).head?.map Prod.fst

def contains (num : InstanceNum) : Bool := postings.predecessor num == some num

end PostingSet

/-- A posting set that is made by inserting and removing numbers, and the numbers that are left. -/
inductive PostingRun : PostingSet → Set InstanceNum → Prop
  | empty : PostingRun {} ∅
  | insert {postings numbers} (hrun : PostingRun postings numbers) (num : InstanceNum) :
      PostingRun (postings.insert num) (Set.insert num numbers)
  | remove {postings numbers} (hrun : PostingRun postings numbers) (num : InstanceNum) :
      PostingRun (postings.remove num) (numbers \ {num})

/-! ### What is held -/

theorem LaneRun.holds {tree : LaneTree} {slots : InstanceNum → Option LaneSlot}
    (hrun : LaneRun tree slots) :
    RadixTree.Sound laneMeasure tree ∧ ∀ num, RadixTree.get? tree num = slots num := by
  induction hrun with
  | empty => exact ⟨RadixTree.sound_empty, fun _ ↦ rfl⟩
  | set _ num slot ih =>
    refine ⟨ih.1.set num slot, fun other ↦ ?_⟩
    rw [LaneTree.set, RadixTree.get?_set one_lt_fanout, ih.2, Function.update_apply]
  | remove _ num ih =>
    obtain ⟨hsound, hget⟩ := RadixTree.get?_remove_getD ih.1 num
    refine ⟨hsound, fun other ↦ (hget other).trans ?_⟩
    rw [ih.2, Function.update_apply]

theorem PostingRun.holds {postings : PostingSet} {numbers : Set InstanceNum}
    (hrun : PostingRun postings numbers) :
    RadixTree.Sound postingMeasure postings ∧
      ∀ num, RadixTree.get? postings num = some () ↔ num ∈ numbers := by
  induction hrun with
  | empty => exact ⟨RadixTree.sound_empty, fun _ ↦ by simp [RadixTree.get?]⟩
  | insert _ num ih =>
    refine ⟨ih.1.set num (), fun other ↦ ?_⟩
    rw [PostingSet.insert, RadixTree.get?_set one_lt_fanout]
    change _ ↔ other = num ∨ other ∈ _
    rw [← ih.2]
    split_ifs with hother <;> simp [hother]
  | remove _ num ih =>
    obtain ⟨hsound, hget⟩ := RadixTree.get?_remove_getD ih.1 num
    refine ⟨hsound, fun other ↦ ?_⟩
    rw [PostingSet.remove, hget, Set.mem_sdiff, Set.mem_singleton_iff, ← ih.2]
    split_ifs with hother <;> simp [hother]

/-! ### Aggregates -/

theorem weigh_of_not_eligible (num : InstanceNum) {slot : LaneSlot}
    (heligible : slot.eligible = false) : laneMeasure.weigh num slot = { count := 1 } :=
  if_pos (by simp [heligible])

section Lane

variable {tree : LaneTree} {slots : InstanceNum → Option LaneSlot} (hrun : LaneRun tree slots)

include hrun

theorem LaneRun.mem_entries {num : InstanceNum} {slot : LaneSlot} :
    (num, slot) ∈ RadixTree.entries tree ↔ slots num = some slot := by
  rw [RadixTree.mem_entries one_lt_fanout, hrun.holds.2]

/-- The least upper bound of what the eligible slots of some entries weigh. -/
theorem LaneRun.isLUB_top (top : LaneSummary → ℕ) (value : InstanceNum → LaneSlot → ℕ)
    (hzero : top 0 = 0) (hcount : top { count := 1 } = 0)
    (htop : ∀ first second, top (first + second) = max (top first) (top second))
    (hvalue : ∀ num slot, slot.eligible = true → top (laneMeasure.weigh num slot) = value num slot)
    (select : InstanceNum → Bool) :
    IsLUB {x | ∃ num slot, slots num = some slot ∧ slot.eligible = true ∧ select num = true ∧
        value num slot = x}
      (top (((RadixTree.entries tree).filter fun entry ↦ select entry.1).map
        fun entry ↦ laneMeasure.weigh entry.1 entry.2).sum) := by
  refine isLUB_iff_le_iff.mpr fun limit ↦ ?_
  rw [top_sum_le_iff _ hzero htop]
  constructor
  · rintro hall x ⟨num, slot, hslot, heligible, hselect, rfl⟩
    have hmem : (num, slot) ∈ (RadixTree.entries tree).filter fun entry ↦ select entry.1 :=
      List.mem_filter.mpr ⟨hrun.mem_entries.mpr hslot, hselect⟩
    rw [← hvalue num slot heligible]
    exact hall (num, slot) hmem
  · rintro hbound ⟨num, slot⟩ hentry
    obtain ⟨hmem, hselect⟩ := List.mem_filter.mp hentry
    cases heligible : slot.eligible with
    | true =>
      rw [hvalue num slot heligible]
      exact hbound ⟨num, slot, hrun.mem_entries.mp hmem, heligible, hselect, rfl⟩
    | false =>
      rw [weigh_of_not_eligible num heligible, hcount]
      exact Nat.zero_le _

theorem LaneRun.isLUB_prefixMaxSeq (through : InstanceNum) :
    IsLUB {seq | ∃ num slot, slots num = some slot ∧ slot.eligible = true ∧ num ≤ through ∧
      slot.seq = seq} (tree.prefixMaxSeq through) := by
  have hlub := hrun.isLUB_top LaneSummary.maxSeq (fun _ slot ↦ slot.seq) rfl rfl
    LaneSummary.maxSeq_add (fun num slot heligible ↦ by rw [weigh_eq num heligible])
    fun num ↦ decide (num ≤ through)
  rw [LaneTree.prefixMaxSeq, hrun.holds.1.prefixSummary_eq one_lt_fanout]
  simpa only [decide_eq_true_eq] using hlub

theorem LaneRun.isLUB_maxEligibleAny :
    IsLUB {num | ∃ slot, slots num = some slot ∧ slot.eligible = true}
      (RadixTree.summary tree).maxEligibleAny := by
  have hlub := hrun.isLUB_top LaneSummary.maxEligibleAny (fun num _ ↦ num) rfl rfl
    LaneSummary.maxEligibleAny_add (fun num slot heligible ↦ by rw [weigh_eq num heligible])
    fun _ ↦ true
  rw [hrun.holds.1.summary_eq]
  simpa using hlub

theorem LaneRun.isLUB_globalMax :
    IsLUB {num | ∃ slot, slots num = some slot ∧ slot.global = true ∧ slot.eligible = true}
      (RadixTree.summary tree).globalMax := by
  have hlub := hrun.isLUB_top LaneSummary.globalMax
    (fun num slot ↦ if slot.global then num else 0) rfl rfl
    LaneSummary.globalMax_add (fun num slot heligible ↦ by rw [weigh_eq num heligible])
    fun _ ↦ true
  rw [hrun.holds.1.summary_eq]
  simp only [List.filter_true, true_and] at hlub
  refine isLUB_iff_le_iff.mpr fun limit ↦ (isLUB_le_iff hlub).trans ?_
  constructor
  · rintro hbound num ⟨slot, hslot, hglobal, heligible⟩
    exact hbound ⟨num, slot, hslot, heligible, if_pos hglobal⟩
  · rintro hbound x ⟨num, slot, hslot, heligible, rfl⟩
    split_ifs with hglobal
    · exact hbound ⟨slot, hslot, hglobal, heligible⟩
    · exact Nat.zero_le _

/-- A walk passes the slots up to its start, in descending order. -/
theorem LaneRun.walkDesc (start : InstanceNum) :
    ((tree.walkDesc start).Pairwise fun entry next ↦ next.1 < entry.1) ∧
      ∀ num slot, (num, slot) ∈ tree.walkDesc start ↔ slots num = some slot ∧ num ≤ start := by
  refine ⟨?_, fun num slot ↦ ?_⟩
  · rw [LaneTree.walkDesc, RadixTree.walkDesc_eq one_lt_fanout, List.pairwise_reverse]
    exact (RadixTree.pairwise_entries tree).filter _
  · rw [LaneTree.walkDesc, RadixTree.mem_walkDesc one_lt_fanout, hrun.holds.2]

/-- The walk that prunes passes the eligible slots of global scope up to its start, in descending
order. Assumes: none of them is under zero. -/
theorem LaneRun.walkGlobalRadixDesc
    (hzero : ∀ slot, slots 0 = some slot → (slot.global && slot.eligible) = false)
    (start : InstanceNum) :
    ((tree.walkGlobalRadixDesc start).Pairwise fun entry next ↦ next.1 < entry.1) ∧
      ∀ num slot, (num, slot) ∈ tree.walkGlobalRadixDesc start ↔
        slots num = some slot ∧ (slot.global && slot.eligible) = true ∧ num ≤ start := by
  obtain ⟨hsound, hget⟩ := hrun.holds
  have hnamed : ∀ num slot, RadixTree.get? tree num = some slot →
      (slot.global && slot.eligible) = true → num ≠ 0 := by
    rintro num slot hslot hkeep rfl
    rw [hget] at hslot
    rw [hzero slot hslot] at hkeep
    exact absurd hkeep Bool.false_ne_true
  unfold LaneTree.walkGlobalRadixDesc
  refine ⟨?_, fun num slot ↦ ?_⟩
  · rw [hsound.walkPruned_eq one_lt_fanout globalMax_ne_zero hnamed, List.pairwise_reverse]
    exact ((RadixTree.pairwise_entries tree).filter _).filter _
  · rw [hsound.mem_walkPruned one_lt_fanout globalMax_ne_zero hnamed, hget]

end Lane

section Postings

variable {postings : PostingSet} {numbers : Set InstanceNum} (hrun : PostingRun postings numbers)

include hrun

theorem PostingRun.isLUB_max : IsLUB numbers postings.max := by
  obtain ⟨hsound, hget⟩ := hrun.holds
  refine isLUB_iff_le_iff.mpr fun limit ↦ ?_
  rw [PostingSet.max, hsound.summary_eq, top_sum_le_iff _ rfl PostingSummary.maximum_add]
  constructor
  · intro hall num hnum
    exact hall (num, ()) ((RadixTree.mem_entries one_lt_fanout).mpr ((hget num).mpr hnum))
  · rintro hbound ⟨num, ⟨⟩⟩ hentry
    exact hbound ((hget num).mp ((RadixTree.mem_entries one_lt_fanout).mp hentry))

/-- The first posting of a walk is the greatest one up to its start. -/
theorem PostingRun.predecessor_eq_some {start num : InstanceNum} :
    postings.predecessor start = some num ↔ IsGreatest {other ∈ numbers | other ≤ start} num := by
  obtain ⟨hsound, hget⟩ := hrun.holds
  have hmem : ∀ other, (other, ()) ∈ RadixTree.walkDesc postings start ↔
      other ∈ {other ∈ numbers | other ≤ start} := fun other ↦ by
    rw [RadixTree.mem_walkDesc one_lt_fanout, hget]
    rfl
  have hdesc : (RadixTree.walkDesc postings start).Pairwise fun entry next ↦ next.1 < entry.1 := by
    rw [RadixTree.walkDesc_eq one_lt_fanout, List.pairwise_reverse]
    exact (RadixTree.pairwise_entries postings).filter _
  unfold PostingSet.predecessor
  cases hwalk : RadixTree.walkDesc postings start with
  | nil =>
    refine iff_of_false (by simp) fun hgreatest ↦ ?_
    have hfound := (hmem num).mpr hgreatest.1
    rw [hwalk] at hfound
    exact List.not_mem_nil hfound
  | cons first rest =>
    rw [hwalk] at hmem hdesc
    have hgreatest : IsGreatest {other ∈ numbers | other ≤ start} first.1 := by
      refine ⟨(hmem first.1).mp List.mem_cons_self, fun other hother ↦ ?_⟩
      rcases List.mem_cons.mp ((hmem other).mpr hother) with heq | hrest
      · exact (congrArg Prod.fst heq).le
      · exact ((List.pairwise_cons.mp hdesc).1 _ hrest).le
    rw [List.head?_cons, Option.map_some, Option.some.injEq]
    exact ⟨fun heq ↦ heq ▸ hgreatest, fun hnum ↦ hgreatest.unique hnum⟩

theorem PostingRun.contains_iff (num : InstanceNum) :
    postings.contains num = true ↔ num ∈ numbers := by
  rw [PostingSet.contains, beq_iff_eq, hrun.predecessor_eq_some]
  exact ⟨fun hgreatest ↦ hgreatest.1.1, fun hnum ↦ ⟨⟨hnum, le_rfl⟩, fun _ hother ↦ hother.2⟩⟩

end Postings

/-! ### Refinement -/

/-- Whatever is set, inserted and removed: a lane tree answers as the finite map of the slots that
are left, and a posting set as the set of the numbers that are left. Only the walk that prunes
assumes that no eligible slot of global scope is under zero. -/
theorem LaneRun.refines {tree : LaneTree} {slots : InstanceNum → Option LaneSlot}
    {postings : PostingSet} {numbers : Set InstanceNum} (hlane : LaneRun tree slots)
    (hpostings : PostingRun postings numbers) :
    ((∀ num, tree.slot num = slots num) ∧
      (∀ through, IsLUB {seq | ∃ num slot, slots num = some slot ∧ slot.eligible = true ∧
        num ≤ through ∧ slot.seq = seq} (tree.prefixMaxSeq through)) ∧
      IsLUB {num | ∃ slot, slots num = some slot ∧ slot.eligible = true}
        (RadixTree.summary tree).maxEligibleAny ∧
      IsLUB {num | ∃ slot, slots num = some slot ∧ slot.global = true ∧ slot.eligible = true}
        (RadixTree.summary tree).globalMax ∧
      (∀ start, ((tree.walkDesc start).Pairwise fun entry next ↦ next.1 < entry.1) ∧
        ∀ num slot, (num, slot) ∈ tree.walkDesc start ↔ slots num = some slot ∧ num ≤ start) ∧
      ((∀ slot, slots 0 = some slot → (slot.global && slot.eligible) = false) → ∀ start,
        ((tree.walkGlobalRadixDesc start).Pairwise fun entry next ↦ next.1 < entry.1) ∧
        ∀ num slot, (num, slot) ∈ tree.walkGlobalRadixDesc start ↔
          slots num = some slot ∧ (slot.global && slot.eligible) = true ∧ num ≤ start)) ∧
      (∀ num, postings.contains num = true ↔ num ∈ numbers) ∧
      IsLUB numbers postings.max ∧
      ∀ start num, postings.predecessor start = some num ↔
        IsGreatest {other ∈ numbers | other ≤ start} num :=
  ⟨⟨hlane.holds.2, hlane.isLUB_prefixMaxSeq, hlane.isLUB_maxEligibleAny, hlane.isLUB_globalMax,
    hlane.walkDesc, hlane.walkGlobalRadixDesc⟩, hpostings.contains_iff, hpostings.isLUB_max,
    fun _ _ ↦ hpostings.predecessor_eq_some⟩

/-- A slot of global scope and a posting under numbers with different numbers of digits. -/
theorem refines_two :
    ∃ tree slots postings numbers, LaneRun tree slots ∧ PostingRun postings numbers ∧
      slots 4097 = some { globalScope := true } ∧ 7 ∈ numbers ∧ tree.slot 4097 = slots 4097 ∧
      ∃ slot, (4097, slot) ∈ tree.walkGlobalRadixDesc 5000 := by
  have hlane : LaneRun _ _ := .set (.set .empty 7 { seq := 3 }) 4097 { globalScope := true }
  have hpostings : PostingRun _ _ := .insert (.insert .empty 4097) 7
  have hrefines := hlane.refines hpostings
  exact ⟨_, _, _, _, hlane, hpostings, by simp, Or.inl rfl, hrefines.1.1 4097,
    { globalScope := true },
    ((hrefines.1.2.2.2.2.2 (by simp) 5000).2 4097 _).mpr ⟨by simp, rfl, by decide⟩⟩

/-- Under the number zero, an eligible slot of global scope is set and not passed. -/
theorem walkGlobalRadixDesc_zero :
    ∃ tree slots, LaneRun tree slots ∧ slots 0 = some { globalScope := true } ∧
      tree.slot 0 = some { globalScope := true } ∧ tree.walkGlobalRadixDesc 5 = [] :=
  ⟨_, _, .set .empty 0 { globalScope := true }, by simp, by decide, by decide⟩

end MoreConsensus
