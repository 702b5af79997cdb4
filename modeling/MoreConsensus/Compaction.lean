import MoreConsensus.Script
import MoreConsensus.Shifts.Plane

/-!
# Compaction

A compaction drops what a certified checkpoint covers and rebuilds the trackers from the checkpoint
and the resident instances, and the conflict index from the latter. It keeps the executed instances
and the committed prefixes exactly when everything above its frontier is resident. Folding goes by
what is executed, though, and an offered checkpoint may end below what a node has folded.
-/

set_option autoImplicit false

namespace MoreConsensus

open Library ConflictEngine

theorem Status.eq_executed_of_le {status : Status} (hle : .executed ≤ status) :
    status = .executed := by
  revert hle
  cases status <;> decide

/-! ### Entries of the conflict index -/

namespace ConflictEngine

variable {e : ConflictEngine} {rec other : InstanceRecord}

/-- The index has the entry of a record: a slot, which says what the record says if that takes part
in conflicts, and a posting under each of its resources. -/
def Enters (e : ConflictEngine) (rec : InstanceRecord) : Prop :=
  (∃ slot, e.slot rec.ref = some slot ∧
    (recordConflictEligible rec = true → slot.facts = (slotForRecord rec).facts)) ∧
  ∀ resource, Listed rec resource → e.Posted rec.ref.conf resource (laneFor rec.ref) rec.ref.inst

theorem enters_apply (he : e.Sound) (rec : InstanceRecord) : (e.apply none rec).Enters rec := by
  obtain ⟨-, hslots, -, hposted⟩ := set_spec he rec
  refine ⟨⟨slotForRecord rec, by rw [hslots, if_pos rfl], fun _ ↦ rfl⟩, fun resource hlisted ↦ ?_⟩
  exact (hposted ..).mpr (.inr ⟨rfl, rfl, hlisted⟩)

theorem Enters.apply (hrec : e.Enters rec) (he : e.Sound) (hne : other.ref ≠ rec.ref) :
    (e.apply none other).Enters rec := by
  obtain ⟨-, hslots, -, hposted⟩ := set_spec he other
  obtain ⟨⟨slot, hslot, hfacts⟩, hresources⟩ := hrec
  refine ⟨⟨slot, ?_, hfacts⟩, fun resource hlisted ↦ (hposted ..).mpr (.inl ?_)⟩
  · rw [hslots, if_neg hne.symm, hslot]
  · exact hresources resource hlisted

theorem recordConflictEligible_executed (hstatus : rec.status ≠ .none) :
    recordConflictEligible rec = recordConflictEligible { rec with status := .executed } := by
  have hvalue : (rec.status != .none) = true := by simpa using hstatus
  unfold recordConflictEligible
  rw [hvalue]
  rfl

theorem alike_executed (hstatus : rec.status ≠ .none) :
    Alike rec { rec with status := .executed } := by
  refine ⟨?_, rfl⟩
  simp only [LaneSlot.facts, eligible_slotForRecord, global_slotForRecord, seq_slotForRecord,
    recordConflictEligible_executed hstatus]
  rfl

/-- A record that counts as executed keeps its entry. -/
theorem Enters.of_executed (hrec : e.Enters { rec with status := .executed }) : e.Enters rec := by
  obtain ⟨⟨slot, hslot, hfacts⟩, hresources⟩ := hrec
  have hstatus (heligible : recordConflictEligible rec = true) : rec.status ≠ .none :=
    fun hnone ↦ by
    simp [recordConflictEligible, hnone] at heligible
  refine ⟨⟨slot, hslot, fun heligible ↦ ?_⟩, fun resource hlisted ↦ ?_⟩
  · have hexecuted := recordConflictEligible_executed (hstatus heligible)
    exact (hfacts (hexecuted ▸ heligible)).trans (alike_executed (hstatus heligible)).facts.symm
  · exact hresources resource
      (((alike_executed (hstatus hlisted.1)).listed resource).mp hlisted)

/-- The records of a list with distinct references are all entered, and what was entered under
another reference stays. -/
theorem enters_foldl {entries : List (InstanceRef × Instance)}
    (hkey : ∀ entry ∈ entries, entry.2.record.ref = entry.1)
    (hdistinct : (entries.map Prod.fst).Nodup) (he : e.Sound) :
    (∀ entry ∈ entries, (entries.foldl (fun e entry ↦ e.apply none entry.2.record) e).Enters
      entry.2.record) ∧
    ∀ rec, e.Enters rec → rec.ref ∉ entries.map Prod.fst →
      (entries.foldl (fun e entry ↦ e.apply none entry.2.record) e).Enters rec := by
  induction entries generalizing e with
  | nil => exact ⟨by simp, fun rec hrec _ ↦ hrec⟩
  | cons entry rest ih =>
    rw [List.map_cons, List.nodup_cons] at hdistinct
    have hentry : entry.2.record.ref = entry.1 := hkey entry List.mem_cons_self
    obtain ⟨hentered, hkept⟩ := ih (fun other hmem ↦ hkey other (List.mem_cons_of_mem _ hmem))
      hdistinct.2 (set_spec he entry.2.record).1
    refine ⟨fun other hmem ↦ ?_, fun rec hrec hnot ↦ ?_⟩
    · rcases List.mem_cons.mp hmem with rfl | hrest
      · exact hkept _ (enters_apply he _) (hentry ▸ hdistinct.1)
      · exact hentered other hrest
    · rw [List.map_cons, List.mem_cons, not_or] at hnot
      exact hkept rec (hrec.apply he (hentry ▸ Ne.symm hnot.1)) hnot.2

end ConflictEngine

namespace RawNode

variable {n m : RawNode} {ref : InstanceRef} {lane : InstanceLane}

/-! ### Committed prefixes -/

/-- The committed prefix of a lane. -/
def committedOf (n : RawNode) (lane : InstanceLane) : InstanceNum :=
  (n.committedThrough.get? lane).getD 0

theorem instances_advanceCommitted (n : RawNode) (lane : InstanceLane) (bound : ℕ) :
    (n.advanceCommitted lane bound).instances = n.instances ∧
      (n.advanceCommitted lane bound).executed = n.executed := by
  induction bound generalizing n with
  | zero => exact ⟨rfl, rfl⟩
  | succ bound ih =>
    unfold advanceCommitted
    split
    · exact ⟨rfl, rfl⟩
    split
    · exact ⟨rfl, rfl⟩
    split_ifs
    · exact ⟨rfl, rfl⟩
    · exact ih _

theorem committedOf_insert (n : RawNode) (lane other : InstanceLane) (next : InstanceNum) :
    committedOf { n with committedThrough := n.committedThrough.insert lane next } other =
      if other = lane then next else n.committedOf other := by
  simp only [committedOf, FiniteMap.get?_insert]
  split_ifs <;> rfl

/-- A prefix only grows, and only that of the lane. -/
theorem le_committedOf_advance (n : RawNode) (lane other : InstanceLane) (bound : ℕ) :
    n.committedOf other ≤ (n.advanceCommitted lane bound).committedOf other ∧
      (other ≠ lane → (n.advanceCommitted lane bound).committedOf other = n.committedOf other) := by
  induction bound generalizing n with
  | zero => exact ⟨le_rfl, fun _ ↦ rfl⟩
  | succ bound ih =>
    unfold advanceCommitted
    split
    · exact ⟨le_rfl, fun _ ↦ rfl⟩
    next next hnext =>
    split
    · exact ⟨le_rfl, fun _ ↦ rfl⟩
    split_ifs
    · exact ⟨le_rfl, fun _ ↦ rfl⟩
    obtain ⟨hle, hsame⟩ := ih { n with committedThrough := n.committedThrough.insert lane next }
    rw [committedOf_insert] at hle hsame
    by_cases hother : other = lane
    · rw [if_pos hother] at hle
      refine ⟨le_trans ?_ hle, fun hne ↦ absurd hother hne⟩
      unfold instanceSuccessor at hnext
      split_ifs at hnext
      rw [← Option.some.inj hnext, hother]
      exact Nat.le_succ _
    · rw [if_neg hother] at hle hsame
      exact ⟨hle, hsame⟩

/-- A prefix moves over what is committed. -/
theorem le_committedOf_of_committed {through : InstanceNum} (hmax : through ≤ maxUint64) (bound : ℕ)
    (hbound : through - n.committedOf lane ≤ bound)
    (hcommitted : ∀ inst, n.committedOf lane < inst → inst ≤ through →
      ∃ rec, n.record? (lane.ref inst) = some rec ∧ Status.committed ≤ rec.status) :
    through ≤ (n.advanceCommitted lane bound).committedOf lane := by
  induction bound generalizing n with
  | zero => exact Nat.sub_eq_zero_iff_le.mp (Nat.le_zero.mp hbound)
  | succ bound ih =>
    by_cases hdone : through ≤ n.committedOf lane
    · exact hdone.trans (n.le_committedOf_advance lane lane (bound + 1)).1
    have hlt := Nat.lt_of_not_le hdone
    obtain ⟨next, hsucc⟩ : ∃ next, next = n.committedOf lane + 1 := ⟨_, rfl⟩
    have hnext : instanceSuccessor (n.committedOf lane) = some next := by
      unfold instanceSuccessor
      rw [if_neg (not_le.mpr (hlt.trans_le hmax)), hsucc]
    obtain ⟨rec, hrec, hstatus⟩ := hcommitted next (hsucc ▸ Nat.lt_succ_self _) (hsucc ▸ hlt)
    have hadvance : n.advanceCommitted lane (bound + 1) =
        { n with committedThrough := n.committedThrough.insert lane next }.advanceCommitted lane
          bound := by
      rw [advanceCommitted, show (n.committedThrough.get? lane).getD 0 =
        n.committedOf lane from rfl,
        hnext]
      dsimp only
      rw [hrec]
      exact if_neg (not_lt.mpr hstatus)
    rw [hadvance]
    have hvalue := n.committedOf_insert lane lane next
    rw [if_pos rfl] at hvalue
    refine ih ?_ fun inst hinst hle ↦ ?_
    · rw [hvalue, hsucc, Nat.sub_le_iff_le_add]
      exact (Nat.sub_le_iff_le_add.mp hbound).trans_eq (by rw [Nat.add_assoc, Nat.add_comm 1])
    · rw [hvalue, hsucc] at hinst
      exact hcommitted inst (Nat.lt_of_succ_lt hinst) hle

theorem noteCommitted_eq (n : RawNode) (ref : InstanceRef) : n.noteCommitted ref = n ∨
    ref.inst = n.committedOf (laneFor ref) + 1 ∧
      n.noteCommitted ref = n.advanceCommitted (laneFor ref) n.instances.entries.length := by
  unfold noteCommitted
  dsimp only
  split_ifs with hskip hnext
  · exact Or.inl rfl
  · exact Or.inl rfl
  · refine Or.inr ⟨?_, rfl⟩
    have hsome := not_not.mp hnext
    unfold instanceSuccessor at hsome
    split_ifs at hsome
    exact (Option.some.inj hsome).symm

theorem noteCommitted_next (hnext : ref.inst = n.committedOf (laneFor ref) + 1)
    (hmax : ref.inst ≤ maxUint64) :
    n.noteCommitted ref = n.advanceCommitted (laneFor ref) n.instances.entries.length := by
  have hlt : n.committedOf (laneFor ref) < ref.inst := hnext ▸ Nat.lt_succ_self _
  have hnamed : ref.inst ≠ 0 := Nat.ne_of_gt (Nat.zero_lt_of_lt hlt)
  have hsome : instanceSuccessor (n.committedOf (laneFor ref)) = some ref.inst := by
    unfold instanceSuccessor
    rw [if_neg (not_le.mpr (hlt.trans_le hmax)), hnext]
  unfold noteCommitted
  dsimp only
  rw [if_neg]
  · exact if_neg (not_not.mpr hsome)
  · simp only [InstanceRef.isZero, hnamed, Bool.or_eq_true, decide_eq_true_eq, not_or, not_le]
    exact ⟨⟨by simp [hnamed], not_false⟩, hlt⟩

theorem noteCommitted_fields (n : RawNode) (ref : InstanceRef) :
    (n.noteCommitted ref).instances = n.instances ∧ (n.noteCommitted ref).executed = n.executed ∧
      ∀ lane, n.committedOf lane ≤ (n.noteCommitted ref).committedOf lane := by
  rcases n.noteCommitted_eq ref with hsame | ⟨-, hadvance⟩
  · rw [hsame]
    exact ⟨rfl, rfl, fun _ ↦ le_rfl⟩
  · rw [hadvance]
    have hfields := n.instances_advanceCommitted (laneFor ref) n.instances.entries.length
    exact ⟨hfields.1, hfields.2, fun lane ↦ (n.le_committedOf_advance _ lane _).1⟩

/-! ### Rebuilding -/

/-- Counts one resident instance again. -/
def recount (node : RawNode) (entry : InstanceRef × Instance) : RawNode :=
  let ref := entry.1
  let node := if Status.committed ≤ entry.2.record.status then node.noteCommitted ref else node
  if entry.2.record.status = .executed then
    { node with executed := node.executed.add ref
                durableExecuted := node.durableExecuted.add ref }
  else node

theorem recount_fields (n : RawNode) (entry : InstanceRef × Instance) :
    (n.recount entry).instances = n.instances ∧
      ((n.recount entry).executed = if entry.2.record.status = .executed then
        n.executed.add entry.1 else n.executed) ∧
      ∀ lane, (n.recount entry).committedOf lane =
        if Status.committed ≤ entry.2.record.status then (n.noteCommitted entry.1).committedOf lane
        else n.committedOf lane := by
  obtain ⟨hinstances, hexecuted, -⟩ := n.noteCommitted_fields entry.1
  unfold recount
  dsimp only
  split_ifs
  · exact ⟨hinstances, congrArg (·.add entry.1) hexecuted, fun _ ↦ rfl⟩
  · exact ⟨rfl, rfl, fun _ ↦ rfl⟩
  · exact ⟨hinstances, hexecuted, fun _ ↦ rfl⟩
  · exact ⟨rfl, rfl, fun _ ↦ rfl⟩

theorem index_recounts (entries : List (InstanceRef × Instance)) (n : RawNode) :
    (entries.foldl recount n).index = n.index := by
  have hnoted : ∀ (node : RawNode) (ref : InstanceRef), (node.noteCommitted ref).index =
      node.index :=
    fun node ref ↦ congrArg Frame.index (Shifts.frame_noteCommitted node ref)
  induction entries generalizing n with
  | nil => rfl
  | cons entry rest ih =>
    refine (ih _).trans ?_
    unfold recount
    dsimp only
    split_ifs
    · exact hnoted ..
    · rfl
    · exact hnoted ..
    · rfl

variable {entries : List (InstanceRef × Instance)}

/-- Executed after the recount is what was before it and what is resident as executed. -/
theorem executed_recounts (hnamed : ref.inst ≠ 0)
    (n : RawNode) : (entries.foldl recount n).executed.contains ref = true ↔
      n.executed.contains ref = true ∨
        ∃ entry ∈ entries, entry.1 = ref ∧ entry.2.record.status = .executed := by
  induction entries generalizing n with
  | nil => simp
  | cons entry rest ih =>
    have hfirst : (n.recount entry).executed.contains ref = true ↔ n.executed.contains ref = true ∨
        entry.1 = ref ∧ entry.2.record.status = .executed := by
      rw [(n.recount_fields entry).2.1]
      split_ifs with hstatus
      · by_cases hentry : entry.1.inst = 0
        · have hne : entry.1 ≠ ref := fun heq ↦ hnamed (heq ▸ hentry)
          have hadd : n.executed.add entry.1 = n.executed := by simp [ExecutedTracker.add, hentry]
          simp [hadd, hne]
        · rw [n.executed.contains_add hentry, eq_comm (a := ref)]
          simp [hstatus]
      · simp [hstatus]
    rw [List.foldl_cons, ih, hfirst]
    simp only [List.mem_cons, exists_eq_or_imp]
    tauto

theorem le_committedOf_recounts (entries : List (InstanceRef × Instance)) (n : RawNode) :
    n.committedOf lane ≤ (entries.foldl recount n).committedOf lane := by
  induction entries generalizing n with
  | nil => exact le_rfl
  | cons entry rest ih =>
    refine le_trans ?_ (ih _)
    rw [(n.recount_fields entry).2.2]
    split_ifs
    · exact (n.noteCommitted_fields entry.1).2.2 lane
    · exact le_rfl

/-- The instances between two numbers of a lane, when they are resident. -/
theorem sub_le_length {start through : ℕ} (hresident : ∀ inst, start < inst → inst ≤ through →
      ∃ rec, n.record? (lane.ref inst) = some rec ∧ Status.committed ≤ rec.status) :
    through - start ≤ n.instances.entries.length := by
  have hsub : (List.range' (start + 1) (through - start)).map lane.ref ⊆ n.instances.keys := by
    intro ref hmem
    obtain ⟨inst, hinst, rfl⟩ := List.mem_map.mp hmem
    rw [List.mem_range'_1] at hinst
    obtain ⟨rec, hrec, -⟩ := hresident inst hinst.1 (by omega)
    obtain ⟨found, hfound, -⟩ := Option.map_eq_some_iff.mp hrec
    exact (FiniteMap.mem_keys _ _).mpr ⟨found, hfound⟩
  have hnodup : ((List.range' (start + 1) (through - start)).map lane.ref).Nodup := by
    refine List.Nodup.map (fun first second heq ↦ ?_) (List.nodup_range' ..)
    exact congrArg InstanceRef.inst heq
  have hlength := (List.subperm_of_subset hnodup hsub).length_le
  simpa [FiniteMap.keys] using hlength

section Run

variable {start through : ℕ} (hmax : through ≤ maxUint64)
  (hresident : ∀ inst, start < inst → inst ≤ through →
    ∃ rec, n.record? (lane.ref inst) = some rec ∧ Status.committed ≤ rec.status)

include hmax hresident

theorem le_committedOf_jump (hstart : n.committedOf lane = start) :
    through ≤ (n.advanceCommitted lane n.instances.entries.length).committedOf lane := by
  refine le_committedOf_of_committed hmax _ ?_ fun inst hinst hle ↦ ?_
  · rw [hstart]
    exact sub_le_length hresident
  · rw [hstart] at hinst
    exact hresident inst hinst hle

/-- While instances are counted, the prefix stays where it was or passes the run of resident
committed instances after it. -/
theorem committedOf_recount (entry : InstanceRef × Instance)
    (hn : n.committedOf lane = start ∨ through ≤ n.committedOf lane) :
    (n.recount entry).committedOf lane = start ∨ through ≤ (n.recount entry).committedOf lane := by
  rw [(n.recount_fields entry).2.2]
  split_ifs
  · rcases n.noteCommitted_eq entry.1 with hsame | ⟨-, hadvance⟩
    · rw [hsame]
      exact hn
    rw [hadvance]
    by_cases hlane : lane = laneFor entry.1
    · rcases hn with hstart | hpassed
      · refine Or.inr ?_
        rw [← hlane]
        exact le_committedOf_jump hmax hresident hstart
      · exact Or.inr (hpassed.trans (n.le_committedOf_advance _ lane _).1)
    · rw [(n.le_committedOf_advance _ lane _).2 hlane]
      exact hn
  · exact hn

/-- The run is passed when its first instance is counted. -/
theorem le_committedOf_recount (hlt : start < through) {entry : InstanceRef × Instance}
    (href : entry.1 = lane.ref (start + 1)) (hstatus : Status.committed ≤ entry.2.record.status)
    (hn : n.committedOf lane = start ∨ through ≤ n.committedOf lane) :
    through ≤ (n.recount entry).committedOf lane := by
  rw [(n.recount_fields entry).2.2, if_pos hstatus, href]
  rcases hn with hstart | hpassed
  · rw [noteCommitted_next (by rw [laneFor_ref, hstart]; rfl) (Nat.le_trans hlt hmax), laneFor_ref]
    exact le_committedOf_jump hmax hresident hstart
  · exact hpassed.trans ((n.noteCommitted_fields _).2.2 lane)

end Run

/-- A run of resident committed instances after a prefix is counted again as a whole. -/
theorem le_committedOf_of_resident {start through : ℕ}
    (hmax : through ≤ maxUint64)
    (hresident : ∀ inst, start < inst → inst ≤ through →
      ∃ rec, n.record? (lane.ref inst) = some rec ∧ Status.committed ≤ rec.status)
    (hlt : start < through) {entry : InstanceRef × Instance} (hentry : entry ∈ entries)
    (href : entry.1 = lane.ref (start + 1)) (hstatus : Status.committed ≤ entry.2.record.status)
    (hn : n.committedOf lane = start ∨ through ≤ n.committedOf lane) :
    through ≤ (entries.foldl recount n).committedOf lane := by
  induction entries generalizing n with
  | nil => simp at hentry
  | cons head rest ih =>
    have hkept : ∀ inst, start < inst → inst ≤ through → ∃ rec,
        (n.recount head).record? (lane.ref inst) = some rec ∧ Status.committed ≤ rec.status := by
      unfold record?
      rw [(n.recount_fields head).1]
      exact hresident
    rcases List.mem_cons.mp hentry with rfl | hrest
    · exact (le_committedOf_recount hmax hresident hlt href hstatus hn).trans
        (le_committedOf_recounts rest _)
    · exact ih hkept hrest (committedOf_recount hmax hresident head hn)

/-! ### Compacting -/

/-- The resident instances above the compacted frontier. -/
def retained (m : RawNode) : List (InstanceRef × Instance) :=
  m.instances.entries.filter fun entry ↦
    !frontierCovers m.durableCheckpoint.compactedThrough entry.1

theorem mem_retained {inst : Instance} : (ref, inst) ∈ m.retained ↔
    m.instances.get? ref = some inst ∧
      frontierCovers m.durableCheckpoint.compactedThrough ref = false := by
  simp [retained, List.mem_filter, FiniteMap.mem_entries]

theorem index_noteReleased (n : RawNode) (refs : List InstanceRef) :
    (n.noteReleased refs).index = n.index := by
  induction refs generalizing n with
  | nil => rfl
  | cons ref rest ih => exact ih (n.note (.released ref))

/-- The instances a compaction leaves. -/
theorem get?_compact (barrier : InstanceRef) (through : ExecutionFrontier) (stub : Instance)
    (instances : FiniteMap InstanceRef Instance) (ref : InstanceRef) :
    let left := (instances.entries.filter fun entry ↦
      frontierCovers through entry.1 && entry.1 != barrier).foldl
        (fun instances entry ↦ instances.erase entry.1) instances
    (if left.contains barrier then left else left.insert barrier stub).get? ref =
      if ref = barrier then (instances.get? barrier).or (some stub)
      else if frontierCovers through ref then none else instances.get? ref := by
  extract_lets left
  have hleft : ∀ other, left.get? other =
      if frontierCovers through other = true ∧ other ≠ barrier then none
      else instances.get? other := by
    intro other
    refine (instances.get?_eraseSelected
      (fun key ↦ frontierCovers through key && key != barrier) other).trans ?_
    simp only [Bool.and_eq_true, bne_iff_ne]
  have hbarrier : left.get? barrier = instances.get? barrier := by
    rw [hleft, if_neg fun hcovered ↦ hcovered.2 rfl]
  clear_value left
  have hrest : ref ≠ barrier → left.get? ref =
      if frontierCovers through ref then none else instances.get? ref := by
    intro hne
    rw [hleft]
    simp only [hne, ne_eq, not_false_eq_true, and_true]
  cases hget : instances.get? barrier with
  | none =>
    rw [hget] at hbarrier
    rw [FiniteMap.contains, hbarrier, if_neg (by simp), FiniteMap.get?_insert]
    split_ifs with href hcovers
    · rfl
    · rw [hrest href, if_pos hcovers]
    · rw [hrest href, if_neg hcovers]
  | some found =>
    rw [hget] at hbarrier
    rw [FiniteMap.contains, hbarrier, if_pos (by simp)]
    split_ifs with href hcovers
    · rw [href, hbarrier]
      rfl
    · rw [hrest href, if_pos hcovers]
    · rw [hrest href, if_neg hcovers]

/-- A compaction starts from the frontier of its checkpoint and counts the instances above it. -/
theorem compactCheckpointMetadata_eq (hcertified : checkpointCertified m.durableCheckpoint = true) :
    ∃ base : RawNode, m.compactCheckpointMetadata = m.retained.foldl recount base ∧
      base.executed = ⟨[], m.durableCheckpoint.compactedThrough.prefixes⟩ ∧
      base.committedThrough = m.durableCheckpoint.compactedThrough.prefixes ∧
      (∃ stub : InstanceRecord, base.engine = compactedEngine
        ((m.record? m.durableCheckpoint.descriptor.barrier).getD stub) m.retained) ∧
      ∀ ref inst, m.instances.get? ref = some inst →
        frontierCovers m.durableCheckpoint.compactedThrough ref = false ∨
          ref = m.durableCheckpoint.descriptor.barrier →
        base.instances.get? ref = some inst := by
  unfold compactCheckpointMetadata
  rw [if_neg (by simp [hcertified])]
  extract_lets barrierRef barrier retained covered noted left instances through engine compacted
  have hnoted : noted.index = m.index := index_noteReleased ..
  refine ⟨compacted, rfl, rfl, rfl, ⟨barrier.record, ?_⟩, fun ref inst hget hkept ↦ ?_⟩
  · have hrecord : noted.record? barrierRef = m.record? barrierRef :=
      congrArg (fun x : Index ↦ x.record? barrierRef) hnoted
    change compactedEngine ((noted.record? barrierRef).getD barrier.record) retained = _
    rw [hrecord]
    rfl
  have hinstances : noted.instances = m.instances := congrArg Index.instances hnoted
  change instances.get? ref = some inst
  unfold instances left covered
  rw [hinstances]
  refine (get?_compact barrierRef m.durableCheckpoint.compactedThrough barrier
    m.instances ref).trans
    ?_
  by_cases hbarrier : ref = barrierRef
  · rw [if_pos hbarrier, ← hbarrier, hget]
    rfl
  · rw [if_neg hbarrier, if_neg (by simp [hkept.resolve_right hbarrier]), hget]

/-- Whether an instance outlives a compaction in a status: the checkpoint covers it, or it is
resident. -/
def outlives (m : RawNode) (status : Status) (ref : InstanceRef) : Bool :=
  frontierCovers m.durableCheckpoint.compactedThrough ref ||
    (m.record? ref).elim false fun rec ↦ decide (status ≤ rec.status)

/-- Above the compacted frontier the trackers say what the resident instances say, and all numbers
have 64 bits. -/
def ResidentAbove (m : RawNode) : Prop :=
  (∀ ref ∈ m.executed.exact, m.outlives .executed ref = true) ∧
    (∀ entry ∈ m.executed.through.entries, ∀ inst < entry.2,
      m.outlives .executed (entry.1.ref (inst + 1)) = true) ∧
    (∀ entry ∈ m.committedThrough.entries, entry.2 ≤ maxUint64 ∧ ∀ inst < entry.2,
      m.outlives .committed (entry.1.ref (inst + 1)) = true) ∧
    ∀ entry ∈ m.instances.entries, entry.2.record.status = .executed →
      m.executed.contains entry.1 = true

instance (m : RawNode) : Decidable m.ResidentAbove := inferInstanceAs (Decidable (_ ∧ _))

/-- What a node keeps: nothing executed is forgotten, only what the checkpoint covers is added, no
committed prefix is lowered, and what is resident above the frontier stays as it is and has its
entry in the conflict index, which is left alone with all the rest or made anew. -/
structure Preserves (m m' : RawNode) : Prop where
  kept : ∀ ref, m.executed.contains ref = true → m'.executed.contains ref = true
  added : ∀ ref, m'.executed.contains ref = true → m.executed.contains ref = true ∨
    frontierCovers m.durableCheckpoint.compactedThrough ref = true
  committed : ∀ lane, m.committedOf lane ≤ m'.committedOf lane
  resident : ∀ ref inst, m.instances.get? ref = some inst →
    frontierCovers m.durableCheckpoint.compactedThrough ref = false ∨
      ref = m.durableCheckpoint.descriptor.barrier → m'.instances.get? ref = some inst
  indexed : m' = m ∨ ∀ ref inst, m.instances.get? ref = some inst →
    frontierCovers m.durableCheckpoint.compactedThrough ref = false ∨
      ref = m.durableCheckpoint.descriptor.barrier → m'.engine.Enters inst.record

theorem ResidentAbove.executed (hm : m.ResidentAbove) (hin : m.executed.contains ref = true) :
    m.outlives .executed ref = true :=
  m.executed.forall_of_entries hm.1 hm.2.1 hin

theorem ResidentAbove.committed (hm : m.ResidentAbove) {inst : InstanceNum} (hnamed : inst ≠ 0)
    (hle : inst ≤ m.committedOf lane) :
    m.outlives .committed (lane.ref inst) = true ∧ m.committedOf lane ≤ maxUint64 := by
  unfold committedOf at hle ⊢
  cases hget : m.committedThrough.get? lane with
  | none =>
    rw [hget] at hle
    exact absurd (Nat.le_zero.mp hle) hnamed
  | some through =>
    rw [hget] at hle
    obtain ⟨hmax, hall⟩ := hm.2.2.1 _ ((FiniteMap.mem_entries _ _ _).mpr hget)
    obtain ⟨before, hinst⟩ := Nat.exists_eq_succ_of_ne_zero hnamed
    have houtlives := hall before (Nat.lt_of_succ_le (hinst ▸ hle))
    exact ⟨hinst ▸ houtlives, hmax⟩

theorem resident_of_outlives {status : Status} (houtlives : m.outlives status ref = true)
    (habove : frontierCovers m.durableCheckpoint.compactedThrough ref = false) :
    ∃ inst, m.instances.get? ref = some inst ∧ status ≤ inst.record.status := by
  unfold outlives record? at houtlives
  rw [habove, Bool.false_or] at houtlives
  cases hget : m.instances.get? ref with
  | none => simp [hget] at houtlives
  | some inst => exact ⟨inst, rfl, by simpa [hget] using houtlives⟩

/-- An index made anew has the entries of the barrier and of what is kept. -/
theorem enters_compactedEngine (hm : m.index.Keyed) (stub : InstanceRecord) {inst : Instance}
    (hget : m.instances.get? ref = some inst)
    (hkept : frontierCovers m.durableCheckpoint.compactedThrough ref = false ∨
      ref = m.durableCheckpoint.descriptor.barrier) :
    (compactedEngine ((m.record? m.durableCheckpoint.descriptor.barrier).getD stub)
      m.retained).Enters inst.record := by
  have hentries : ∀ entry ∈ m.retained, entry.2.record.ref = entry.1 := fun entry hentry ↦
    (hm _ _ (mem_retained.mp hentry).1).record
  have hdistinct : (m.retained.map Prod.fst).Nodup :=
    List.Nodup.sublist (List.filter_sublist.map _) m.instances.nodup_keys
  obtain ⟨hentered, hothers⟩ := enters_foldl hentries hdistinct
    (set_spec sound_empty
      { (m.record? m.durableCheckpoint.descriptor.barrier).getD stub with status := .executed }).1
  cases hcovers : frontierCovers m.durableCheckpoint.compactedThrough ref with
  | false => exact hentered (ref, inst) (mem_retained.mpr ⟨hget, hcovers⟩)
  | true =>
    -- the barrier, which is covered and so not counted again
    obtain rfl := hkept.resolve_left (by simp [hcovers])
    have hrecord : (m.record? m.durableCheckpoint.descriptor.barrier).getD stub = inst.record := by
      rw [record?, hget]
      rfl
    rw [compactedEngine, hrecord]
    rw [hrecord] at hothers
    refine Enters.of_executed (hothers _ (enters_apply sound_empty _) fun hmem ↦ ?_)
    obtain ⟨entry, hentry, hsame⟩ := List.mem_map.mp hmem
    have hkey : inst.record.ref = m.durableCheckpoint.descriptor.barrier := (hm _ _ hget).record
    have habove := (mem_retained.mp hentry).2
    rw [hsame] at habove
    change frontierCovers _ inst.record.ref = false at habove
    rw [hkey, hcovers] at habove
    cases habove

section Rebuilt

variable {base : RawNode} (hproper : m.durableCheckpoint.compactedThrough.Proper)

include hproper

/-- What counts as executed afterwards: what the frontier covers, and what is resident above it with
that status. -/
theorem executed_rebuilt
    (hexecuted : base.executed = ⟨[], m.durableCheckpoint.compactedThrough.prefixes⟩)
    (hnamed : ref.inst ≠ 0) : (m.retained.foldl recount base).executed.contains ref = true ↔
      frontierCovers m.durableCheckpoint.compactedThrough ref = true ∨
        ∃ entry ∈ m.retained, entry.1 = ref ∧ entry.2.record.status = .executed := by
  rw [executed_recounts hnamed, hexecuted, ExecutedTracker.contains_iff _ hnamed,
    ExecutionFrontier.covers_iff hproper hnamed]
  simp [ExecutedTracker.throughOf]

/-- No committed prefix falls: the instances between the frontier and the prefix are resident, so
they are counted again. -/
theorem committedOf_le_rebuilt (hm : m.ResidentAbove)
    (hcommitted : base.committedThrough = m.durableCheckpoint.compactedThrough.prefixes)
    (hinstances : ∀ ref inst, m.instances.get? ref = some inst →
      frontierCovers m.durableCheckpoint.compactedThrough ref = false →
        base.instances.get? ref = some inst) (lane : InstanceLane) :
    m.committedOf lane ≤ (m.retained.foldl recount base).committedOf lane := by
  by_cases hdone : m.committedOf lane ≤ base.committedOf lane
  · exact hdone.trans (le_committedOf_recounts _ base)
  have hlt := Nat.lt_of_not_le hdone
  have hresident : ∀ inst, base.committedOf lane < inst → inst ≤ m.committedOf lane →
      ∃ found, (lane.ref inst, found) ∈ m.retained ∧ Status.committed ≤ found.record.status := by
    intro inst habove hle
    have hnamed := Nat.ne_of_gt (Nat.zero_lt_of_lt habove)
    have hcovers : frontierCovers m.durableCheckpoint.compactedThrough (lane.ref inst) = false := by
      rw [committedOf, hcommitted] at habove
      rw [← Bool.not_eq_true, ExecutionFrontier.covers_iff hproper hnamed, laneFor_ref]
      exact not_le.mpr habove
    obtain ⟨found, hget, hstatus⟩ := resident_of_outlives (hm.committed hnamed hle).1 hcovers
    exact ⟨found, mem_retained.mpr ⟨hget, hcovers⟩, hstatus⟩
  obtain ⟨first, hfirst, hstatus⟩ := hresident _ (Nat.lt_succ_self _) hlt
  have hmax := (hm.committed (Nat.ne_of_gt (Nat.zero_lt_of_lt hlt)) le_rfl).2
  refine le_committedOf_of_resident hmax (fun inst habove hle ↦ ?_) hlt hfirst rfl hstatus
    (Or.inl rfl)
  obtain ⟨found, hfound, hcommit⟩ := hresident inst habove hle
  obtain ⟨hget, hcovers⟩ := mem_retained.mp hfound
  refine ⟨found.record, ?_, hcommit⟩
  rw [record?, hinstances _ _ hget hcovers]
  rfl

end Rebuilt

/-- A compaction that finds everything above its frontier resident loses nothing. -/
theorem compactCheckpointMetadata_preserves (hkeyed : m.index.Keyed)
    (hcertain : checkpointCertified m.durableCheckpoint = true →
      m.durableCheckpoint.compactedThrough.Proper) (hm : m.ResidentAbove) :
    m.Preserves m.compactCheckpointMetadata := by
  by_cases hcertified : checkpointCertified m.durableCheckpoint = true
  swap
  · have hsame : m.compactCheckpointMetadata = m := by
      unfold compactCheckpointMetadata
      rw [if_pos (by simpa using hcertified)]
    rw [hsame]
    exact ⟨fun _ hin ↦ hin, fun _ hin ↦ Or.inl hin, fun _ ↦ le_rfl, fun _ _ hget _ ↦ hget,
      Or.inl rfl⟩
  have hproper := hcertain hcertified
  obtain ⟨base, hcompact, hexecuted, hcommitted, ⟨stub, hengine⟩, hinstances⟩ :=
    compactCheckpointMetadata_eq hcertified
  have hindex : (m.retained.foldl recount base).index = base.index := index_recounts ..
  rw [hcompact]
  refine ⟨fun ref hin ↦ ?_, fun ref hin ↦ ?_, committedOf_le_rebuilt hproper hm hcommitted
    fun ref inst hget habove ↦ hinstances ref inst hget (Or.inl habove),
    fun ref inst hget hkept ↦ ?_, Or.inr fun ref inst hget hkept ↦ ?_⟩
  · rw [executed_rebuilt hproper hexecuted (m.executed.named_of_contains hin)]
    cases hcovers : frontierCovers m.durableCheckpoint.compactedThrough ref with
    | true => exact Or.inl rfl
    | false =>
      obtain ⟨inst, hget, hstatus⟩ := resident_of_outlives (hm.executed hin) hcovers
      exact Or.inr ⟨(ref, inst), mem_retained.mpr ⟨hget, hcovers⟩, rfl,
        Status.eq_executed_of_le hstatus⟩
  · rw [executed_rebuilt hproper hexecuted (ExecutedTracker.named_of_contains _ hin)] at hin
    rcases hin with hcovers | ⟨entry, hentry, rfl, hstatus⟩
    · exact Or.inr hcovers
    · exact Or.inl (hm.2.2.2 entry (List.mem_of_mem_filter hentry) hstatus)
  · exact (congrArg (fun x : Index ↦ x.instances.get? ref) hindex).trans
      (hinstances ref inst hget hkept)
  · have hrebuilt : (m.retained.foldl recount base).engine = _ :=
      (congrArg Index.engine hindex).trans hengine
    rw [hrebuilt]
    exact enters_compactedEngine hkeyed stub hget hkept

/-! ### Completed compactions -/

/-- The node after a batch was acknowledged and executed instances were retired. -/
def afterAck (n : RawNode) (rd : Ready) : RawNode :=
  let n := (n.acknowledge rd).retireExecuted
  if n.frozenReady.empty then
    { n with awaitAdvance := false, frozenReady := {} }.mergeNextReady else n

/-- An acknowledgement does to the index what shifts do. -/
theorem afterAck_keeps {P : Index → Prop} (n : RawNode)
    (hP : ∀ {scope : Scope} {a b : RawNode}, Shifts scope a b → P a.index → P b.index)
    (hn : P n.index) (rd : Ready) : P (n.afterAck rd).index := by
  have hadvanced (m : RawNode) (snapshot : Snapshot) (hm : P m.index) :
      P (m.checkpointSnapshotAdvanced snapshot).index := by
    rcases Shifts.checkpointSnapshotAdvanced m snapshot with
      hshifts | ⟨-, round, node, hnode, hcompact⟩
    · exact hP hshifts hm
    · have hkept := hP hnode hm
      rw [hcompact, Shifts.index_modifyReady]
      exact hkept
  have hacked : P (n.acknowledge rd).index := by
    unfold acknowledge
    extract_lets hard voter consumed installed checkpoint compacting executed durable
    have hconsumed : consumed.index = n.index := by
      unfold consumed voter hard
      split <;> split_ifs <;> rfl
    have hinstalled : P installed.index := by
      unfold installed
      split
      · rwa [hconsumed]
      · refine hadvanced _ _ ?_
        rwa [← hconsumed] at hn
    have hcompacting : P compacting.index := by
      unfold compacting
      split_ifs
      · exact hinstalled
      · exact hinstalled
    exact hP ((Shifts.rfl_any durable).enqueueExecutedRecords rd.apply) hcompacting
  have hretired := hP ((Shifts.refl (n.acknowledge rd)).retireExecuted.widen) hacked
  unfold afterAck
  generalize (n.acknowledge rd).retireExecuted = node at hretired ⊢
  dsimp only
  split_ifs
  · exact hretired
  · exact hretired

/-- Whether the batch stored the snapshot a restarted node begins with. -/
def startsUp (n : RawNode) (rd : Ready) : Bool :=
  rd.snapshot.isSome && (n.afterAck rd).startupSnapshot &&
    checkpointCertified (n.afterAck rd).durableCheckpoint

def afterInstall (n : RawNode) (rd : Ready) : RawNode :=
  if n.startsUp rd then (n.afterAck rd).snapshotInstalled else n.afterAck rd

/-- Whether the batch ends the compaction that runs. -/
def finishes (n : RawNode) (rd : Ready) : Bool :=
  (!rd.compact.isEmpty && (n.frozenReady.compact.drop rd.compact.length).isEmpty) &&
    (n.afterInstall rd).checkpointCompacting

theorem advance_eq {rd : Ready} (hawaits : n.awaitAdvance = true)
    (hvalid : n.validateReadyAck rd = true) : (n.advance rd).1 = if n.finishes rd then
      { n.afterInstall rd with checkpointCompacting := false
                               checkpointRound := none }.resumeAfterCompaction
      else n.afterInstall rd := by
  unfold advance
  rw [if_neg (by simp [hawaits]), if_neg (by simp [hvalid])]
  rfl

/-- A node on which the acknowledgement of a batch completes a compaction: the one of the snapshot
it started with, or the one that ran. -/
def Completes (n : RawNode) (rd : Ready) (m : RawNode) : Prop :=
  (n.startsUp rd = true ∧ (n.afterAck rd).durableCheckpoint.compactedThrough =
      (n.afterAck rd).durableCheckpoint.descriptor.through ∧ m = n.afterAck rd) ∨
    (n.finishes rd = true ∧
      m = { n.afterInstall rd with checkpointCompacting := false, checkpointRound := none })

theorem durable_afterAck (n : RawNode) (rd : Ready) :
    (n.afterAck rd).durableCheckpoint = (n.acknowledge rd).durableCheckpoint := by
  have hretired := (Steady.of_shifts (Shifts.refl (n.acknowledge rd)).retireExecuted.widen).durable
  unfold afterAck
  dsimp only
  split_ifs
  · exact hretired
  · exact hretired

theorem snapshotInstalled_cases (n : RawNode) :
    n.snapshotInstalled = n.resumeAfterCompaction ∨
      n.snapshotInstalled.frozenReady = n.frozenReady ∧ n.snapshotInstalled.plane = { n.plane with
        compacting := true
        asks.compact := canonicalCompactionRanges n.durableCheckpoint } := by
  unfold snapshotInstalled
  split_ifs
  · exact .inl rfl
  · exact .inr ⟨frozen_modifyReady _ _, Shifts.plane_modifyReady_asks _
      (g := fun asks ↦ { asks with compact := canonicalCompactionRanges n.durableCheckpoint })
      fun _ ↦ rfl⟩

theorem durable_snapshotInstalled (n : RawNode) :
    n.snapshotInstalled.durableCheckpoint = n.durableCheckpoint := by
  rcases n.snapshotInstalled_cases with hresumed | ⟨-, hplane⟩
  · exact hresumed ▸ (Steady.resumeAfterCompaction n).durable
  · exact congrArg Plane.durable hplane

theorem durable_afterInstall (n : RawNode) (rd : Ready) :
    (n.afterInstall rd).durableCheckpoint = (n.acknowledge rd).durableCheckpoint := by
  unfold afterInstall
  split_ifs
  · exact (durable_snapshotInstalled _).trans (n.durable_afterAck rd)
  · exact n.durable_afterAck rd

/-- A compaction is completed up to the frontier of the checkpoint. -/
theorem Completes.compactedThrough {rd : Ready} (hcompletes : n.Completes rd m) :
    m.durableCheckpoint.compactedThrough = m.durableCheckpoint.descriptor.through := by
  rcases hcompletes with ⟨-, hdone, rfl⟩ | ⟨hfinishes, rfl⟩
  · exact hdone
  · unfold finishes at hfinishes
    simp only [Bool.and_eq_true, Bool.not_eq_true', List.isEmpty_eq_false_iff,
      List.isEmpty_iff] at hfinishes
    have hlast := n.compactedThrough_acknowledge hfinishes.1.1 hfinishes.1.2
    rwa [← n.durable_afterInstall rd] at hlast

/-! ### Instances under their own references -/

theorem keyed_call (hn : n.index.Keyed) (c : Call) : (n.call c).1.index.Keyed := by
  by_cases hready : c = .ready
  · subst hready
    unfold RawNode.call ready
    dsimp only
    split_ifs
    · exact hn
    · obtain ⟨frozen, kept, -, -, hframe⟩ := n.frame_freezeReady
      have hindex : n.freezeReady.index = n.index := congrArg Frame.index hframe
      exact hindex ▸ hn
  · exact (n.turns_call hready).keyed hn

theorem keyed_newRawNode {id : ReplicaID} {cfg : Config} {base : VoterSet} {storage : Storage}
    (hnew : newRawNode id cfg base storage = some n) : n.index.Keyed := by
  obtain ⟨b, hb, hturns, -⟩ := fresh_newRawNode hnew
  exact hturns.keyed hb.keyed

theorem Completes.keyed {rd : Ready} (hcompletes : n.Completes rd m) (hn : n.index.Keyed) :
    m.index.Keyed := by
  have hacked := n.afterAck_keeps (fun hshifts hm ↦ hshifts.keyed hm) hn rd
  rcases hcompletes with ⟨-, -, rfl⟩ | ⟨-, rfl⟩
  · exact hacked
  · change (n.afterInstall rd).index.Keyed
    unfold afterInstall
    split_ifs
    · have hinstalled : Turns true (n.afterAck rd) (n.afterAck rd).snapshotInstalled :=
        (Turns.refl _).snapshotInstalled
      exact hinstalled.keyed hacked
    · exact hacked

/-! ### Ranges and checkpoints of a node -/

/-- The checkpoint of a node and the ranges it has asked to be compacted, wherever they are. -/
structure Backed (Good : Checkpoint → Prop) (Backs : CompactionRange → Prop)
    (n : RawNode) : Prop where
  durable : Good n.durableCheckpoint
  frozen : ∀ range ∈ n.frozenReady.compact, Backs range
  asks : ∀ range ∈ n.plane.asks.compact, Backs range
  rest : ∀ range ∈ n.plane.rest.compact, Backs range

namespace Backed

section

variable {Good : Checkpoint → Prop} {Backs : CompactionRange → Prop} {rd : Ready}

theorem steady (hn : n.Backed Good Backs) (hsteady : Steady n m) : m.Backed Good Backs where
  durable := hsteady.durable ▸ hn.durable
  frozen := hsteady.frozen ▸ hn.frozen
  asks := hsteady.compact ▸ hn.asks
  rest := hsteady.rest ▸ hn.rest

theorem ready (hn : n.Backed Good Backs) : n.ready.Backed Good Backs := by
  unfold RawNode.ready
  split_ifs with hrest
  · exact hn
  simp only [Bool.or_eq_true, not_or, Bool.not_eq_true] at hrest
  obtain ⟨hfrozen, hasks, hempty⟩ := n.freezeReady_asks hrest.1
  refine ⟨hn.durable, ?_, ?_, ?_⟩
  · have hcompact := congrArg Asks.compact hfrozen
    exact fun range hrange ↦ hn.asks range (hcompact ▸ hrange)
  · rw [hasks]
    exact hn.rest
  · rw [hempty]
    simp

variable (hbacks : ∀ {checkpoint : Checkpoint}, Good checkpoint →
    ∀ range ∈ canonicalCompactionRanges checkpoint, Backs range)

include hbacks

theorem snapshotInstalled (hn : n.Backed Good Backs) : n.snapshotInstalled.Backed Good Backs := by
  rcases n.snapshotInstalled_cases with hresumed | ⟨hfrozen, hplane⟩
  · exact hresumed ▸ hn.steady (Steady.resumeAfterCompaction n)
  · refine ⟨n.durable_snapshotInstalled ▸ hn.durable, hfrozen ▸ hn.frozen, ?_, ?_⟩
    · rw [hplane]
      exact hbacks hn.durable
    · rw [hplane]
      exact hn.rest

variable (hgood : ∀ {first second : Checkpoint}, second.descriptor = first.descriptor →
    second.certificate = first.certificate → Good first → Good second)

include hgood

theorem acked (hn : n.Backed Good Backs) (hacked : Acked rd n m)
    (hsnapshot : ∀ snapshot, rd.snapshot = some snapshot → Good snapshot.checkpoint) :
    m.Backed Good Backs where
  durable := by
    refine hgood hacked.descriptor hacked.certificate ?_
    cases hrd : rd.snapshot with
    | none => exact hn.durable
    | some snapshot => exact hsnapshot snapshot hrd
  frozen := fun range hrange ↦ by
    rw [hacked.frozen] at hrange
    exact hn.frozen range (List.mem_of_mem_drop hrange)
  asks := by
    rcases hacked.compact with hsame | ⟨snapshot, hrd, hranges⟩
    · rw [hsame]
      exact hn.asks
    · rw [hranges]
      exact hbacks (hsnapshot snapshot hrd)
  rest := hacked.rest ▸ hn.rest

theorem afterAck (hn : n.Backed Good Backs) (hawaits : n.awaitAdvance = true)
    (hsnapshot : ∀ snapshot, rd.snapshot = some snapshot → Good snapshot.checkpoint) :
    (n.afterAck rd).Backed Good Backs := by
  have hacked := (n.acked_acknowledge rd).shifts (Shifts.refl _).retireExecuted.widen
  have hbacked := hn.acked hbacks hgood hacked hsnapshot
  unfold RawNode.afterAck
  dsimp only
  split_ifs
  · have hplane := plane_thaw (hacked.awaits.trans hawaits)
    refine ⟨hbacked.durable, by simp [mergeNextReady], ?_, ?_⟩
    · rw [hplane]
      intro range hrange
      exact (List.mem_append.mp hrange).elim (hbacked.rest range) (hbacked.asks range)
    · rw [hplane]
      simp
  · exact hbacked

theorem afterInstall (hn : n.Backed Good Backs) (hawaits : n.awaitAdvance = true)
    (hsnapshot : ∀ snapshot, rd.snapshot = some snapshot → Good snapshot.checkpoint) :
    (n.afterInstall rd).Backed Good Backs := by
  have hacked := hn.afterAck hbacks hgood hawaits hsnapshot
  unfold RawNode.afterInstall
  split_ifs
  · exact hacked.snapshotInstalled hbacks
  · exact hacked

theorem advance (hn : n.Backed Good Backs)
    (hsnapshot : ∀ snapshot, rd.snapshot = some snapshot → Good snapshot.checkpoint) :
    (n.advance rd).1.Backed Good Backs := by
  by_cases hawaits : n.awaitAdvance = true
  swap
  · unfold RawNode.advance
    rw [if_pos (by simpa using hawaits)]
    exact hn
  by_cases hvalid : n.validateReadyAck rd = true
  swap
  · unfold RawNode.advance
    rw [if_neg (by simp [hawaits]), if_pos (by simpa using hvalid)]
    exact hn
  have hinstalled := hn.afterInstall hbacks hgood hawaits hsnapshot
  rw [advance_eq hawaits hvalid]
  split_ifs
  · refine Backed.steady ?_ (Steady.resumeAfterCompaction _)
    exact ⟨hinstalled.durable, hinstalled.frozen, hinstalled.asks, hinstalled.rest⟩
  · exact hinstalled

end

end Backed

end RawNode

end MoreConsensus
