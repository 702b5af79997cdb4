import MoreConsensus.Conflicts.Index
import MoreConsensus.Core

/-!
# Coherence of the conflict engine

The engine of a node is the index of its resident instances (`Index.Coherent`). Records enter the
engine through `setInstanceRecord` and `installInstance`, and leave it when an instance is folded or
dropped; some handlers change a record in place, past the engine. All keep the engine coherent: the
former tell the engine about the record that was resident, the latter change only ballots, Accept
evidence and padded dependencies. The records that a coordinator has gathered for an instance have
its reference too, since a decision may make one of them resident.
-/

set_option autoImplicit false

namespace MoreConsensus

open Library ConflictEngine

/-- The records of an instance are of its reference. -/
structure Instance.Keyed (ref : InstanceRef) (inst : Instance) : Prop where
  record : inst.record.ref = ref
  answers : ∀ id rec, FiniteMap.get? inst.prepareOK id = some rec → rec.ref = ref
  evidence : ∀ id rec, FiniteMap.get? inst.prepareEvidence id = some rec → rec.ref = ref

namespace Instance.Keyed

variable {ref : InstanceRef} {inst next : Instance}

/-- A change that leaves what was gathered alone. -/
theorem of_record (hkeyed : inst.Keyed ref) (hrecord : next.record.ref = ref)
    (hanswers : next.prepareOK = inst.prepareOK)
    (hevidence : next.prepareEvidence = inst.prepareEvidence) : next.Keyed ref :=
  ⟨hrecord, hanswers ▸ hkeyed.answers, hevidence ▸ hkeyed.evidence⟩

/-- An instance for which nothing was gathered. -/
theorem of_empty (hrecord : next.record.ref = ref) (hanswers : next.prepareOK = ∅)
    (hevidence : next.prepareEvidence = ∅) : next.Keyed ref :=
  ⟨hrecord, by simp [hanswers], by simp [hevidence]⟩

theorem release (hkeyed : inst.Keyed ref) : (releaseInstanceVolatile inst).Keyed ref :=
  of_empty hkeyed.record rfl rfl

end Instance.Keyed

/-- The resident instances of a node with their index. -/
structure Index where
  instances : FiniteMap InstanceRef Instance
  engine : ConflictEngine
  retired : FiniteMap InstanceLane RetiredLane

def RawNode.index (n : RawNode) : Index := ⟨n.instances, n.engine, n.retired⟩

namespace Index

def record? (x : Index) (ref : InstanceRef) : Option InstanceRecord :=
  (x.instances.get? ref).map Instance.record

/-- Every resident instance is kept under its own reference. -/
def Keyed (x : Index) : Prop := ∀ ref inst, x.instances.get? ref = some inst → inst.Keyed ref

/-- The engine is the index of the resident instances, and nothing is kept of folded instances that
the lanes do not know of. -/
structure Coherent (x : Index) : Prop where
  indexes : x.engine.Indexes x.record?
  keyed : x.Keyed
  floors : ∀ conf resource lane, (x.engine.keyLane conf resource lane).retiredFloor ≤
    ((x.retired.get? lane).getD {}).eligibleAny

variable {x : Index} {ref : InstanceRef} {inst next : Instance}

theorem record?_insert (x : Index) (ref : InstanceRef) (inst : Instance) (e : ConflictEngine) :
    record? { x with instances := x.instances.insert ref inst, engine := e } =
      Function.update x.record? ref (some inst.record) := by
  funext other
  simp only [record?, FiniteMap.get?_insert, Function.update_apply]
  split_ifs <;> rfl

theorem record?_erase (x : Index) (ref : InstanceRef) (e : ConflictEngine)
    (retired : FiniteMap InstanceLane RetiredLane) :
    record? ⟨x.instances.erase ref, e, retired⟩ = Function.update x.record? ref none := by
  funext other
  simp only [record?, FiniteMap.get?_erase, Function.update_apply]
  split_ifs <;> rfl

/-- The index with an instance installed. -/
def install (x : Index) (inst : Instance) : Index :=
  { x with instances := x.instances.insert inst.record.ref inst.settled
           engine := x.engine.apply (x.record? inst.record.ref) inst.record }

theorem keyed_settled (hinst : inst.Keyed ref) : inst.settled.Keyed ref := by
  unfold Instance.settled
  split_ifs
  · exact hinst.release
  · exact hinst

namespace Keyed

theorem insert (hx : x.Keyed) (hnext : next.Keyed ref) (engine : ConflictEngine) :
    Keyed { x with instances := x.instances.insert ref next, engine := engine } := by
  intro other found hfound
  rw [FiniteMap.get?_insert] at hfound
  split_ifs at hfound with hother
  · rw [hother, ← Option.some.inj hfound]
    exact hnext
  · exact hx other found hfound

theorem erase (hx : x.Keyed) (ref : InstanceRef) (engine : ConflictEngine)
    (retired : FiniteMap InstanceLane RetiredLane) :
    Keyed ⟨x.instances.erase ref, engine, retired⟩ := by
  intro other found hfound
  rw [FiniteMap.get?_erase] at hfound
  split_ifs at hfound
  exact hx other found hfound

/-- Nothing new is resident but what is kept under its own reference. -/
theorem of_kept {y : Index} (hx : x.Keyed) (hy : ∀ ref inst, y.instances.get? ref = some inst →
    x.instances.get? ref = some inst ∨ inst.Keyed ref) : y.Keyed := fun ref inst hget ↦
  (hy ref inst hget).elim (hx ref inst) id

/-- A change of one instance. -/
theorem of_change {y : Index} {f : Instance → Instance} (hx : x.Keyed)
    (hget : ∀ other, y.instances.get? other =
      if other = ref then (x.instances.get? ref).map f else x.instances.get? other)
    (hf : ∀ inst, x.instances.get? ref = some inst → (f inst).Keyed ref) : y.Keyed := by
  intro other found hfound
  rw [hget] at hfound
  split_ifs at hfound with hother
  · obtain ⟨inst, hinst, rfl⟩ := Option.map_eq_some_iff.mp hfound
    exact hother ▸ hf inst hinst
  · exact hx other found hfound

theorem record_key (hx : x.Keyed) (old : InstanceRecord) (hold : x.record? ref = some old) :
    old.ref = ref := by
  obtain ⟨inst, hget, rfl⟩ := Option.map_eq_some_iff.mp hold
  exact (hx ref inst hget).record

end Keyed

namespace Coherent

/-- A record takes the place of the resident one, if there is one. -/
theorem set (hx : x.Coherent) (hnext : next.Keyed ref) :
    Coherent { x with instances := x.instances.insert ref next
                      engine := x.engine.apply (x.record? ref) next.record } := by
  have hprev : x.record? next.record.ref = x.record? ref := by rw [hnext.record]
  have hkey : ∀ old, x.record? ref = some old → old.ref = next.record.ref := fun old hold ↦ by
    rw [hx.keyed.record_key old hold, hnext.record]
  refine ⟨?_, hx.keyed.insert hnext _, fun conf resource lane ↦ ?_⟩
  · rw [record?_insert]
    have hindexes := hx.indexes.apply hprev hkey
    rwa [hnext.record] at hindexes
  · rw [hx.indexes.floors_apply hprev hkey]
    exact hx.floors conf resource lane

theorem install (hx : x.Coherent) (hinst : inst.Keyed inst.record.ref) :
    (x.install inst).Coherent := by
  have hrecord : inst.settled.record = inst.record := by
    unfold Instance.settled
    split_ifs <;> rfl
  have hset := hx.set (keyed_settled hinst)
  rwa [hrecord] at hset

/-- A change past the engine. Assumes: it leaves everything alone that the index keeps. -/
theorem change (hx : x.Coherent) (hget : x.instances.get? ref = some inst) (hnext : next.Keyed ref)
    (halike : Alike next.record inst.record) :
    Coherent { x with instances := x.instances.insert ref next } := by
  refine ⟨?_, hx.keyed.insert hnext _, hx.floors⟩
  refine hx.indexes.congr fun other ↦ ?_
  rw [record?_insert x ref next x.engine, Function.update_apply]
  split_ifs with hother
  · rw [hother, record?, hget]
    exact .some halike
  · cases x.record? other with
    | none => exact .none
    | some rec => exact .some (.refl rec)

theorem drop_absent (hx : x.Coherent) (hget : x.instances.get? ref = none) :
    Coherent { x with instances := x.instances.erase ref } := by
  refine ⟨?_, hx.keyed.erase _ _ _, hx.floors⟩
  have habsent : x.record? ref = none := by rw [record?, hget, Option.map_none]
  rw [record?_erase, ← habsent, Function.update_eq_self]
  exact hx.indexes

theorem drop (hx : x.Coherent) (hget : x.instances.get? ref = some inst) :
    Coherent { x with instances := x.instances.erase ref
                      engine := x.engine.remove ref inst.record } := by
  have hrec : x.record? ref = some inst.record := by rw [record?, hget, Option.map_some]
  refine ⟨?_, hx.keyed.erase _ _ _, fun conf resource lane ↦ ?_⟩
  · have hrecords := x.record?_erase ref (x.engine.remove ref inst.record) x.retired
    rw [hrecords]
    exact hx.indexes.remove hrec
  · rw [hx.indexes.floors_remove hrec]
    exact hx.floors conf resource lane

end Coherent

/-- Folding keeps what the lanes know of folded instances, and adds the record. -/
theorem eligibleAny_foldRecord (lane : RetiredLane) (rec : InstanceRecord) :
    max lane.eligibleAny (if lane.folded < rec.ref.inst ∧ recordConflictEligible rec = true then
      rec.ref.inst else 0) ≤ (lane.foldRecord rec).eligibleAny := by
  have hseq : ∀ (lane : RetiredLane) through seq,
      (lane.addRetiredSeq through seq).eligibleAny = lane.eligibleAny := by
    intro lane through seq
    unfold RetiredLane.addRetiredSeq
    dsimp only
    split_ifs <;> rfl
  unfold RetiredLane.foldRecord
  dsimp only
  by_cases hbelow : rec.ref.inst ≤ lane.folded
  · rw [if_pos hbelow, if_neg fun hraises ↦ absurd hraises.1 (not_lt.mpr hbelow)]
    exact max_le le_rfl (Nat.zero_le _)
  · rw [if_neg hbelow]
    by_cases heligible : recordConflictEligible rec = true
    · rw [if_pos ⟨not_le.mp hbelow, heligible⟩, if_neg (by simp [heligible]), hseq]
      split_ifs <;> exact le_rfl
    · rw [if_neg fun hraises ↦ heligible hraises.2, if_pos (by simp [heligible])]
      exact max_le le_rfl (Nat.zero_le _)

theorem Coherent.fold (hx : x.Coherent) (hget : x.instances.get? ref = some inst)
    {lane : RetiredLane} (hlane : (x.retired.get? (laneFor ref)).getD {} = lane) :
    Coherent { instances := x.instances.erase ref
               engine := x.engine.foldRecord lane.folded inst.record
               retired := x.retired.insert (laneFor ref) (lane.foldRecord inst.record) } := by
  have hkey : inst.record.ref = ref := (hx.keyed ref inst hget).record
  have hrec : x.record? inst.record.ref = some inst.record := by
    rw [hkey, record?, hget, Option.map_some]
  obtain ⟨hindexes, hfloors⟩ := hx.indexes.foldRecord hrec lane.folded
  refine ⟨?_, hx.keyed.erase _ _ _, fun conf resource seen ↦ ?_⟩
  · rw [record?_erase]
    rwa [hkey] at hindexes
  · refine (hfloors conf resource seen).trans ?_
    rw [hkey, FiniteMap.get?_insert]
    have hold := hx.floors conf resource seen
    split_ifs with hraises hseen hseen
    · refine le_trans ?_ (eligibleAny_foldRecord lane inst.record)
      rw [if_pos (by rw [hkey]; exact hraises.2), hkey, hseen]
      rw [hseen, hlane] at hold
      exact max_le_max_right ref.inst hold
    · exact absurd hraises.1 hseen
    · refine le_trans ?_ ((le_max_left ..).trans (eligibleAny_foldRecord lane inst.record))
      rw [hseen, hlane] at hold
      rw [hseen]
      exact max_le hold (Nat.zero_le _)
    · exact max_le hold (Nat.zero_le _)

/-- Folded lanes move on. Assumes: nothing they know of folded instances is forgotten. -/
theorem Coherent.retire (hx : x.Coherent) {retired : FiniteMap InstanceLane RetiredLane}
    (hretired : ∀ lane, ((x.retired.get? lane).getD {}).eligibleAny ≤
      ((retired.get? lane).getD {}).eligibleAny) :
    Coherent { x with retired := retired } :=
  ⟨hx.indexes, hx.keyed, fun conf resource lane ↦
    (hx.floors conf resource lane).trans (hretired lane)⟩

end Index

/-! ### What the handlers write

A record is only changed into one of the same reference, and what is changed past the engine is
nothing that the index keeps. -/

theorem ref_mergeAcceptEvidence (rec : InstanceRecord) (attrs : Attributes) :
    (mergeAcceptEvidence rec attrs).ref = rec.ref := by
  unfold mergeAcceptEvidence
  split_ifs <;> rfl

theorem ref_mergeOwnAcceptEvidence (rec : InstanceRecord) (sender : ReplicaID)
    (attrs : Attributes) : (mergeOwnAcceptEvidence rec sender attrs).ref = rec.ref := by
  unfold mergeOwnAcceptEvidence
  split_ifs <;> rfl

theorem alike_mergeAcceptEvidence {rec old : InstanceRecord} (halike : Alike rec old)
    (attrs : Attributes) : Alike (mergeAcceptEvidence rec attrs) old := by
  unfold mergeAcceptEvidence
  split_ifs
  · exact halike
  · exact ⟨halike.facts, halike.footprint⟩

namespace RawNode

variable (n : RawNode) (rec : InstanceRecord)

theorem ref_ensureRecordDeps : (n.ensureRecordDeps rec).ref = rec.ref := by
  unfold ensureRecordDeps
  dsimp only
  split_ifs <;> rfl

theorem alike_ensureRecordDeps : Alike (n.ensureRecordDeps rec) rec := by
  unfold ensureRecordDeps
  dsimp only
  split_ifs <;> exact ⟨rfl, rfl⟩

theorem ref_committedRecord (attrs : Attributes) : (committedRecord rec attrs).ref = rec.ref := by
  unfold committedRecord
  dsimp only
  split_ifs <;> rfl

theorem ref_acceptPhaseRecord (attrs : Attributes) :
    (n.acceptPhaseRecord rec attrs).ref = rec.ref := by
  unfold acceptPhaseRecord
  dsimp only
  rw [ref_mergeOwnAcceptEvidence, ref_mergeAcceptEvidence, ref_ensureRecordDeps]
  rfl

theorem ref_valueOfNone {rec value : InstanceRecord} (hvalue : n.valueOfNone rec = some value) :
    value.ref = rec.ref := by
  unfold valueOfNone at hvalue
  dsimp only at hvalue
  split at hvalue
  · obtain ⟨payload, -, rfl⟩ := Option.map_eq_some_iff.mp hvalue
    rfl
  · rw [← Option.some.inj hvalue]

end RawNode

end MoreConsensus
