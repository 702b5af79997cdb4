import MoreConsensus.Frontier
import MoreConsensus.Shifts.Start

/-!
# The plane of checkpoints over calls

The durable checkpoint and the compactions a node asks for only move when a batch is acknowledged.
Every other call leaves them alone, whatever it does to the rest of the node (`Steady`). An
acknowledgement takes its part of the frozen batch away, makes a stored snapshot the durable
checkpoint and, when that is certified, asks for its compaction (`Acked`).
-/

set_option autoImplicit false

namespace MoreConsensus

open Library

namespace RawNode

variable {n m m' : RawNode} {rd : Ready}

/-! ### Frozen batches -/

theorem frozen_push (box : Outbox) (batch : Batch) : (box.push batch).frozen = box.frozen := by
  unfold Outbox.push
  split_ifs <;> rfl

theorem frozen_shift {f g : Frame} (hshift : f.Shift g) : g.outbox.frozen = f.outbox.frozen := by
  cases hshift with
  | emit => exact frozen_push ..
  | ask =>
    unfold Outbox.ask
    dsimp only
    split_ifs <;> rfl
  | wait => rfl
  | change => exact frozen_push ..
  | plane => rfl
  | reindex => rfl
  | activate => exact frozen_push ..

theorem frozen_modifyReady (m : RawNode) (f : Ready → Ready) :
    (m.modifyReady f).frozenReady = m.frozenReady := by
  unfold modifyReady
  split_ifs <;> rfl

theorem Shifts.frozen (hshifts : Shifts .any n m) : m.frozenReady = n.frozenReady := by
  have hall : ∀ g, Relation.ReflTransGen Frame.Shift n.frame g →
      g.outbox.frozen = n.frame.outbox.frozen := by
    intro g hreach
    induction hreach with
    | refl => rfl
    | tail _ hshift ih => exact (frozen_shift hshift).trans ih
  exact hall _ hshifts.steps

/-- What a compaction keeps: it notes and counts, and rebuilds the index and the trackers. -/
theorem compactCheckpointMetadata_keeps (n : RawNode) {P : RawNode → Prop} (hn : P n)
    (hshifts : ∀ {node node' : RawNode}, P node → Shifts .any node node' → P node')
    (hrebuild : ∀ {node : RawNode} {instances engine retired executed durable through}, P node →
      P { node with
        instances := instances, engine := engine, retired := retired, executed := executed
        durableExecuted := durable, committedThrough := through }) :
    P n.compactCheckpointMetadata := by
  unfold RawNode.compactCheckpointMetadata
  dsimp only
  split
  · exact hn
  refine List.foldlRecOn _ _ (hrebuild (hshifts hn ?_)) fun node hnode entry _ ↦ ?_
  · exact Shifts.noteReleased (m := n.note (.compacted n.foldedAhead)) ((Shifts.refl n).note rfl) _
  · have hcommitted : P (if Status.committed ≤ entry.2.record.status then
        node.noteCommitted entry.1 else node) := by
      split
      · exact hshifts hnode ((Shifts.refl node).noteCommitted _)
      · exact hnode
    split
    · exact hrebuild hcommitted
    · exact hcommitted

/-! ### Steady nodes -/

/-- The durable checkpoint, the frozen batch and the compactions asked for stay. -/
structure Steady (n m : RawNode) : Prop where
  durable : m.durableCheckpoint = n.durableCheckpoint
  awaits : m.awaitAdvance = n.awaitAdvance
  frozen : m.frozenReady = n.frozenReady
  compact : m.plane.asks.compact = n.plane.asks.compact
  rest : m.plane.rest = n.plane.rest

namespace Steady

theorem refl (n : RawNode) : Steady n n := ⟨rfl, rfl, rfl, rfl, rfl⟩

theorem trans (hfirst : Steady n m) (hsecond : Steady m m') : Steady n m' :=
  ⟨hsecond.durable.trans hfirst.durable, hsecond.awaits.trans hfirst.awaits,
    hsecond.frozen.trans hfirst.frozen, hsecond.compact.trans hfirst.compact,
    hsecond.rest.trans hfirst.rest⟩

theorem of_shifts (hshifts : Shifts .any n m) : Steady n m :=
  ⟨hshifts.calm.durable, hshifts.awaits, hshifts.frozen, hshifts.calm.compact, hshifts.calm.rest⟩

/-- An offer that is taken asks for a snapshot and nothing else. -/
theorem of_takes (htakes : Shifts.Takes n m) : Steady n m := by
  obtain ⟨round, localized, rfl⟩ := htakes
  refine ⟨?_, awaits_modifyReady .., frozen_modifyReady .., ?_, ?_⟩
  · exact (congrArg Plane.durable (Shifts.plane_proposeSnapshot ..) :)
  · rw [Shifts.plane_proposeSnapshot]
    rfl
  · rw [Shifts.plane_proposeSnapshot]
    rfl

theorem step (n : RawNode) (msg : Message) : Steady n (n.step msg).1 :=
  (Shifts.step n msg).elim (fun hshifts ↦ of_shifts hshifts.widen) of_takes

theorem of_frame (hframe : m.frame = n.frame) : Steady n m :=
  of_shifts ((Shifts.refl n).of_frame hframe)

theorem of_reindexed {next : Index} (hframe : m.frame = n.frame.reindexed next) : Steady n m := by
  have hplane : m.plane = n.plane := congrArg Frame.plane hframe
  have houtbox : m.outbox = n.outbox := congrArg Frame.outbox hframe
  exact ⟨congrArg Plane.durable hplane, congrArg Outbox.awaits houtbox,
    congrArg Outbox.frozen houtbox, by rw [hplane], by rw [hplane]⟩

theorem installInstance (n : RawNode) (inst : Instance) : Steady n (n.installInstance inst) := by
  obtain ⟨node, hnode, hinst⟩ := Shifts.installInstance_eq n inst
  have hsteady := of_reindexed hnode
  rw [hinst]
  split_ifs
  · exact ⟨hsteady.durable, hsteady.awaits, hsteady.frozen, hsteady.compact, hsteady.rest⟩
  · exact hsteady

theorem provideRecordLoad (n : RawNode) (ref : InstanceRef) (found : Option LoadedRecord) :
    Steady n (n.provideRecordLoad ref found).1 := by
  refine provideRecordLoad_keeps (P := Steady n) (refl n) (fun rec _ ↦ installInstance n _)
    (fun rec _ ↦ of_reindexed (Shifts.frame_setInstance ..)) (fun node wait _ hnode ↦ ?_)
    (fun node msg hnode ↦ hnode.trans (step node msg))
    (fun node node' hshifts hnode ↦ hnode.trans (of_shifts hshifts.widen)) found
  exact ⟨hnode.durable, hnode.awaits, hnode.frozen, hnode.compact, hnode.rest⟩

/-- A compaction rebuilds the trackers and leaves the checkpoint and the queues alone. -/
theorem compactCheckpointMetadata (n : RawNode) : Steady n n.compactCheckpointMetadata :=
  n.compactCheckpointMetadata_keeps (refl n) (fun hnode hshifts ↦ hnode.trans (of_shifts hshifts))
    fun hnode ↦ ⟨hnode.durable, hnode.awaits, hnode.frozen, hnode.compact, hnode.rest⟩

theorem resumeAfterCompaction (n : RawNode) : Steady n n.resumeAfterCompaction := by
  refine (compactCheckpointMetadata n).trans (trans ?_ (of_shifts (Shifts.drive _)))
  exact ⟨rfl, rfl, rfl, rfl, rfl⟩

/-- New reservations change nothing of the plane but the plans. -/
theorem plane_reserve (n : RawNode) (membership : Membership) (floor : InstanceNum) :
    (n.reserve membership floor).plane = { n.plane with plans := membership.plans } := by
  unfold RawNode.reserve
  rw [Shifts.plane_modifyReady _ (by exact fun _ ↦ rfl)]
  rfl

theorem reserve (n : RawNode) (membership : Membership) (floor : InstanceNum) :
    Steady n (n.reserve membership floor) := by
  have hplane := plane_reserve n membership floor
  exact ⟨(congrArg Plane.durable hplane :), awaits_modifyReady .., frozen_modifyReady ..,
    (congrArg (fun plane ↦ plane.asks.compact) hplane :), (congrArg Plane.rest hplane :)⟩

/-- Only `Ready` and `Advance` move batches and checkpoints. -/
theorem call (n : RawNode) {c : Call} (hready : c ≠ .ready) (hadvance : ∀ rd, c ≠ .advance rd) :
    Steady n (n.call c).1 := by
  by_cases hquiet : quietCall c = true
  · exact of_shifts (n.shifts_call hquiet).widen
  · cases c with
    | step m => exact step n m
    | ready => exact absurd rfl hready
    | advance rd => exact absurd rfl (hadvance rd)
    | provideRecordLoad ref found => exact provideRecordLoad n ref found
    | reserve membership floor => exact reserve n membership floor
    | _ => exact absurd rfl hquiet

end Steady

/-! ### Acknowledged batches -/

/-- What an acknowledged batch does to the checkpoint and the queues. -/
structure Acked (rd : Ready) (n m : RawNode) : Prop where
  awaits : m.awaitAdvance = n.awaitAdvance
  frozen : m.frozenReady = consumeReady n.frozenReady rd
  rest : m.plane.rest = n.plane.rest
  descriptor : m.durableCheckpoint.descriptor =
    (rd.snapshot.elim n.durableCheckpoint Snapshot.checkpoint).descriptor
  certificate : m.durableCheckpoint.certificate =
    (rd.snapshot.elim n.durableCheckpoint Snapshot.checkpoint).certificate
  compact : m.plane.asks.compact = n.plane.asks.compact ∨ ∃ snapshot, rd.snapshot = some snapshot ∧
    m.plane.asks.compact = canonicalCompactionRanges snapshot.checkpoint
  compacting : rd.snapshot = none → m.checkpointCompacting = n.checkpointCompacting
  install : ∀ checkpoint, m.plane.asks.snapshot = some ⟨.install, checkpoint⟩ →
    n.plane.asks.snapshot = some ⟨.install, checkpoint⟩
  paused : n.executionPaused = true → m.executionPaused = true ∧
    ∀ ref, m.executed.contains ref = true → n.executed.contains ref = true

namespace Acked

theorem shifts (hacked : Acked rd n m) (hshifts : Shifts .any m m') : Acked rd n m' where
  awaits := hshifts.awaits.trans hacked.awaits
  frozen := hshifts.frozen.trans hacked.frozen
  rest := hshifts.calm.rest.trans hacked.rest
  descriptor := (congrArg Checkpoint.descriptor hshifts.calm.durable).trans hacked.descriptor
  certificate := (congrArg Checkpoint.certificate hshifts.calm.durable).trans hacked.certificate
  compact := by
    rw [hshifts.calm.compact]
    exact hacked.compact
  compacting := fun hnone ↦ hshifts.calm.compacting.trans (hacked.compacting hnone)
  install := fun checkpoint hinstall ↦
    hacked.install checkpoint (hshifts.calm.install checkpoint hinstall)
  paused := fun hpaused ↦
    have hmiddle := hacked.paused hpaused
    have hlast := hshifts.calm.paused hmiddle.1
    ⟨hlast.1, fun ref hin ↦ hmiddle.2 ref (hlast.2 ref hin)⟩

/-- The acknowledged part leaves the frozen batch, and its snapshot becomes the checkpoint. -/
theorem consume (hm : m.frame = n.frame) (acknowledged : Ready) :
    Acked rd n { m with
      frozenReady := consumeReady m.frozenReady rd, acknowledged := acknowledged
      durableCheckpoint := rd.snapshot.elim m.durableCheckpoint Snapshot.checkpoint } := by
  have hsteady := Steady.of_frame hm
  have hcalm := ((Shifts.refl n).of_frame hm : Shifts .any n m).calm
  exact
    { awaits := hsteady.awaits
      frozen := congrArg (consumeReady · rd) hsteady.frozen
      rest := hsteady.rest
      descriptor := congrArg (fun durable ↦ (rd.snapshot.elim durable
        Snapshot.checkpoint).descriptor) hsteady.durable
      certificate := congrArg (fun durable ↦ (rd.snapshot.elim durable
        Snapshot.checkpoint).certificate) hsteady.durable
      compact := Or.inl hsteady.compact
      compacting := fun _ ↦ hcalm.compacting
      install := hcalm.install
      paused := hcalm.paused }

/-- A certified snapshot is compacted. -/
theorem compactRanges (hacked : Acked rd n m) {snapshot : Snapshot}
    (hsnapshot : rd.snapshot = some snapshot) {node : RawNode} {round : CheckpointRound}
    (hnode : Shifts .any { m with checkpointRound := some round
                                  durableCheckpoint := snapshot.checkpoint } node) :
    Acked rd n ({ node with checkpointCompacting := true }.modifyReady fun ready ↦
      { ready with
        compact := canonicalCompactionRanges snapshot.checkpoint, mustSync := true }) := by
  have hstored : Acked rd n { m with checkpointRound := some round
                                     durableCheckpoint := snapshot.checkpoint } :=
    { hacked with
      descriptor := by rw [hsnapshot]; rfl
      certificate := by rw [hsnapshot]; rfl }
  have hmoved := hstored.shifts hnode
  have hplane := Shifts.plane_modifyReady_asks { node with checkpointCompacting := true }
    (f := fun ready ↦
      { ready with compact := canonicalCompactionRanges snapshot.checkpoint, mustSync := true })
    (g := fun asks ↦ { asks with compact := canonicalCompactionRanges snapshot.checkpoint })
    fun _ ↦ rfl
  exact
    { awaits := (awaits_modifyReady _ _).trans hmoved.awaits
      frozen := (frozen_modifyReady _ _).trans hmoved.frozen
      rest := (congrArg Plane.rest hplane).trans hmoved.rest
      descriptor := (congrArg (fun plane ↦ plane.durable.descriptor) hplane :).trans
        hmoved.descriptor
      certificate := (congrArg (fun plane ↦ plane.durable.certificate) hplane :).trans
        hmoved.certificate
      compact := Or.inr ⟨snapshot, hsnapshot,
        (congrArg (fun plane ↦ plane.asks.compact) hplane :)⟩
      compacting := fun hnone ↦ absurd (hnone.symm.trans hsnapshot) (by simp)
      install := fun checkpoint hinstall ↦ hmoved.install checkpoint
        ((congrArg (fun plane ↦ plane.asks.snapshot) hplane :).symm.trans hinstall)
      paused := fun hpaused ↦
        ⟨(congrArg Plane.paused hplane :).trans (hmoved.paused hpaused).1, fun ref hin ↦
          (hmoved.paused hpaused).2 ref
            ((congrArg (fun plane ↦ plane.executed.contains ref) hplane :).symm.trans hin)⟩ }

/-- A finished compaction moves the compacted frontier. -/
theorem compacted (hacked : Acked rd n m) (compactedThrough : ExecutionFrontier) :
    Acked rd n { m with durableCheckpoint := { m.durableCheckpoint with
      compactedThrough := compactedThrough } } :=
  { hacked with
    descriptor := hacked.descriptor
    certificate := hacked.certificate }

end Acked

/-- An acknowledgement takes the batch up, moves the compacted frontier when the last range was
stored, and queues the executed records. -/
theorem acknowledge_stages (n : RawNode) (rd : Ready) : ∃ m, Acked rd n m ∧
    Shifts .any (if !rd.compact.isEmpty && m.frozenReady.compact.isEmpty then
        { m with durableCheckpoint := { m.durableCheckpoint with
            compactedThrough := m.durableCheckpoint.descriptor.through } }
      else m) (n.acknowledge rd) := by
  unfold acknowledge
  extract_lets hard voter consumed installed checkpoint compacting executed durable
  have hhard : hard.frame = n.frame := by
    unfold hard
    split_ifs <;> rfl
  have hvoter : voter.frame = n.frame := by
    unfold voter
    split
    · exact hhard
    · exact hhard
  have hconsumed : Acked rd n { voter with
      frozenReady := consumeReady voter.frozenReady rd
      acknowledged := voter.acknowledged.followedBy (returnedPart voter.frozenReady rd)
      durableCheckpoint := rd.snapshot.elim voter.durableCheckpoint Snapshot.checkpoint } :=
    Acked.consume hvoter _
  have hinstalled : Acked rd n installed := by
    unfold installed
    split
    · next hnone =>
      rw [hnone] at hconsumed
      exact hconsumed
    · next snapshot hsome =>
      rw [hsome] at hconsumed
      rcases Shifts.checkpointSnapshotAdvanced
        { consumed with durableCheckpoint := snapshot.checkpoint } snapshot with
        hshifts | ⟨-, round, node, hnode, hcompact⟩
      · exact hconsumed.shifts hshifts.widen
      · rw [hcompact]
        exact hconsumed.compactRanges hsome hnode.widen
  refine ⟨installed, hinstalled, ?_⟩
  have hdurable : Shifts .any compacting durable := (Shifts.refl compacting).of_frame rfl
  exact hdurable.enqueueExecutedRecords rd.apply

theorem acked_acknowledge (n : RawNode) (rd : Ready) : Acked rd n (n.acknowledge rd) := by
  obtain ⟨m, hacked, hshifts⟩ := n.acknowledge_stages rd
  refine Acked.shifts ?_ hshifts
  split_ifs
  · exact hacked.compacted _
  · exact hacked

/-- The last range of a compaction moves the compacted frontier to the checkpoint. -/
theorem compactedThrough_acknowledge (n : RawNode) {rd : Ready} (hcompact : rd.compact ≠ [])
    (hlast : n.frozenReady.compact.drop rd.compact.length = []) :
    (n.acknowledge rd).durableCheckpoint.compactedThrough =
      (n.acknowledge rd).durableCheckpoint.descriptor.through := by
  obtain ⟨m, hacked, hshifts⟩ := n.acknowledge_stages rd
  have hdone : m.frozenReady.compact = [] := by
    rw [hacked.frozen]
    exact hlast
  rw [if_pos (by simp [hcompact, hdone])] at hshifts
  have hdurable := (Steady.of_shifts hshifts).durable
  rw [hdurable]

/-! ### Freezing and thawing -/

theorem freezeReady_asks (n : RawNode) (hawaits : n.awaitAdvance = false) :
    n.freezeReady.frozenReady.asks = n.plane.asks ∧ n.freezeReady.plane.asks = n.plane.rest ∧
      n.freezeReady.plane.rest = {} := by
  have hasks : n.plane.asks = n.pendingReady.asks := by simp [plane, hawaits]
  have hrest : n.plane.rest = n.nextReady.asks := by simp [plane, hawaits]
  rw [hasks, hrest]
  unfold freezeReady
  extract_lets pending frozen split kept part
  refine ⟨?_, rfl, ?_⟩
  · have hpart : part.asks = n.pendingReady.asks := by
      unfold part frozen
      split_ifs <;> rfl
    exact hpart
  · have hkept : kept.asks = {} := by
      unfold kept
      split_ifs <;> rfl
    exact hkept

theorem plane_thaw (hawaits : n.awaitAdvance = true) :
    { n with awaitAdvance := false, frozenReady := {} }.mergeNextReady.plane =
      { n.plane with
        asks := ⟨n.plane.asks.snapshot.or n.plane.rest.snapshot,
          n.plane.asks.checkpoint.or n.plane.rest.checkpoint,
          n.plane.rest.compact ++ n.plane.asks.compact⟩
        rest := {} } := by
  simp only [plane, mergeNextReady, hawaits, if_true, Bool.false_eq_true, if_false]
  rfl

/-! ### Starting -/

/-- The queues and the plane stay, but for the clocks. -/
structure Untouched (n m : RawNode) : Prop where
  plane : { m.plane with timing := n.plane.timing } = n.plane
  awaits : m.awaitAdvance = n.awaitAdvance
  frozen : m.frozenReady = n.frozenReady

namespace Untouched

theorem trans (hfirst : Untouched n m) (hsecond : Untouched m m') : Untouched n m' :=
  ⟨(congrArg (fun plane ↦ { plane with timing := n.plane.timing }) hsecond.plane :).trans
    hfirst.plane, hsecond.awaits.trans hfirst.awaits, hsecond.frozen.trans hfirst.frozen⟩

/-- Only the clocks of the plane are set before the records are taken up. -/
theorem prepares {P : RawNode → Prop} (hP : ∀ n m, P n → Untouched n m → P m) : Prepares P where
  add := fun _ _ _ hn ↦ hP _ _ hn ⟨rfl, rfl, rfl⟩
  apply := fun _ _ hn ↦ hP _ _ hn ⟨rfl, rfl, rfl⟩
  choose := fun _ _ _ _ hn ↦ hP _ _ hn ⟨rfl, rfl, rfl⟩
  note := fun _ _ hn ↦ hP _ _ hn ⟨rfl, rfl, rfl⟩
  time := fun _ _ hn ↦ hP _ _ hn ⟨rfl, rfl, rfl⟩

/-- A node that has only read its configurations has nothing queued and no checkpoint. -/
theorem bootNode {id : ReplicaID} {cfg : Config} {base : VoterSet} {storage : Storage}
    (hres : bootNode id cfg base storage = some n) :
    Untouched { id := id, membership := storage.membership } n := by
  have hprepares := prepares (P := Untouched { id := id, membership := storage.membership })
    fun _ _ hfirst hsecond ↦ hfirst.trans hsecond
  exact hprepares.bootNode ⟨rfl, rfl, rfl⟩ hres

end Untouched

/-- What a node has of the plane while it is built from storage. -/
structure Booting (storage : Storage) (n : RawNode) : Prop where
  durable : n.durableCheckpoint = storage.checkpoint ∨ n.durableCheckpoint = {}
  awaits : n.awaitAdvance = false
  frozen : n.frozenReady = {}
  compact : n.plane.asks.compact = []
  rest : n.plane.rest = {}
  compacting : n.checkpointCompacting = false
  /-- The snapshot it begins with is that of the stored checkpoint. Until it is installed nothing is
  executed but what the compacted frontier covers and what is stored as executed. -/
  install : ∀ checkpoint, n.plane.asks.snapshot = some ⟨.install, checkpoint⟩ →
    checkpoint = storage.checkpoint ∧ checkpointCertified checkpoint = true ∧
      n.executionPaused = true ∧ ∀ ref, n.executed.contains ref = true →
        ref.inst ≤ (checkpoint.compactedThrough.prefixes.get? (laneFor ref)).getD 0 ∨
          ∃ rec ∈ storage.loadedRecords, rec.ref = ref ∧ rec.status = .executed

namespace Booting

variable {storage : Storage}

theorem shifts (hn : n.Booting storage) (hshifts : Shifts .any n m) : m.Booting storage where
  durable := by
    rw [show m.durableCheckpoint = n.durableCheckpoint from hshifts.calm.durable]
    exact hn.durable
  awaits := hshifts.awaits.trans hn.awaits
  frozen := hshifts.frozen.trans hn.frozen
  compact := hshifts.calm.compact.trans hn.compact
  rest := hshifts.calm.rest.trans hn.rest
  compacting := hshifts.calm.compacting.trans hn.compacting
  install := fun checkpoint hinstall ↦ by
    obtain ⟨heq, hcertified, hpaused, hexecuted⟩ :=
      hn.install checkpoint (hshifts.calm.install checkpoint hinstall)
    obtain ⟨hstill, hsub⟩ := hshifts.calm.paused hpaused
    exact ⟨heq, hcertified, hstill, fun ref hin ↦ hexecuted ref (hsub ref hin)⟩

theorem untouched (hn : n.Booting storage) (hsame : Untouched n m) : m.Booting storage where
  durable := by
    rw [show m.durableCheckpoint = n.durableCheckpoint from congrArg Plane.durable hsame.plane]
    exact hn.durable
  awaits := hsame.awaits.trans hn.awaits
  frozen := hsame.frozen.trans hn.frozen
  compact := (congrArg (fun plane ↦ plane.asks.compact) hsame.plane).trans hn.compact
  rest := (congrArg Plane.rest hsame.plane).trans hn.rest
  compacting := (congrArg Plane.compacting hsame.plane :).trans hn.compacting
  install := fun checkpoint hinstall ↦ by
    have hasks : m.plane.asks = n.plane.asks := (congrArg Plane.asks hsame.plane :)
    rw [hasks] at hinstall
    obtain ⟨heq, hcertified, hpaused, hexecuted⟩ := hn.install checkpoint hinstall
    refine ⟨heq, hcertified, (congrArg Plane.paused hsame.plane :).trans hpaused, fun ref hin ↦ ?_⟩
    have hsame : m.executed = n.executed := congrArg Plane.executed hsame.plane
    exact hexecuted ref (hsame ▸ hin)

theorem loadCheckpoint {id : ReplicaID} {membership : Membership}
    (hn : Untouched { id := id, membership := membership } n)
    (hres : n.loadCheckpoint storage.checkpoint = some m) : m.Booting storage := by
  have hasks : n.plane.asks = {} := congrArg Plane.asks hn.plane
  have hrest : n.plane.rest = {} := congrArg Plane.rest hn.plane
  have hcompacting : n.checkpointCompacting = false := congrArg Plane.compacting hn.plane
  unfold RawNode.loadCheckpoint at hres
  split at hres
  · obtain rfl := Option.some.inj hres
    refine ⟨Or.inr (congrArg Plane.durable hn.plane), hn.awaits, hn.frozen,
      congrArg Asks.compact hasks,
      hrest, hcompacting, fun checkpoint hinstall ↦ ?_⟩
    rw [hasks] at hinstall
    exact absurd hinstall (by simp)
  split at hres
  · simp at hres
  extract_lets through fences read at hres
  split at hres
  · next hcertified =>
    have hplane := Shifts.plane_proposeSnapshot read .install storage.checkpoint
    obtain rfl := Option.some.inj hres
    refine ⟨Or.inl (congrArg Plane.durable hplane), (awaits_modifyReady _ _).trans hn.awaits,
      (frozen_modifyReady _ _).trans hn.frozen, ?_, (congrArg Plane.rest hplane).trans hrest,
      (congrArg Plane.compacting hplane :).trans hcompacting, fun checkpoint hinstall ↦ ?_⟩
    · exact (congrArg (fun plane ↦ plane.asks.compact) hplane :).trans (congrArg Asks.compact hasks)
    · have hsnapshot : some (Snapshot.mk .install storage.checkpoint) =
          some ⟨.install, checkpoint⟩ :=
        (congrArg (fun plane ↦ plane.asks.snapshot) hplane :).symm.trans hinstall
      obtain rfl : storage.checkpoint = checkpoint := by simpa using hsnapshot
      refine ⟨rfl, hcertified, rfl, fun ref hin ↦ Or.inl ?_⟩
      have hexecuted : (read.proposeSnapshot .install storage.checkpoint).executed =
          ⟨[], storage.checkpoint.compactedThrough.prefixes⟩ := congrArg Plane.executed hplane
      have hcontains : ExecutedTracker.contains
          ⟨[], storage.checkpoint.compactedThrough.prefixes⟩ ref = true := hexecuted ▸ hin
      have hnamed := ExecutedTracker.named_of_contains _ hcontains
      simpa [ExecutedTracker.throughOf] using (ExecutedTracker.contains_iff _ hnamed).mp hcontains
  · obtain rfl := Option.some.inj hres
    refine ⟨Or.inl rfl, hn.awaits, hn.frozen, congrArg Asks.compact hasks,
      hrest, hcompacting, fun checkpoint hinstall ↦ ?_⟩
    have hnone : n.plane.asks.snapshot = some ⟨.install, checkpoint⟩ := hinstall
    rw [hasks] at hnone
    exact absurd hnone (by simp)

/-- Taking a record up marks it when it is executed. -/
theorem installInstance (hn : n.Booting storage) {inst : Instance}
    (hrec : inst.record ∈ storage.loadedRecords) (hkeyed : inst.Keyed inst.record.ref) :
    (n.installInstance inst).Booting storage := by
  obtain ⟨node, hnode, hinst⟩ := Shifts.installInstance_eq n inst
  have hbooting := hn.shifts ((Shifts.refl n).of_reindex hnode (fun _ hm ↦
    hm.insert (Index.keyed_settled hkeyed) _) (fun _ hm ↦ hm.install hkeyed) nofun)
  rw [hinst]
  split_ifs with hstatus
  · refine { hbooting with awaits := hbooting.awaits, install := fun checkpoint hinstall ↦ ?_ }
    obtain ⟨heq, hcertified, hpaused, hexecuted⟩ := hbooting.install checkpoint hinstall
    refine ⟨heq, hcertified, hpaused, fun ref hin ↦ ?_⟩
    by_cases hnamed : inst.record.ref.inst = 0
    · have hadd : node.executed.add inst.record.ref = node.executed := by
        simp [ExecutedTracker.add, hnamed]
      exact hexecuted ref (hadd ▸ hin)
    · rcases (node.executed.contains_add hnamed ref).mp hin with hold | rfl
      · exact hexecuted ref hold
      · exact Or.inr ⟨inst.record, hrec, rfl, hstatus⟩
  · exact hbooting

theorem loadRecord (hn : n.Booting storage) {rec : InstanceRecord}
    (hrec : rec ∈ storage.loadedRecords) (hres : n.loadRecord rec = some m) :
      m.Booting storage := by
  obtain ⟨conf, -, hload⟩ := Option.bind_eq_some_iff.mp hres
  obtain ⟨-, hload⟩ := Option.ite_none_left_eq_some.mp hload
  obtain rfl := Option.some.inj hload
  refine Booting.shifts ?_ (Shifts.settle _ rec).widen
  have hinstalled : (n.installInstance (n.seedLocalRestartVote
      { record := rec, phase := n.restartPhase rec,
        processAt := rec.processAt })).Booting storage :=
    hn.installInstance (by rw [seedLocalRestartVote_record]; exact hrec)
      (n.keyed_loaded rec (n.restartPhase rec))
  split
  · exact hinstalled.untouched ⟨rfl, rfl, rfl⟩
  · exact hinstalled

theorem restorePreparedCheckpoint (hn : n.Booting storage) {checkpoint : Checkpoint}
    (hres : n.restorePreparedCheckpoint checkpoint = some m) : m.Booting storage := by
  unfold RawNode.restorePreparedCheckpoint at hres
  split at hres
  · exact Option.some.inj hres ▸ hn
  split at hres
  · simp at hres
  split at hres
  · simp at hres
  · obtain rfl := Option.some.inj hres
    refine Booting.shifts ?_
      ((Shifts.refl _).broadcastCheckpointControl _ _ _).maybeCertifyCheckpoint
    refine { hn with awaits := hn.awaits, install := fun checkpoint hinstall ↦ ?_ }
    obtain ⟨heq, hcertified, -, hexecuted⟩ := hn.install checkpoint hinstall
    exact ⟨heq, hcertified, rfl, hexecuted⟩

end Booting

theorem booting_newRawNode {id : ReplicaID} {cfg : Config} {base : VoterSet} {storage : Storage}
    (hres : newRawNode id cfg base storage = some n) : n.Booting storage := by
  unfold newRawNode at hres
  simp only [Option.bind_eq_bind, Option.bind_eq_some_iff] at hres
  obtain ⟨boot, hboot, installed, hinstalled, replayed, hreplayed, loaded, hloaded, resumed,
    hresumed, restored, hrestored, hfinal⟩ := hres
  have hbooted := Untouched.bootNode hboot
  have hprepares := Untouched.prepares fun _ _ (hn : RawNode.Booting storage _) ↦ hn.untouched
  have hreplays := hprepares.replayed (Booting.loadCheckpoint hbooted hinstalled) hreplayed
  have hloads : loaded.Booting storage := foldlM_preserves _
    (fun node rec node' hmem hnode hrec ↦ Booting.loadRecord hnode hmem hrec)
    (hreplays.shifts (Shifts.enterRuntime replayed cfg.cluster)) hloaded
  have hresumes : Shifts .call loaded resumed := foldlM_preserves _
    (fun node rec node' _ hnode hrec ↦ Shifts.resumeRecord hnode hrec) (.refl loaded) hresumed
  have hrestores := (hloads.shifts hresumes.widen).restorePreparedCheckpoint hrestored
  obtain rfl := Option.some.inj hfinal
  have hdriven : RawNode.Booting storage (if restored.executionPaused then restored
      else restored.beginDrive.runExecution) := by
    split
    · exact hrestores
    · exact hrestores.shifts (Shifts.runExecution (m := restored.beginDrive) (.refl restored))
  exact hdriven.untouched ⟨rfl, rfl, rfl⟩

end RawNode

end MoreConsensus
