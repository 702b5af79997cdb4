import MoreConsensus.Host
import MoreConsensus.Shifts.Drive

/-!
# Calls on the frame

What an application asks of a node shifts its frame, and besides that moves work through the queues:
`Ready` freezes what is pending, `Advance` takes an acknowledged part of the frozen batch away and,
when nothing is left of it, lets the work that came up meanwhile follow what is pending. An answer
to a record load closes it.
-/

set_option autoImplicit false

namespace MoreConsensus

open Library

namespace Frame

/-- The steps of a frame in a call other than `Ready`. -/
inductive Turn (f : Frame) : Frame → Prop
  | shift {g : Frame} (hshift : f.Shift g) : Turn f g
  | consume {rd : Ready} (hawaits : f.outbox.awaits = true)
      (hpart : (RawNode.returnedPart f.outbox.frozen rd).batch ++
        (RawNode.consumeReady f.outbox.frozen rd).batch = f.outbox.frozen.batch) :
      Turn f { f with outbox := f.outbox.consume rd }
  | thaw (hawaits : f.outbox.awaits = true) (hempty : f.outbox.frozen = {}) :
      Turn f { f with outbox := f.outbox.thaw }
  /-- A record load is answered. -/
  | close (ref : InstanceRef) : Turn f { f with loads := f.loads.erase ref }

end Frame

namespace RawNode

/-- Any number of turns that keep the messages that wait for a record counted. -/
structure TurnsTo (time : Bool) (f g : Frame) : Prop where
  steps : Relation.ReflTransGen Frame.Turn f g
  keyed : f.index.Keyed → g.index.Keyed
  counted : f.Counted → g.Counted
  thins : time = false → f.plane.timing.Thins g.plane.timing

/-- Any number of turns; `time` says whether time may pass. -/
def Turns (time : Bool) (n n' : RawNode) : Prop := TurnsTo time n.frame n'.frame

variable {scope : Scope} {time : Bool} {n m m' : RawNode} {ref : InstanceRef}

theorem awaits_shift {f g : Frame} (hshift : f.Shift g) : g.outbox.awaits = f.outbox.awaits := by
  cases hshift with
  | emit => exact Outbox.awaits_push ..
  | ask =>
    unfold Outbox.ask
    dsimp only
    split_ifs <;> rfl
  | wait => rfl
  | change => exact Outbox.awaits_push ..
  | plane => rfl
  | reindex => rfl
  | activate => exact Outbox.awaits_push ..

/-- Shifts neither freeze a batch nor thaw one. -/
theorem Shifts.awaits (hshifts : Shifts .any n m) : m.awaitAdvance = n.awaitAdvance := by
  have hall : ∀ g, Relation.ReflTransGen Frame.Shift n.frame g →
      g.outbox.awaits = n.frame.outbox.awaits := by
    intro g hreach
    induction hreach with
    | refl => rfl
    | tail _ hshift ih => exact (awaits_shift hshift).trans ih
  exact hall _ hshifts.steps

/-- What every turn keeps. -/
theorem Turns.preserves {P : Frame → Prop} (hturns : Turns time n m)
    (hturn : ∀ f g, f.Turn g → P f → P g) (hn : P n.frame) : P m.frame := by
  have hsteps := hturns.steps
  generalize m.frame = g at hsteps ⊢
  induction hsteps with
  | refl => exact hn
  | tail _ hstep ih => exact hturn _ _ hstep ih

/-- What a node is started with and keeps. -/
def settings (n : RawNode) : ReplicaID × Config := (n.id, n.cfg)

theorem settings_shift {f g : Frame} (hshift : f.Shift g) : (g.id, g.cfg) = (f.id, f.cfg) := by
  cases hshift <;> rfl

theorem Turns.settings (hturns : Turns time n m) : m.settings = n.settings := by
  refine hturns.preserves (P := fun f ↦ (f.id, f.cfg) = n.settings) ?_ rfl
  intro f g hturn hf
  cases hturn with
  | shift hshift => exact (settings_shift hshift).trans hf
  | _ => exact hf

theorem Shifts.turns (hshifts : Shifts ⟨time, true⟩ n m) : Turns time n m :=
  ⟨Relation.ReflTransGen.mono (fun _ _ hshift ↦ Frame.Turn.shift hshift) _ _ hshifts.steps,
    hshifts.keyed, hshifts.counted, Frame.Shifts.thins hshifts⟩

namespace Turns

theorem trans (hfirst : Turns time n m) (hsecond : Turns time m m') : Turns time n m' :=
  ⟨hfirst.steps.trans hsecond.steps, fun hn ↦ hsecond.keyed (hfirst.keyed hn),
    fun hn ↦ hsecond.counted (hfirst.counted hn), fun htime ↦
      (hfirst.thins htime).trans (hsecond.thins htime)⟩

/-- A turn that leaves the plane and the record loads alone. -/
theorem turn (hturns : Turns time n m) (hturn : m.frame.Turn m'.frame)
    (hplane : m'.plane = m.plane) (hloads : m'.pendingRecordLoads = m.pendingRecordLoads)
    (hkeyed : m.index.Keyed → m'.index.Keyed) : Turns time n m' :=
  ⟨hturns.steps.tail hturn, fun hn ↦ hkeyed (hturns.keyed hn), fun hn ↦
    Shifts.counted_of_loads (f := m.frame) hplane hloads (hturns.counted hn),
    fun htime ↦ (hplane ▸ hturns.thins htime : n.plane.timing.Thins m'.plane.timing)⟩

theorem refl (n : RawNode) : Turns time n n :=
  ⟨Relation.ReflTransGen.refl, fun hn ↦ hn, fun hn ↦ hn, fun _ ↦ Timing.Thins.refl _⟩

theorem lax (hturns : Turns false n m) : Turns time n m :=
  ⟨hturns.steps, hturns.keyed, hturns.counted, fun _ ↦ hturns.thins rfl⟩

section

variable (hturns : Turns time n m)

include hturns

theorem shifts (hshifts : Shifts ⟨time, true⟩ m m') : Turns time n m' :=
  hturns.trans hshifts.turns

/-- A change of nothing but the plane and the resident instances. -/
theorem reindex
    (hframe : m'.frame = { m.frame.reindexed m'.index with plane := m'.plane })
    (hheld : m'.plane.held = m.plane.held) (htiming : m'.plane.timing = m.plane.timing)
    (hkeyed : m.index.Keyed → m'.index.Keyed) : Turns time n m' := by
  have hloads : m'.pendingRecordLoads = m.pendingRecordLoads := congrArg Frame.loads hframe
  refine ⟨?_, fun hn ↦ hkeyed (hturns.keyed hn), fun hn ↦ ?_, fun htime ↦ ?_⟩
  · rw [hframe]
    exact (hturns.steps.tail (.shift (.reindex _))).tail (.shift (.plane _))
  · have hm : m.plane.held = m.pendingRecordLoads.total _ := hturns.counted hn
    rw [← hheld, ← hloads] at hm
    exact hm
  · exact (htiming ▸ hturns.thins htime : n.plane.timing.Thins m'.plane.timing)

/-- A change of nothing but the plane. -/
theorem plane (hframe : m'.frame = { m.frame with plane := m'.plane })
    (hheld : m'.plane.held = m.plane.held) (htiming : m'.plane.timing = m.plane.timing) :
    Turns time n m' := by
  have hindex : m'.index = m.index := congrArg Frame.index hframe
  refine hturns.reindex (hframe.trans ?_) hheld htiming fun hm ↦ hindex ▸ hm
  rw [hindex]
  rfl

/-- An update of what a batch asks of the application. -/
theorem modifyReady {f : Ready → Ready}
    (hf : ∀ rd, (f rd).batch = rd.batch) (hloads : ∀ rd, (f rd).recordLoads = rd.recordLoads) :
    Turns time n (m.modifyReady f) :=
  hturns.plane (Shifts.frame_modifyReady_other _ hf hloads) (Shifts.held_modifyReady ..)
    (Shifts.timing_modifyReady ..)

theorem installInstance {inst : Instance}
    (hinst : inst.Keyed inst.record.ref) : Turns time n (m.installInstance inst) := by
  obtain ⟨node, hnode, hinstalled⟩ := Shifts.installInstance_eq m inst
  have hindex : node.index = m.index.install inst := congrArg Frame.index hnode
  have hplane : node.plane = m.plane := congrArg Frame.plane hnode
  have hturned : Turns time n node := by
    refine hturns.reindex ?_ (by rw [hplane]) (by rw [hplane]) fun hm ↦ ?_
    · rw [hnode, hplane, hindex]
      rfl
    · rw [hindex]
      exact hm.insert (Index.keyed_settled hinst) _
  rw [hinstalled]
  split_ifs
  · exact hturned.plane rfl rfl rfl
  · exact hturned

/-- A loop whose body is a sequence of turns. -/
theorem foldl {α : Type} {f : RawNode → α → RawNode}
    (hf : ∀ {node : RawNode} (a : α), Turns time n node → Turns time n (f node a)) (as : List α) :
    Turns time n (as.foldl f m) := by
  induction as generalizing m with
  | nil => exact hturns
  | cons a rest ih => exact ih (hf a hturns)

end

end Turns

namespace Shifts

/-! ### Folding -/

theorem foldInstance (hshifts : Shifts .upkeep n m) {rec : InstanceRecord}
    (hrec : m.record? ref = some rec) : Shifts .upkeep n (m.foldInstance ref rec) := by
  obtain ⟨inst, hget, rfl⟩ := Option.map_eq_some_iff.mp hrec
  refine Shifts.note ?_ rfl
  exact hshifts.of_reindex rfl (fun _ hm ↦ hm.erase ref _ _) (fun _ hm ↦ hm.fold hget rfl) nofun

theorem record?_foldInstance {other : InstanceRef} (hother : other ≠ ref) (rec : InstanceRecord) :
    (m.foldInstance ref rec).record? other = m.record? other := by
  change ((m.instances.erase ref).get? other).map _ = _
  rw [FiniteMap.get?_erase, if_neg hother]
  rfl

theorem dropPayload (hshifts : Shifts .upkeep n m) (ref : InstanceRef) :
    Shifts .upkeep n (m.dropPayload ref) := by
  unfold RawNode.dropPayload
  split
  · exact hshifts
  split
  · exact hshifts
  · exact hshifts.setInstance _ _ nofun fun _ hm inst hget ↦
      (hm ref inst hget).of_record (hm ref inst hget).record rfl rfl

theorem record?_dropPayload {other : InstanceRef} (hother : other ≠ ref) :
    (m.dropPayload ref).record? other = m.record? other := by
  unfold RawNode.dropPayload
  split
  · rfl
  split
  · rfl
  · rw [record?, get?_setInstance, if_neg hother]
    rfl

/-- Folds several instances. Assumes: they are resident. -/
theorem foldInstances (hshifts : Shifts .upkeep n m) {items : List (InstanceRef × InstanceRecord)}
    (hdistinct : (items.map Prod.fst).Nodup)
    (hresident : ∀ item ∈ items, m.record? item.1 = some item.2) :
    Shifts .upkeep n (items.foldl (fun node item ↦ node.foldInstance item.1 item.2) m) := by
  induction items generalizing m with
  | nil => exact hshifts
  | cons item rest ih =>
    rw [List.map_cons, List.nodup_cons] at hdistinct
    refine ih (hshifts.foldInstance (hresident item List.mem_cons_self)) hdistinct.2
      fun other hother ↦ ?_
    have hne : other.1 ≠ item.1 := fun heq ↦
      hdistinct.1 (heq ▸ List.mem_map_of_mem (f := Prod.fst) hother)
    rw [record?_foldInstance hne]
    exact hresident other (List.mem_cons_of_mem _ hother)

/-- Retiring a lane leaves the other lanes alone. -/
theorem record?_retireLane {other : InstanceRef} {lane : InstanceLane}
    (hother : laneFor other ≠ lane)
    (items : List (InstanceRef × InstanceRecord)) :
    (retireLane items m lane).record? other = m.record? other := by
  have hfolds : ∀ (due : List (InstanceRef × InstanceRecord)) (node : RawNode),
      (∀ item ∈ due, laneFor item.1 = lane) →
      (due.foldl (fun node item ↦ node.foldInstance item.1 item.2) node).record? other =
        node.record? other := by
    intro due
    induction due with
    | nil => exact fun node _ ↦ rfl
    | cons item rest ih =>
      intro node hdue
      refine (ih _ fun item hitem ↦ hdue item (List.mem_cons_of_mem _ hitem)).trans ?_
      exact record?_foldInstance (fun heq ↦
        hother ((congrArg laneFor heq).trans (hdue item List.mem_cons_self))) _
  have hdrops : ∀ (rest : List (InstanceRef × InstanceRecord)) (node : RawNode),
      (∀ item ∈ rest, laneFor item.1 = lane) →
      (rest.foldl (fun node item ↦ node.dropPayload item.1) node).record? other =
        node.record? other := by
    intro rest
    induction rest with
    | nil => exact fun node _ ↦ rfl
    | cons item rest ih =>
      intro node hrest
      refine (ih _ fun item hitem ↦ hrest item (List.mem_cons_of_mem _ hitem)).trans ?_
      exact record?_dropPayload fun heq ↦
        hother ((congrArg laneFor heq).trans (hrest item List.mem_cons_self))
  unfold RawNode.retireLane
  extract_lets own executedThrough target folded due retired contiguous node
  have hown : ∀ item ∈ own, laneFor item.1 = lane := fun item hitem ↦
    of_decide_eq_true (List.mem_filter.mp hitem).2
  split
  · rfl
  refine (hdrops own node hown).trans ?_
  unfold node
  split
  · rfl
  have hretired : retired.record? other = m.record? other :=
    hfolds due m fun item hitem ↦ hown item (List.mem_filter.mp hitem).1
  split
  · exact hretired
  · exact hretired

theorem retireLane (hshifts : Shifts .upkeep n m) {items : List (InstanceRef × InstanceRecord)}
    {lane : InstanceLane} (hdistinct : (items.map Prod.fst).Nodup)
    (hresident : ∀ item ∈ items, laneFor item.1 = lane → m.record? item.1 = some item.2) :
    Shifts .upkeep n (retireLane items m lane) := by
  unfold RawNode.retireLane
  extract_lets own executedThrough target folded due retired contiguous node
  split
  · exact hshifts
  refine Shifts.foldl ?_ (fun item hnode ↦ hnode.dropPayload item.1) _
  unfold node
  split
  · exact hshifts
  have hretired : Shifts .upkeep n retired := by
    refine hshifts.foldInstances ?_ fun item hitem ↦ ?_
    · refine hdistinct.sublist (List.Sublist.map _ ?_)
      exact List.filter_sublist.trans List.filter_sublist
    · have hown := List.mem_filter.mp (List.mem_filter.mp hitem).1
      exact hresident item hown.1 (of_decide_eq_true hown.2)
  clear_value retired
  split
  · exact hretired
  have hswept : Shifts .upkeep n { retired with
      retired := retired.retired.insert lane
        ((retired.retiredLane lane).advanceFold contiguous) } := by
    refine hretired.of_reindex rfl (fun _ hm ↦ hm)
      (fun _ hm ↦ Index.Coherent.retire hm fun other ↦ ?_) nofun
    rw [FiniteMap.get?_insert]
    split_ifs with hother
    · rw [hother]
      exact le_rfl
    · exact le_rfl
  exact hswept.of_calm rfl (by exact hretired.calm.of_forget lane _) rfl rfl

/-- Retiring the executed instances lane by lane. -/
theorem retireExecuted (hshifts : Shifts .upkeep n m) : Shifts .upkeep n m.retireExecuted := by
  unfold RawNode.retireExecuted
  extract_lets items
  have hitem : ∀ item ∈ items, m.record? item.1 = some item.2 := by
    intro item hmem
    obtain ⟨entry, hentry, rfl⟩ := List.mem_map.mp hmem
    rw [record?, (m.instances.mem_entries entry.1 entry.2).mp (List.mem_filter.mp hentry).1]
    rfl
  have hdistinct : (items.map Prod.fst).Nodup := by
    have hkeys : (m.instances.entries.map Prod.fst).Nodup := m.instances.nodup_keys
    unfold items
    rw [List.map_map]
    exact hkeys.sublist (List.filter_sublist.map _)
  -- the lanes that are left have not been touched
  have hlanes : ∀ (lanes : List InstanceLane) (node : RawNode), lanes.Nodup →
      Shifts .upkeep n node →
      (∀ item ∈ items, laneFor item.1 ∈ lanes → node.record? item.1 = some item.2) →
      Shifts .upkeep n (lanes.foldl (RawNode.retireLane items) node) := by
    intro lanes
    induction lanes with
    | nil => exact fun node _ hnode _ ↦ hnode
    | cons lane rest ih =>
      intro node hlanes hnode hleft
      rw [List.nodup_cons] at hlanes
      refine ih _ hlanes.2 (hnode.retireLane hdistinct fun item hmem hlane ↦
        hleft item hmem (hlane ▸ List.mem_cons_self)) fun item hmem hlane ↦ ?_
      have hne : laneFor item.1 ≠ lane := fun heq ↦ hlanes.1 (heq ▸ hlane)
      rw [record?_retireLane hne]
      exact hleft item hmem (List.mem_cons_of_mem _ hlane)
  exact hlanes _ m (List.nodup_dedup _) hshifts fun item hmem _ ↦ hitem item hmem

theorem maybeRefoldLoaded (hshifts : Shifts .upkeep n m) (ref : InstanceRef) :
    Shifts .upkeep n (m.maybeRefoldLoaded ref) := by
  unfold RawNode.maybeRefoldLoaded
  split
  · exact hshifts
  split
  · exact hshifts
  split
  · exact hshifts.dropPayload ref
  · next inst hget _ _ =>
    exact hshifts.foldInstance (by rw [record?, hget, Option.map_some])

/-! ### Record loads -/

theorem runExport (hshifts : Shifts scope n m) (ref : InstanceRef) (work : RecordLoadExport) :
    Shifts scope n (runExport ref m work) := by
  unfold RawNode.runExport
  split
  · exact hshifts.broadcast _ _
  · exact hshifts.sendCommitTo _ _

/-! ### Checkpoints -/

theorem noteReleased (hshifts : Shifts scope n m) (refs : List InstanceRef) :
    Shifts scope n (m.noteReleased refs) :=
  hshifts.foldl (fun _ hnode ↦ hnode.note rfl) refs

/-- A stored snapshot moves its round on; a certified one becomes the durable checkpoint and is
compacted. -/
theorem checkpointSnapshotAdvanced (m : RawNode) (snapshot : Snapshot) :
    Shifts .handler m (m.checkpointSnapshotAdvanced snapshot) ∨
      checkpointCertified snapshot.checkpoint = true ∧ ∃ round node,
        Shifts .handler { m with checkpointRound := some round
                                 durableCheckpoint := snapshot.checkpoint } node ∧
          m.checkpointSnapshotAdvanced snapshot =
            { node with checkpointCompacting := true }.modifyReady fun ready ↦
              { ready with compact := canonicalCompactionRanges snapshot.checkpoint
                           mustSync := true } := by
  have hrefl : Shifts .handler m m := Shifts.refl m
  unfold RawNode.checkpointSnapshotAdvanced
  split
  · exact Or.inl hrefl
  dsimp only
  split
  · split
    · exact Or.inl hrefl
    · refine Or.inl (Shifts.broadcastCheckpointControl ?_ _ _ _).maybeCertifyCheckpoint
      exact hrefl
  next hcertified =>
  split
  · exact Or.inl hrefl
  · exact Or.inr ⟨by simpa using hcertified, _, _, ((Shifts.refl _).broadcastCheckpointControl _ _
      _).broadcastCheckpointControl _ _ _, rfl⟩

theorem enqueueExecutedRecords (hshifts : Shifts scope n m) (applied : List ApplyCommand) :
    Shifts scope n (m.enqueueExecutedRecords applied) := by
  refine hshifts.foldl (fun command hnode ↦ ?_) applied
  split
  · exact hnode
  · exact hnode.enqueueRecord _

end Shifts

namespace Turns

/-! ### Messages -/

theorem step (hturns : Turns true n m) (msg : Message) : Turns true n (m.step msg).1 := by
  rcases Shifts.step m msg with hshifts | ⟨round, localized, htaken⟩
  · exact hturns.shifts hshifts.widen
  · rw [htaken]
    refine Turns.modifyReady ?_ (fun _ ↦ rfl) fun _ ↦ rfl
    exact hturns.plane rfl rfl rfl

/-! ### Record loads -/

/-- A record load that is over takes its messages with it. -/
theorem closeRecordLoad (hturns : Turns time n m) {wait : RecordLoadWait}
    (hwait : m.pendingRecordLoads.get? ref = some wait) :
    Turns time n (m.closeRecordLoad ref wait) := by
  refine ⟨(hturns.steps.tail (.close ref)).tail (.shift (.plane _)), hturns.keyed, fun hn ↦ ?_,
    fun htime ↦ (hturns.thins htime :)⟩
  have hm : m.pendingRecordLoadMessages = m.pendingRecordLoads.total _ := hturns.counted hn
  have htotal := m.pendingRecordLoads.total_erase (fun wait ↦ wait.messages.length) ref
  rw [hwait, Option.elim_some] at htotal
  change m.pendingRecordLoadMessages - wait.messages.length =
    (m.pendingRecordLoads.erase ref).total _
  omega

/-! ### Compaction -/

section

variable (hturns : Turns time n m)

include hturns

theorem compactCheckpointMetadata :
    Turns time n m.compactCheckpointMetadata := by
  unfold RawNode.compactCheckpointMetadata
  dsimp only
  split
  · exact hturns
  refine Turns.foldl ?_ (fun entry hnode ↦ ?_) _
  · refine Turns.reindex (hturns.shifts (Shifts.noteReleased ?_ _)) rfl rfl rfl fun hm ↦ ?_
    · exact (Shifts.refl m).note rfl
    · refine hm.of_kept fun ref inst hget ↦ ?_
      change FiniteMap.get? (ite _ _ _) ref = some inst at hget
      simp only [apply_ite (FiniteMap.get? · ref), FiniteMap.get?_insert,
        FiniteMap.get?_foldl_erase] at hget
      split_ifs at hget with _ _ hbarrier
      · exact Or.inl hget
      · rw [← Option.some.inj hget, hbarrier]
        exact Or.inr (.of_empty rfl rfl rfl)
      · exact Or.inl hget
  · have hcommitted : ∀ node : RawNode, Turns time n node → Turns time n
        (if Status.committed ≤ entry.2.record.status then node.noteCommitted entry.1
          else node) := by
      intro node hnode
      split
      · exact hnode.shifts ((Shifts.refl node).noteCommitted _)
      · exact hnode
    split
    · exact (hcommitted _ hnode).plane rfl rfl rfl
    · exact hcommitted _ hnode

theorem resumeAfterCompaction : Turns time n m.resumeAfterCompaction := by
  refine Turns.shifts ?_ (Shifts.drive _)
  exact hturns.compactCheckpointMetadata.plane rfl rfl rfl

theorem snapshotInstalled : Turns time n m.snapshotInstalled := by
  unfold RawNode.snapshotInstalled
  split
  · exact hturns.resumeAfterCompaction
  · refine Turns.modifyReady ?_ (fun _ ↦ rfl) fun _ ↦ rfl
    exact hturns.plane rfl rfl rfl

theorem checkpointSnapshotAdvanced (snapshot : Snapshot) :
    Turns time n (m.checkpointSnapshotAdvanced snapshot) := by
  rcases Shifts.checkpointSnapshotAdvanced m snapshot with hshifts |
    ⟨-, round, node, hnode, hcompact⟩
  · exact hturns.shifts hshifts.within
  · rw [hcompact]
    refine Turns.modifyReady ?_ (fun _ ↦ rfl) fun _ ↦ rfl
    have hstored : Turns time n { m with checkpointRound := some round
                                         durableCheckpoint := snapshot.checkpoint } :=
      hturns.plane rfl rfl rfl
    exact (hstored.shifts hnode.within).plane rfl rfl rfl

end

end Turns

/-! ### Acknowledgements -/

theorem turns_thaw (hempty : m.frozenReady = {}) (hawaits : m.awaitAdvance = true) :
    Turns time m { m with awaitAdvance := false, frozenReady := {} }.mergeNextReady := by
  have hthaw : m.frame.Turn { m.frame with outbox := m.outbox.thaw } := .thaw hawaits hempty
  exact ⟨(Relation.ReflTransGen.single hthaw).tail (.shift (.plane _)), fun hm ↦ hm, fun hm ↦ hm,
    fun _ ↦ Timing.Thins.refl _⟩

/-- An acknowledgement that is accepted is a part of the frozen batch. -/
theorem part_of_validateReadyAck {rd : Ready} (hvalid : m.validateReadyAck rd = true) :
    (returnedPart m.frozenReady rd).batch ++ (consumeReady m.frozenReady rd).batch =
      m.frozenReady.batch := by
  have hdrop : ∀ {α : Type} [BEq α] [LawfulBEq α] {first all : List α},
      first.isPrefixOf all = true → first ++ all.drop first.length = all := by
    intro α _ _ first all hprefix
    obtain ⟨rest, rfl⟩ := List.isPrefixOf_iff_prefix.mp hprefix
    simp
  simp only [validateReadyAck, Bool.and_eq_true] at hvalid
  ext1
  all_goals simp only [Ready.batch, consumeReady, returnedPart, Batch.records_append,
    Batch.messages_append, Batch.applies_append, Batch.configs_append,
    Batch.bootstrapRecords_append, Batch.frontiers_append, Batch.bootstrapMessages_append]
  case bootstrapRecords => exact List.take_append_drop ..
  all_goals refine hdrop ?_
  all_goals tauto

theorem awaits_modifyReady (m : RawNode) (f : Ready → Ready) :
    (m.modifyReady f).awaitAdvance = m.awaitAdvance := by
  unfold modifyReady
  split_ifs <;> rfl

theorem awaits_checkpointSnapshotAdvanced (m : RawNode) (snapshot : Snapshot) :
    (m.checkpointSnapshotAdvanced snapshot).awaitAdvance = m.awaitAdvance := by
  rcases Shifts.checkpointSnapshotAdvanced m snapshot with hshifts |
    ⟨-, round, node, hnode, hcompact⟩
  · exact hshifts.widen.awaits
  · rw [hcompact, awaits_modifyReady]
    exact hnode.widen.awaits

theorem awaits_acknowledge (n : RawNode) (rd : Ready) :
    (n.acknowledge rd).awaitAdvance = n.awaitAdvance := by
  unfold acknowledge
  extract_lets hard voter consumed installed checkpoint compacting executed durable
  refine ((Shifts.refl durable).enqueueExecutedRecords rd.apply).awaits.trans ?_
  have hconsumed : consumed.awaitAdvance = n.awaitAdvance := by
    unfold consumed voter hard
    split <;> split_ifs <;> rfl
  have hinstalled : installed.awaitAdvance = consumed.awaitAdvance := by
    unfold installed
    split
    · rfl
    · exact awaits_checkpointSnapshotAdvanced _ _
  have hcompacting : compacting.awaitAdvance = installed.awaitAdvance := by
    unfold compacting
    split_ifs <;> rfl
  exact hcompacting.trans (hinstalled.trans hconsumed)

theorem turns_acknowledge {rd : Ready} (hawaits : n.awaitAdvance = true)
    (hvalid : n.validateReadyAck rd = true) : Turns time n (n.acknowledge rd) := by
  unfold acknowledge
  extract_lets hard voter consumed installed checkpoint compacting executed durable
  have hhard : hard.frame = n.frame := by
    unfold hard
    split_ifs <;> rfl
  have hvoter : voter.frame = n.frame := by
    unfold voter
    split
    · exact hhard
    · exact hhard
  have hconsumed : Turns time n consumed := by
    have houtbox : voter.outbox = n.outbox := congrArg Frame.outbox hvoter
    have hframe : consumed.frame = { voter.frame with outbox := voter.outbox.consume rd } := rfl
    rw [hvoter, houtbox] at hframe
    refine (Turns.refl n).turn ?_ (congrArg Frame.plane hframe) (congrArg Frame.loads hframe)
      fun hm ↦ (show consumed.index = n.index from congrArg Frame.index hframe) ▸ hm
    rw [hframe]
    exact .consume hawaits (part_of_validateReadyAck hvalid)
  have hinstalled : Turns time n installed := by
    unfold installed
    split
    · exact hconsumed
    · refine Turns.checkpointSnapshotAdvanced ?_ _
      exact hconsumed.plane rfl rfl rfl
  have hcompacting : Turns time n compacting := by
    unfold compacting
    split_ifs
    · exact hinstalled.plane rfl rfl rfl
    · exact hinstalled
  refine Turns.shifts ?_ ((Shifts.refl durable).enqueueExecutedRecords rd.apply)
  exact hcompacting

theorem turns_advance (n : RawNode) (rd : Ready) : Turns false n (n.advance rd).1 := by
  unfold advance
  split
  · exact (Shifts.refl n).turns
  next hawaits =>
  split
  · exact (Shifts.refl n).turns
  next hvalid =>
  extract_lets compacted retired thawed installed resumed
  have hacked : Turns false n (n.acknowledge rd) :=
    turns_acknowledge (by simpa using hawaits) (by simpa using hvalid)
  have hstill : (n.acknowledge rd).awaitAdvance = true :=
    (n.awaits_acknowledge rd).trans (by simpa using hawaits)
  have hfolded : Shifts .upkeep (n.acknowledge rd) retired := (Shifts.refl _).retireExecuted
  have hretired : Turns false n retired := hacked.shifts hfolded
  have hthawed : Turns false n thawed := by
    unfold thawed
    split
    · next hempty =>
      have hfrozen : retired.frozenReady = {} := by simpa [Ready.empty] using hempty
      exact hretired.trans (turns_thaw hfrozen (hfolded.widen.awaits.trans hstill))
    · exact hretired
  have hinstalled : Turns false n installed := by
    unfold installed
    split
    · exact hthawed.snapshotInstalled
    · exact hthawed
  unfold resumed
  split
  · refine Turns.resumeAfterCompaction ?_
    exact hinstalled.plane rfl rfl rfl
  · exact hinstalled

/-! ### Record loads -/

theorem stepAll_keeps {P : RawNode → Prop}
    (hstep : ∀ node msg, P node → P (RawNode.step node msg).1)
    (hn : P n) (messages : List Message) : P (n.stepAll messages).1 := by
  induction messages generalizing n with
  | nil => exact hn
  | cons msg rest ih =>
    have hstepped := hstep n msg hn
    unfold stepAll
    split
    · next res err hres =>
      rw [hres] at hstepped
      exact hstepped
    · next res hres =>
      rw [hres] at hstepped
      exact ih hstepped

/-- The answer to a record load keeps what its parts keep: the record that becomes resident, the
load that is over, and the messages and shifts that follow. -/
theorem provideRecordLoad_keeps {P : RawNode → Prop} (hn : P n)
    (hinstall : ∀ rec : InstanceRecord, rec.ref = ref →
      P (n.installInstance { record := rec, phase := phaseFromStatus rec.status }))
    (hset : ∀ rec : InstanceRecord, rec.ref = ref →
      P (n.setInstance ref fun inst ↦ { inst with record := rec, payloadAbsent := none }))
    (hclose : ∀ node wait, node.pendingRecordLoads.get? ref = some wait → P node →
      P (node.closeRecordLoad ref wait))
    (hstep : ∀ node msg, P node → P (RawNode.step node msg).1)
    (hshifts : ∀ node node', Shifts .upkeep node node' → P node → P node')
    (found : Option LoadedRecord) : P (n.provideRecordLoad ref found).1 := by
  unfold provideRecordLoad
  split
  · exact hn
  next wait hwait =>
  split
  · split
    · exact hn
    · exact hclose n wait hwait hn
  next found =>
  extract_lets rec inst full loaded
  split
  · exact hn
  next hvalid =>
  have hkey : rec.ref = ref := by
    by_contra hkey
    exact hvalid (by simp [hkey])
  have hloaded : P loaded ∧ loaded.pendingRecordLoads = n.pendingRecordLoads := by
    unfold loaded
    generalize inst = resident
    cases resident with
    | none => exact ⟨hinstall rec hkey,
      congrArg Frame.loads (Shifts.frame_installInstance_plane ..)⟩
    | some _ => exact ⟨hset rec hkey, congrArg Frame.loads (Shifts.frame_setInstance ..)⟩
  have hclosed := hclose loaded wait (hloaded.2 ▸ hwait) hloaded.1
  have hstepped := stepAll_keeps hstep hclosed wait.messages
  split
  · next res err hres =>
    rw [hres] at hstepped
    exact hshifts res _ ((Shifts.refl res).maybeRefoldLoaded ref) hstepped
  · next res hres =>
    rw [hres] at hstepped
    extract_lets logged
    have hlogged : Shifts .upkeep res logged := by
      unfold logged
      split
      · exact (Shifts.refl res).enqueueRecord _
      · exact .refl res
    exact hshifts res _ ((hlogged.foldl (fun work hnode ↦ hnode.runExport ref work)
      wait.exports).maybeRefoldLoaded ref) hstepped

theorem turns_provideRecordLoad (n : RawNode) (ref : InstanceRef) (found : Option LoadedRecord) :
    Turns true n (n.provideRecordLoad ref found).1 := by
  refine provideRecordLoad_keeps (P := Turns true n) (Turns.refl n) (fun rec hkey ↦ ?_)
    (fun rec hkey ↦ ?_)
    (fun node wait hwait hnode ↦ ?_) (fun node msg hnode ↦ hnode.step msg)
    (fun node node' hshifts hnode ↦ hnode.shifts hshifts.widen) found
  · exact (Turns.refl n).installInstance (.of_empty rfl rfl rfl)
  · have hframe := Shifts.frame_setInstance n ref fun inst ↦
      { inst with record := rec, payloadAbsent := none }
    refine (Turns.refl n).turn ?_ (congrArg Frame.plane hframe) (congrArg Frame.loads hframe)
      fun hm ↦ hm.of_change (fun other ↦ get?_setInstance ..) fun inst hget ↦
        (hm ref inst hget).of_record hkey rfl rfl
    rw [hframe]
    exact .shift (.reindex _)
  · exact hnode.closeRecordLoad hwait

/-! ### Calls -/

/-- The calls that only shift the frame. -/
def quietCall : Call → Bool
  | .step _ | .ready | .advance _ | .provideRecordLoad _ _ | .reserve _ _ => false
  | _ => true

theorem shifts_call (n : RawNode) {c : Call} (hc : quietCall c = true) :
    Shifts .call n (n.call c).1 := by
  have hrefl : Shifts .call n n := Shifts.refl n
  cases c with
  | propose cmd => exact hrefl.propose cmd
  | proposeConfChange change => exact hrefl.proposeConfChange change
  | tick => exact hrefl.advanceTick
  | processTOQ now => exact hrefl.processTOQ now
  | refreshTOQ runtime => exact hrefl.refreshTOQConfig runtime
  | provideCheckpoint result => exact hrefl.provideCheckpoint result
  | publish records frontiers messages =>
    refine hrefl.modifyReady { bootstrapRecords := records, frontiers := frontiers
                               bootstrapMessages := messages } (fun rd ↦ ?_) (fun rd ↦ ?_)
      fun rd ↦ ?_
    · ext1 <;> simp [Ready.batch]
    · rfl
    · rfl
  | proposeMembershipAt ref control =>
    unfold call
    dsimp only
    split
    · exact Shifts.proposeMembershipAt (m := n.beginDrive) hrefl ref control
    · exact hrefl
  | closeConfig refs => exact hrefl.scheduleBootstrapClosure _
  | recoverVoterControl ref =>
    unfold call
    dsimp only
    split
    · exact hrefl.recoverVoterControl ref
    · exact hrefl
  | step _ => exact absurd hc Bool.false_ne_true
  | ready => exact absurd hc Bool.false_ne_true
  | advance _ => exact absurd hc Bool.false_ne_true
  | provideRecordLoad _ _ => exact absurd hc Bool.false_ne_true
  | reserve _ _ => exact absurd hc Bool.false_ne_true

theorem turns_call (n : RawNode) {c : Call} (hc : c ≠ .ready) : Turns true n (n.call c).1 := by
  by_cases hquiet : quietCall c = true
  · exact (n.shifts_call hquiet).widen.turns
  · cases c with
    | step m => exact (Turns.refl n).step m
    | ready => exact absurd rfl hc
    | advance rd => exact (n.turns_advance rd).lax
    | provideRecordLoad ref found => exact n.turns_provideRecordLoad ref found
    | reserve membership floor =>
      refine Turns.modifyReady ?_ (fun _ ↦ rfl) fun _ ↦ rfl
      exact (Turns.refl n).plane rfl rfl rfl
    | _ => exact absurd rfl hquiet

/-- `Ready` freezes what is pending, and leaves what exceeds a batch there. -/
theorem frame_freezeReady (n : RawNode) : ∃ (frozen : Ready) (kept : Batch),
    frozen.batch ++ kept = n.outbox.pending ∧ frozen.recordLoads = n.outbox.pendingLoads ∧
      n.freezeReady.frame =
        { n.frame with plane := n.freezeReady.plane, outbox := { n.outbox with
            awaits := true, frozen := frozen, pending := kept, pendingLoads := [] } } := by
  unfold freezeReady
  extract_lets pending frozen split kept part
  have hfrozen : frozen.batch = n.outbox.pending ∧ frozen.recordLoads = n.outbox.pendingLoads := by
    unfold frozen
    split_ifs <;> exact ⟨rfl, rfl⟩
  refine ⟨{ part with mustSync := readyHasDurableUpdate part }, kept.batch, ?_, ?_, ?_⟩
  · rw [← hfrozen.1]
    unfold part kept
    split_ifs
    · ext1 <;> simp [Ready.batch]
    · exact Batch.append_empty _
  · refine Eq.trans ?_ hfrozen.2
    unfold part
    split_ifs <;> rfl
  · have hkept : kept.recordLoads = [] := by
      unfold kept
      split_ifs <;> rfl
    clear_value kept part
    simp only [frame, core, outbox, Core.frame, hkept]
    rfl

theorem settings_call (n : RawNode) (c : Call) : (n.call c).1.settings = n.settings := by
  by_cases hready : c = .ready
  · subst hready
    unfold call ready
    dsimp only
    split
    · rfl
    · rfl
  · exact (n.turns_call hready).settings

theorem settings_run (n : RawNode) (calls : List Call) : (n.run calls).settings = n.settings := by
  induction calls generalizing n with
  | nil => rfl
  | cons c rest ih => exact (ih (n.call c).1).trans (n.settings_call c)

end RawNode

end MoreConsensus
