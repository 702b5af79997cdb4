import MoreConsensus.Compaction

/-!
# Delivery to the application

A node hands work to its application through three batches: one is frozen until it is acknowledged,
one is pending behind it, and one gathers what comes up while a batch is frozen. What was
acknowledged, followed by the three batches, is what was ever queued, in order
(`queues_deliver_in_order`). Requests for record loads are not part of that queue: they leave the
frozen batch when it is acknowledged, but `mergeNextReady` leaves those of the next batch behind.
-/

set_option autoImplicit false

namespace MoreConsensus

open Library

/-! ### The queue -/

namespace Outbox

/-- The batches are in order, and only work that comes up while a batch is frozen is put aside. -/
structure Ordered (box : Outbox) : Prop where
  order : box.acked ++ box.frozen.batch ++ box.pending ++ box.next = box.enqueued
  idle : box.awaits = false → box.frozen = {} ∧ box.next = {}

variable {box : Outbox}

theorem Ordered.push (hbox : box.Ordered) (batch : Batch) : (box.push batch).Ordered := by
  unfold Outbox.push
  split_ifs with hawaits
  · refine ⟨?_, fun hidle ↦ absurd (hawaits.symm.trans hidle) (by decide)⟩
    rw [← hbox.order]
    simp only [Batch.append_assoc]
  · obtain ⟨hfrozen, hnext⟩ := hbox.idle (by simpa using hawaits)
    refine ⟨?_, hbox.idle⟩
    rw [← hbox.order, hnext]
    simp only [Batch.append_assoc, Batch.append_empty]

theorem Ordered.ask (hbox : box.Ordered) (ref : InstanceRef) : (box.ask ref).Ordered := by
  unfold Outbox.ask
  split_ifs
  · exact ⟨hbox.order, hbox.idle⟩
  · exact ⟨hbox.order, hbox.idle⟩

theorem Ordered.consume (hbox : box.Ordered) {rd : Ready} (hawaits : box.awaits = true)
    (hpart : (RawNode.returnedPart box.frozen rd).batch ++
      (RawNode.consumeReady box.frozen rd).batch = box.frozen.batch) :
    (box.consume rd).Ordered := by
  refine ⟨?_, fun hidle ↦ absurd (hawaits.symm.trans hidle) (by decide)⟩
  have horder := hbox.order
  rw [← hpart] at horder
  simpa only [Outbox.consume, Batch.append_assoc] using horder

theorem Ordered.thaw (hbox : box.Ordered) (hempty : box.frozen = {}) : box.thaw.Ordered := by
  refine ⟨?_, fun _ ↦ ⟨rfl, rfl⟩⟩
  have horder := hbox.order
  rw [hempty] at horder
  simpa only [Outbox.thaw, Batch.append_assoc, Batch.append_empty] using horder

theorem Ordered.freeze (hbox : box.Ordered) (hawaits : box.awaits = false) {frozen : Ready}
    {kept : Batch} (hsplit : frozen.batch ++ kept = box.pending) : Outbox.Ordered
      { box with awaits := true, frozen := frozen, pending := kept, pendingLoads := [] } := by
  obtain ⟨hfrozen, -⟩ := hbox.idle hawaits
  refine ⟨?_, fun hidle ↦ by simp at hidle⟩
  have horder := hbox.order
  rw [hfrozen, ← hsplit, show ({} : Ready).batch = {} from rfl] at horder
  simpa only [Batch.append_assoc, Batch.append_empty] using horder

theorem Ordered.shift {f g : Frame} (hf : f.outbox.Ordered) (hshift : f.Shift g) :
    g.outbox.Ordered := by
  cases hshift with
  | emit => exact hf.push _
  | ask => exact hf.ask _
  | wait => exact hf
  | change => exact hf.push _
  | plane => exact hf
  | reindex => exact hf
  | activate => exact hf.push _

theorem Ordered.turn {f g : Frame} (hf : f.outbox.Ordered) (hturn : f.Turn g) :
    g.outbox.Ordered := by
  cases hturn with
  | shift hshift => exact hf.shift hshift
  | consume hawaits hpart => exact hf.consume hawaits hpart
  | thaw _ hempty => exact hf.thaw hempty
  | close => exact hf

end Outbox

namespace RawNode

variable {n m : RawNode} {id : ReplicaID} {cfg : Config} {base : VoterSet} {storage : Storage}

theorem ordered_turns (hturns : Turns true n m) (hn : n.outbox.Ordered) : m.outbox.Ordered := by
  exact hturns.preserves (P := fun f ↦ f.outbox.Ordered) (fun _ _ hturn hf ↦ hf.turn hturn) hn

theorem ordered_call (hn : n.outbox.Ordered) (c : Call) : (n.call c).1.outbox.Ordered := by
  by_cases hc : c = .ready
  · obtain rfl := hc
    unfold call ready
    dsimp only
    split_ifs with hrest
    · exact hn
    · simp only [Bool.or_eq_true, not_or, Bool.not_eq_true] at hrest
      obtain ⟨frozen, kept, hsplit, -, hframe⟩ := n.frame_freezeReady
      have houtbox := congrArg Frame.outbox hframe
      refine Eq.subst (motive := Outbox.Ordered) houtbox.symm ?_
      exact hn.freeze hrest.1 hsplit
  · exact ordered_turns (n.turns_call hc) hn

theorem ordered_run (hn : n.outbox.Ordered) (calls : List Call) : (n.run calls).outbox.Ordered := by
  induction calls generalizing n with
  | nil => exact hn
  | cons c rest ih => exact ih (ordered_call hn c)

theorem ordered_newRawNode (hnew : newRawNode id cfg base storage = some n) :
    n.outbox.Ordered := by
  obtain ⟨b, hb, hturns, -⟩ := fresh_newRawNode hnew
  refine ordered_turns hturns ?_
  rw [hb.outbox]
  exact ⟨rfl, fun _ ↦ ⟨rfl, rfl⟩⟩

/-- Whatever an application does, each queue is delivered in order and nothing of it twice: what was
acknowledged, what is frozen, what is pending and what came up since is what was ever queued. -/
theorem queues_deliver_in_order (hnew : newRawNode id cfg base storage = some n)
    (calls : List Call) :
    (n.run calls).acknowledged.records ++ (n.run calls).frozenReady.records ++
        (n.run calls).pendingReady.records ++ (n.run calls).nextReady.records =
      (n.run calls).enqueued.records ∧
    (n.run calls).acknowledged.messages ++ (n.run calls).frozenReady.messages ++
        (n.run calls).pendingReady.messages ++ (n.run calls).nextReady.messages =
      (n.run calls).enqueued.messages ∧
    (n.run calls).acknowledged.apply ++ (n.run calls).frozenReady.apply ++
        (n.run calls).pendingReady.apply ++ (n.run calls).nextReady.apply =
      (n.run calls).enqueued.apply ∧
    (n.run calls).acknowledged.configHistory ++ (n.run calls).frozenReady.configHistory ++
        (n.run calls).pendingReady.configHistory ++ (n.run calls).nextReady.configHistory =
      (n.run calls).enqueued.configHistory ∧
    (n.run calls).acknowledged.bootstrapRecords ++ (n.run calls).frozenReady.bootstrapRecords ++
        (n.run calls).pendingReady.bootstrapRecords ++ (n.run calls).nextReady.bootstrapRecords =
      (n.run calls).enqueued.bootstrapRecords ∧
    (n.run calls).acknowledged.frontierUpdates ++ (n.run calls).frozenReady.frontierUpdates ++
        (n.run calls).pendingReady.frontierUpdates ++ (n.run calls).nextReady.frontierUpdates =
      (n.run calls).enqueued.frontierUpdates ∧
    (n.run calls).acknowledged.bootstrapMessages ++ (n.run calls).frozenReady.bootstrapMessages ++
        (n.run calls).pendingReady.bootstrapMessages ++ (n.run calls).nextReady.bootstrapMessages =
      (n.run calls).enqueued.bootstrapMessages := by
  have horder := (ordered_run (ordered_newRawNode hnew) calls).order
  exact ⟨congrArg Batch.records horder, congrArg Batch.messages horder,
    congrArg Batch.applies horder, congrArg Batch.configs horder,
    congrArg Batch.bootstrapRecords horder, congrArg Batch.frontiers horder,
    congrArg Batch.bootstrapMessages horder⟩

/-- A configuration of one voter. -/
def soleVoter : VoterSet := ⟨[1], by decide, by decide, by decide, by decide⟩

/-- A command on one key. -/
def keyCommand : Command := { payload := [1], footprint := { points := [[7]] } }

/-- Two proposals make more messages than a batch may have. One message of the batch is acknowledged
with all its records, and a third proposal is made while the rest is frozen. -/
def partialAckCalls (n : RawNode) : List Call :=
  let proposals := [.propose keyCommand, .propose keyCommand, .ready]
  let frozen := (n.run proposals).frozenReady
  proposals ++ [.advance { frozen with messages := frozen.messages.take 1 }, .propose keyCommand]

theorem queues_deliver_in_order_partial :
    ∃ n, newRawNode 1 { maxReadyMessages := 3 } threeReplicas {} = some n ∧
      ∃ calls, ((n.run calls).acknowledged.messages.length = 1 ∧
          (n.run calls).frozenReady.messages.length = 2 ∧
          (n.run calls).pendingReady.messages.length = 1 ∧
          (n.run calls).nextReady.messages.length = 2) ∧
        (n.run calls).acknowledged.messages ++ (n.run calls).frozenReady.messages ++
            (n.run calls).pendingReady.messages ++ (n.run calls).nextReady.messages =
          (n.run calls).enqueued.messages := by
  have hsome : (newRawNode 1 { maxReadyMessages := 3 } threeReplicas {}).isSome = true := by
    decide +kernel
  have hwork : ∀ n ∈ newRawNode 1 { maxReadyMessages := 3 } threeReplicas {},
      (n.run n.partialAckCalls).acknowledged.messages.length = 1 ∧
        (n.run n.partialAckCalls).frozenReady.messages.length = 2 ∧
        (n.run n.partialAckCalls).pendingReady.messages.length = 1 ∧
        (n.run n.partialAckCalls).nextReady.messages.length = 2 := by
    decide +kernel
  obtain ⟨n, hn⟩ := Option.isSome_iff_exists.mp hsome
  exact ⟨n, hn, n.partialAckCalls, hwork n hn, (queues_deliver_in_order hn _).2.1⟩

/-! ### Record loads -/

/-- Where a request for a record is, if it is anywhere. -/
def Requested (n : RawNode) (ref : InstanceRef) : Prop :=
  ref ∈ n.pendingReady.recordLoads ∨ ref ∈ n.frozenReady.recordLoads ∨
    (n.awaitAdvance = true ∧ ref ∈ n.nextReady.recordLoads) ∨ ref ∈ n.acknowledged.recordLoads

/-- A request that will not be lost: it is behind the frozen batch, in it, or acknowledged. -/
def Listed (box : Outbox) (ref : InstanceRef) : Prop :=
  ref ∈ box.pendingLoads ∨ ref ∈ box.frozen.recordLoads ∨ ref ∈ box.ackedLoads

/-- Whether an acknowledgement is accepted and leaves nothing of the frozen batch. -/
def empties (n : RawNode) (rd : Ready) : Bool :=
  n.awaitAdvance && n.validateReadyAck rd && (consumeReady n.frozenReady rd).empty

/-- No open record load is asked for in the next batch alone when the frozen one is acknowledged to
its end, and the commands acknowledged with it open none: their payloads are at hand. -/
def KeepsLoads (n : RawNode) : Call → Prop
  | .advance rd => n.empties rd = true →
    (∀ ref ∈ n.nextReady.recordLoads, n.pendingRecordLoads.contains ref = true →
      Listed n.outbox ref) ∧
    ∀ command ∈ rd.apply, ∀ rec ∈ n.record? command.ref, n.payloadAbsent rec.ref = true →
      n.pendingRecordLoads.contains rec.ref = true
  | _ => True

instance (n : RawNode) (ref : InstanceRef) : Decidable (n.Requested ref) :=
  inferInstanceAs (Decidable (_ ∨ _))

instance (box : Outbox) (ref : InstanceRef) : Decidable (Listed box ref) :=
  inferInstanceAs (Decidable (_ ∨ _))

instance (n : RawNode) (c : Call) : Decidable (n.KeepsLoads c) := by
  unfold KeepsLoads
  split <;> infer_instance

/-- The commits of the first commands of replica 1 at replica 2, all on one key. -/
def commitOf (inst : InstanceNum) : Message :=
  { type := .commit, source := 1, target := 2, ref := ⟨1, inst, 1⟩, ballot := { replica := 1 }
    recordBallot := { replica := 1 }, seq := inst, deps := [inst - 1, 0, 0], kind := .command
    command := keyCommand }

/-- Replica 3 recovers the first of them. -/
def prepareOfFirst : Message :=
  { type := .prepare, source := 3, target := 2, ref := ⟨1, 1, 1⟩, ballot := ⟨0, 1, 3⟩ }

/-- Two commands are executed and the first of them is folded. -/
def foldFirst : List NodeAct :=
  [.call (.step (commitOf 1)), .call (.step (commitOf 2)), .flush, .flush]

/-- The second voter as it starts, with room for one executed instance of a lane. -/
def foldingVoter : RawNode :=
  (newRawNode 2 { retainExecutedPerLane := 1 } threeReplicas {}).get (by decide +kernel)

theorem newRawNode_foldingVoter :
    newRawNode 2 { retainExecutedPerLane := 1 } threeReplicas {} = some foldingVoter :=
  (Option.some_get _).symm

theorem mem_insertRef {ref other : InstanceRef} {refs : List InstanceRef} :
    ref ∈ insertRef other refs ↔ ref = other ∨ ref ∈ refs := by
  unfold insertRef
  rw [List.mem_dedup, List.mem_insertionSort, List.mem_cons]

theorem listed_turn {f g : Frame} (hturn : f.Turn g) {ref : InstanceRef}
    (hlisted : Listed f.outbox ref) : Listed g.outbox ref := by
  have hpush : ∀ batch : Batch, Listed (f.outbox.push batch) ref := by
    intro batch
    unfold Outbox.push
    split_ifs <;> exact hlisted
  cases hturn with
  | shift hshift =>
    cases hshift with
    | emit => exact hpush _
    | ask =>
      dsimp only [Outbox.ask]
      split_ifs
      · exact hlisted
      · exact hlisted.imp_left fun hmem ↦ mem_insertRef.mpr (Or.inr hmem)
    | wait => exact hlisted
    | change => exact hpush _
    | plane => exact hlisted
    | reindex => exact hlisted
    | activate => exact hpush _
  | @consume rd _ _ =>
    rcases hlisted with hpending | hfrozen | hacked
    · exact Or.inl hpending
    · rw [← List.take_append_drop rd.recordLoads.length f.outbox.frozen.recordLoads] at hfrozen
      rcases List.mem_append.mp hfrozen with htaken | hleft
      · exact Or.inr (Or.inr (List.mem_append_right _ htaken))
      · exact Or.inr (Or.inl hleft)
    · exact Or.inr (Or.inr (List.mem_append_left _ hacked))
  | thaw _ hempty =>
    rcases hlisted with hpending | hfrozen | hacked
    · exact Or.inl hpending
    · rw [hempty] at hfrozen
      simp at hfrozen
    · exact Or.inr (Or.inr hacked)
  | close => exact hlisted

/-- Every open record load is listed. -/
def LoadsListed (f : Frame) : Prop :=
  ∀ ref, f.loads.contains ref = true → Listed f.outbox ref

/-- Every open record load is listed or asked for in the next batch. -/
def LoadsHeld (f : Frame) : Prop :=
  ∀ ref, f.loads.contains ref = true → Listed f.outbox ref ∨ ref ∈ f.outbox.nextLoads

/-- A turn opens a record load only where it asks for it, and does not take requests out of the next
batch. -/
theorem loads_turn {f g : Frame} (hturn : f.Turn g) :
    (∀ ref, g.loads.contains ref = true → f.loads.contains ref = true ∨
      if f.outbox.awaits then ref ∈ g.outbox.nextLoads else Listed g.outbox ref) ∧
    ∀ ref ∈ f.outbox.nextLoads, ref ∈ g.outbox.nextLoads := by
  have hpush : ∀ batch : Batch, (f.outbox.push batch).nextLoads = f.outbox.nextLoads := by
    intro batch
    unfold Outbox.push
    split_ifs <;> rfl
  cases hturn with
  | shift hshift =>
    cases hshift with
    | emit => exact ⟨fun _ hopen ↦ Or.inl hopen, fun _ hmem ↦ (hpush _).symm ▸ hmem⟩
    | @ask ref hnew =>
      refine ⟨fun other hopen ↦ ?_, fun other hmem ↦ ?_⟩
      · simp only [FiniteMap.contains, FiniteMap.get?_insert] at hopen ⊢
        split_ifs at hopen with hother
        · right
          dsimp only [Outbox.ask]
          split_ifs
          · exact mem_insertRef.mpr (Or.inl hother)
          · exact Or.inl (mem_insertRef.mpr (Or.inl hother))
        · exact Or.inl hopen
      · dsimp only [Outbox.ask]
        split_ifs
        · exact mem_insertRef.mpr (Or.inr hmem)
        · exact hmem
    | @wait ref wait next hwait =>
      refine ⟨fun other hopen ↦ Or.inl ?_, fun _ hmem ↦ hmem⟩
      simp only [FiniteMap.contains, FiniteMap.get?_insert] at hopen ⊢
      split_ifs at hopen with hother
      · rw [hother, hwait]
        rfl
      · exact hopen
    | change => exact ⟨fun _ hopen ↦ Or.inl hopen, fun _ hmem ↦ (hpush _).symm ▸ hmem⟩
    | plane => exact ⟨fun _ hopen ↦ Or.inl hopen, fun _ hmem ↦ hmem⟩
    | reindex => exact ⟨fun _ hopen ↦ Or.inl hopen, fun _ hmem ↦ hmem⟩
    | activate => exact ⟨fun _ hopen ↦ Or.inl hopen, fun _ hmem ↦ (hpush _).symm ▸ hmem⟩
  | consume => exact ⟨fun _ hopen ↦ Or.inl hopen, fun _ hmem ↦ hmem⟩
  | thaw => exact ⟨fun _ hopen ↦ Or.inl hopen, fun _ hmem ↦ hmem⟩
  | close ref =>
    refine ⟨fun other hopen ↦ Or.inl ?_, fun _ hmem ↦ hmem⟩
    simp only [FiniteMap.contains, FiniteMap.get?_erase] at hopen ⊢
    split_ifs at hopen
    · simp at hopen
    · exact hopen

theorem loadsHeld_turn {f g : Frame} (hturn : f.Turn g) (hf : LoadsHeld f) : LoadsHeld g := by
  intro ref hopen
  rcases (loads_turn hturn).1 ref hopen with hbefore | hasked
  · exact (hf ref hbefore).imp (listed_turn hturn) ((loads_turn hturn).2 ref)
  · split_ifs at hasked
    · exact Or.inr hasked
    · exact Or.inl hasked

/-- While nothing is frozen, a record load is asked for where it will not be lost. -/
theorem loadsListed_turn {f g : Frame} (hturn : f.Turn g) (hawaits : f.outbox.awaits = false)
    (hf : LoadsListed f) : g.outbox.awaits = false ∧ LoadsListed g := by
  refine ⟨?_, fun ref hopen ↦ ?_⟩
  · cases hturn with
    | shift hshift => exact (awaits_shift hshift).trans hawaits
    | consume => exact hawaits
    | thaw => rfl
    | close => exact hawaits
  · rcases (loads_turn hturn).1 ref hopen with hbefore | hasked
    · exact listed_turn hturn (hf ref hbefore)
    · rwa [if_neg (by simp [hawaits])] at hasked

theorem listed_turns (hturns : Turns true n m) {ref : InstanceRef} (hlisted : Listed n.outbox ref) :
    Listed m.outbox ref := by
  exact hturns.preserves (P := fun f ↦ Listed f.outbox ref)
    (fun _ _ hturn hf ↦ listed_turn hturn hf) hlisted

theorem loadsListed_turns (hturns : Turns true n m) (hawaits : n.awaitAdvance = false)
    (hn : LoadsListed n.frame) : LoadsListed m.frame := by
  have hboth := hturns.preserves (P := fun f ↦ f.outbox.awaits = false ∧ LoadsListed f)
    (fun _ _ hturn hf ↦ loadsListed_turn hturn hf.1 hf.2) ⟨hawaits, hn⟩
  exact hboth.2

theorem loadsHeld_call (hordered : n.outbox.Ordered) (hn : LoadsHeld n.frame) (c : Call) :
    LoadsHeld (n.call c).1.frame := by
  by_cases hready : c = .ready
  · obtain rfl := hready
    unfold call ready
    dsimp only
    split_ifs with hrest
    · exact hn
    · simp only [Bool.or_eq_true, not_or, Bool.not_eq_true] at hrest
      obtain ⟨frozen, kept, -, hloads, hframe⟩ := n.frame_freezeReady
      rw [hframe]
      refine fun ref hopen ↦ (hn ref hopen).imp_left fun hlisted ↦ ?_
      rcases hlisted with hpending | hfrozen | hacked
      · exact Or.inr (Or.inl (hloads ▸ hpending))
      · rw [show n.frame.outbox.frozen = {} from (hordered.idle hrest.1).1] at hfrozen
        simp at hfrozen
      · exact Or.inr (Or.inr hacked)
  · exact (n.turns_call hready).preserves (fun _ _ hturn hf ↦ loadsHeld_turn hturn hf) hn

theorem loadsHeld_run (hordered : n.outbox.Ordered) (hn : LoadsHeld n.frame) (calls : List Call) :
    LoadsHeld (n.run calls).frame := by
  induction calls generalizing n with
  | nil => exact hn
  | cons c rest ih => exact ih (ordered_call hordered c) (loadsHeld_call hordered hn c)

/-! ### Acknowledgements that empty the frozen batch -/

/-- The instances stay as they are, and record loads are opened only where allowed. -/
structure AsksOnly (P : InstanceRef → Prop) (n m : RawNode) : Prop where
  instances : m.instances = n.instances
  loads : ∀ ref, m.pendingRecordLoads.contains ref = true →
    n.pendingRecordLoads.contains ref = true ∨ P ref

namespace AsksOnly

variable {P : InstanceRef → Prop} (hm : AsksOnly P n m)

include hm

theorem modifyReady (f : Ready → Ready) : AsksOnly P n (m.modifyReady f) := by
  unfold RawNode.modifyReady
  split_ifs <;> exact ⟨hm.instances, hm.loads⟩

theorem broadcastCheckpointControl (round : CheckpointRound) (type : MessageType)
    (control : CheckpointControl) :
    AsksOnly P n (m.broadcastCheckpointControl round type control) := by
  unfold RawNode.broadcastCheckpointControl sendAll
  refine List.foldlRecOn _ _ hm fun node hnode target _ ↦ ?_
  unfold enqueueMessage
  exact hnode.modifyReady _

theorem maybeCertifyCheckpoint : AsksOnly P n m.maybeCertifyCheckpoint := by
  unfold RawNode.maybeCertifyCheckpoint
  split
  · exact hm
  split_ifs
  · exact hm
  dsimp only
  split
  · exact hm
  · refine modifyReady ?_ _
    exact ⟨hm.instances, hm.loads⟩

theorem checkpointSnapshotAdvanced (snapshot : Snapshot) :
    AsksOnly P n (m.checkpointSnapshotAdvanced snapshot) := by
  unfold RawNode.checkpointSnapshotAdvanced
  split
  · exact hm
  dsimp only
  split_ifs
  · exact ⟨hm.instances, hm.loads⟩
  · refine (broadcastCheckpointControl ?_ _ _ _).maybeCertifyCheckpoint
    exact ⟨hm.instances, hm.loads⟩
  · exact ⟨hm.instances, hm.loads⟩
  · have hsent : ∀ {node}, AsksOnly P n node → ∀ compacting, AsksOnly P n
        { node with checkpointCompacting := compacting } := fun hnode _ ↦
      ⟨hnode.instances, hnode.loads⟩
    refine (hsent (broadcastCheckpointControl (broadcastCheckpointControl ?_ _ _ _) _ _ _)
      true).modifyReady _
    exact ⟨hm.instances, hm.loads⟩

theorem insert {ref : InstanceRef} (hP : P ref) (wait : RecordLoadWait) :
    AsksOnly P n { m with pendingRecordLoads := m.pendingRecordLoads.insert ref wait } := by
  refine ⟨hm.instances, fun other hopen ↦ ?_⟩
  simp only [FiniteMap.contains, FiniteMap.get?_insert] at hopen
  split_ifs at hopen with hother
  · exact Or.inr (hother ▸ hP)
  · exact hm.loads other hopen

/-- Recording an instance asks for its payload if that is absent. -/
theorem enqueueRecord {rec : InstanceRecord} (hP : n.payloadAbsent rec.ref = true → P rec.ref) :
    AsksOnly P n (m.enqueueRecord rec) := by
  unfold RawNode.enqueueRecord
  split
  · next habsent =>
    have hrec : P rec.ref := hP (by rwa [payloadAbsent, hm.instances] at habsent)
    have hasked : AsksOnly P n (m.requestRecordLoad rec.ref) := by
      unfold requestRecordLoad
      split
      · exact hm
      · exact (hm.insert hrec _).modifyReady _
    have hwaits : AsksOnly P n (m.deferRecordLoadRequiredWithoutMessage rec.ref) := by
      unfold deferRecordLoadRequiredWithoutMessage deferRecordLoadWith
      dsimp only
      rw [Option.isSome_none, Bool.and_false, Bool.false_and, if_neg Bool.false_ne_true]
      exact hasked.insert hrec _
    unfold updateRecordLoad
    split
    · exact hwaits
    · exact hwaits.insert hrec _
  · exact hm.modifyReady _

end AsksOnly

/-- An acknowledgement opens record loads only for acknowledged commands without a payload. -/
theorem asksOnly_acknowledge {P : InstanceRef → Prop} {n : RawNode} {rd : Ready}
    (hP : ∀ command ∈ rd.apply, ∀ rec ∈ n.record? command.ref,
      n.payloadAbsent rec.ref = true → P rec.ref) : AsksOnly P n (n.acknowledge rd) := by
  unfold acknowledge
  extract_lets hard voter consumed installed checkpoint compacting executed durable
  have hconsumed : AsksOnly P n consumed := by
    unfold consumed voter hard
    split <;> split_ifs <;> exact ⟨rfl, fun _ ↦ Or.inl⟩
  have hinstalled : AsksOnly P n installed := by
    unfold installed
    split
    · exact hconsumed
    · refine AsksOnly.checkpointSnapshotAdvanced ?_ _
      exact ⟨hconsumed.instances, hconsumed.loads⟩
  refine List.foldlRecOn _ _ ?_ fun node hnode command hcommand ↦ ?_
  · unfold durable compacting
    split_ifs <;> exact ⟨hinstalled.instances, hinstalled.loads⟩
  · split
    · exact hnode
    next rec hrec =>
    have hstored : n.record? command.ref = some rec := by
      rw [record?, ← hnode.instances]
      exact (Option.filter_eq_some_iff.mp hrec).1
    exact hnode.enqueueRecord (hP command hcommand rec hstored)

theorem loads_retireExecuted (m : RawNode) :
    m.retireExecuted.pendingRecordLoads = m.pendingRecordLoads := by
  unfold retireExecuted
  refine List.foldlRecOn (motive := fun (node : RawNode) ↦ node.pendingRecordLoads =
    m.pendingRecordLoads) _ _
    rfl fun node hnode lane _ ↦ ?_
  unfold retireLane
  extract_lets own executedThrough target folded due retired contiguous swept
  have hretired : retired.pendingRecordLoads = m.pendingRecordLoads :=
    List.foldlRecOn (motive := fun (node : RawNode) ↦ node.pendingRecordLoads =
      m.pendingRecordLoads) _ _ hnode
      fun _ hprev _ _ ↦ hprev
  have hswept : swept.pendingRecordLoads = m.pendingRecordLoads := by
    unfold swept
    split_ifs <;> assumption
  split
  · exact hnode
  · refine List.foldlRecOn (motive :=
      fun (node : RawNode) ↦ node.pendingRecordLoads = m.pendingRecordLoads)
      _ _ hswept fun last hlast item _ ↦ ?_
    unfold dropPayload setInstance
    repeat' split
    all_goals exact hlast

theorem turns_afterAck {rd : Ready} (hawaits : n.awaitAdvance = true)
    (hvalid : n.validateReadyAck rd = true) : Turns true (n.afterAck rd) (n.advance rd).1 := by
  have hinstalled : Turns true (n.afterAck rd) (n.afterInstall rd) := by
    unfold afterInstall
    split_ifs
    · exact Turns.snapshotInstalled (.refl _)
    · exact .refl _
  rw [advance_eq hawaits hvalid]
  split_ifs
  · exact Turns.resumeAfterCompaction (hinstalled.plane rfl rfl rfl)
  · exact hinstalled

theorem awaits_advance {rd : Ready} (hawaits : n.awaitAdvance = true)
    (hvalid : n.validateReadyAck rd = true) :
    (n.advance rd).1.awaitAdvance = (n.afterAck rd).awaitAdvance := by
  have hinstalled : (n.afterInstall rd).awaitAdvance = (n.afterAck rd).awaitAdvance := by
    unfold afterInstall snapshotInstalled
    split_ifs
    · exact (Steady.resumeAfterCompaction _).awaits
    · exact awaits_modifyReady _ _
    · rfl
  rw [advance_eq hawaits hvalid]
  split_ifs
  · exact (Steady.resumeAfterCompaction _).awaits.trans hinstalled
  · exact hinstalled

/-- When the last of the frozen batch is acknowledged, every open record load is listed. -/
theorem loadsListed_advance {rd : Ready} (hn : LoadsHeld n.frame)
    (hkeeps : n.KeepsLoads (.advance rd)) (hawaits : n.awaitAdvance = true)
    (hdone : (n.advance rd).1.awaitAdvance = false) : LoadsListed (n.advance rd).1.frame := by
  by_cases hvalid : n.validateReadyAck rd = true
  swap
  · unfold advance at hdone
    rw [if_neg (by simp [hawaits]), if_pos (by simpa using hvalid), hawaits] at hdone
    cases hdone
  rw [awaits_advance hawaits hvalid] at hdone
  refine loadsListed_turns (turns_afterAck hawaits hvalid) hdone fun ref hopen ↦ ?_
  have hacked := (n.acked_acknowledge rd).shifts (Shifts.refl _).retireExecuted.widen
  have hretired : Turns false n (n.acknowledge rd).retireExecuted :=
    (turns_acknowledge hawaits hvalid).shifts (Shifts.refl _).retireExecuted
  unfold afterAck at hdone hopen ⊢
  dsimp only at hdone hopen ⊢
  split_ifs at hdone hopen ⊢ with hempty
  swap
  · exact absurd (hacked.awaits.trans hawaits) (by simp [hdone])
  have hfrozen : (n.acknowledge rd).retireExecuted.frozenReady = {} := by
    simpa [Ready.empty] using hempty
  refine listed_turns (hretired.lax.trans (turns_thaw hfrozen (hacked.awaits.trans hawaits))) ?_
  have hempties : n.empties rd = true := by
    unfold empties
    rw [hawaits, hvalid, ← hacked.frozen, hempty]
    rfl
  obtain ⟨hnext, hnone⟩ := hkeeps hempties
  have hbefore : n.pendingRecordLoads.contains ref = true := by
    change (n.acknowledge rd).retireExecuted.pendingRecordLoads.contains ref = true at hopen
    rw [loads_retireExecuted] at hopen
    have hasks := asksOnly_acknowledge
        (P := fun ref ↦ n.pendingRecordLoads.contains ref = true) hnone
    exact or_self_iff.mp (hasks.loads ref hopen)
  exact (hn ref hbefore).elim (fun hlisted ↦ hlisted) fun hmem ↦ hnext ref hmem hbefore

theorem loadsListed_call (hn : LoadsHeld n.frame)
    (hlisted : n.awaitAdvance = false → LoadsListed n.frame) {c : Call} (hc : n.KeepsLoads c)
    (hdone : (n.call c).1.awaitAdvance = false) : LoadsListed (n.call c).1.frame := by
  by_cases hready : c = .ready
  · obtain rfl := hready
    unfold call ready at hdone ⊢
    dsimp only at hdone ⊢
    split_ifs at hdone ⊢
    · exact hlisted hdone
    · cases hdone
  cases hawaits : n.awaitAdvance with
  | false => exact loadsListed_turns (n.turns_call hready) hawaits (hlisted hawaits)
  | true =>
    by_cases hadvance : ∃ rd, c = .advance rd
    · obtain ⟨rd, rfl⟩ := hadvance
      exact loadsListed_advance hn hc hawaits hdone
    · have hsteady := Steady.call n hready fun rd heq ↦ hadvance ⟨rd, heq⟩
      exact absurd (hsteady.awaits.trans hawaits) (by simp [hdone])

theorem loadsListed_run (hordered : n.outbox.Ordered) (hn : LoadsHeld n.frame)
    (hlisted : n.awaitAdvance = false → LoadsListed n.frame) {calls : List Call}
    (hmeets : RunMeets KeepsLoads n calls) :
    (n.run calls).awaitAdvance = false → LoadsListed (n.run calls).frame := by
  induction calls generalizing n with
  | nil => exact hlisted
  | cons c rest ih =>
    exact ih (ordered_call hordered c) (loadsHeld_call hordered hn c)
      (loadsListed_call hn hlisted hmeets.1) hmeets.2

/-- A batch is a part of another one: its lists are prefixes, and what it has of the optional parts
is the same. -/
structure PartOf (rd frozen : Ready) : Prop where
  hardState : rd.hardState.empty = false → rd.hardState = frozen.hardState
  configHistory : rd.configHistory <+: frozen.configHistory
  records : rd.records <+: frozen.records
  bootstrapRecords : rd.bootstrapRecords <+: frozen.bootstrapRecords
  localVoterState : ∀ state ∈ rd.localVoterState, frozen.localVoterState = some state
  frontierUpdates : rd.frontierUpdates <+: frozen.frontierUpdates
  allocatorFloor : rd.allocatorFloor ≠ 0 → rd.allocatorFloor = frozen.allocatorFloor
  messages : rd.messages <+: frozen.messages
  bootstrapMessages : rd.bootstrapMessages <+: frozen.bootstrapMessages
  apply : rd.apply <+: frozen.apply
  snapshot : ∀ snapshot ∈ rd.snapshot, frozen.snapshot = some snapshot
  checkpoint : ∀ request ∈ rd.checkpoint, frozen.checkpoint = some request
  compact : rd.compact <+: frozen.compact
  recordLoads : rd.recordLoads <+: frozen.recordLoads

/-- An empty batch is a part of every batch. -/
theorem PartOf.of_empty {rd : Ready} (hempty : rd.empty = true) (frozen : Ready) :
    PartOf rd frozen := by
  obtain rfl : rd = {} := beq_iff_eq.mp hempty
  exact
    { hardState := fun hsome ↦ absurd hsome (by decide)
      configHistory := List.nil_prefix, records := List.nil_prefix
      bootstrapRecords := List.nil_prefix, localVoterState := by simp
      frontierUpdates := List.nil_prefix, allocatorFloor := fun hfloor ↦ absurd rfl hfloor
      messages := List.nil_prefix, bootstrapMessages := List.nil_prefix, apply := List.nil_prefix
      snapshot := by simp, checkpoint := by simp, compact := List.nil_prefix
      recordLoads := List.nil_prefix }

/-- An optional part that is there only if it is the one of the frozen batch. -/
theorem eq_of_isNone_or {α : Type} [BEq α] [LawfulBEq α] {part frozen : Option α}
    (hpart : (part.isNone || part == frozen) = true) : ∀ value ∈ part, frozen = some value := by
  intro value hvalue
  rw [Option.mem_def.mp hvalue] at hpart
  exact (by simpa using hpart : some value = frozen).symm

/-- A batch that passes the check is a part of the frozen one, up to record loads and bootstrap
records. -/
theorem partOf_iff_of_validateReadyAck {n : RawNode} {rd : Ready}
    (hvalid : n.validateReadyAck rd = true) :
    PartOf rd n.frozenReady ↔ rd.recordLoads <+: n.frozenReady.recordLoads ∧
      rd.bootstrapRecords <+: n.frozenReady.bootstrapRecords := by
  refine ⟨fun hpart ↦ ⟨hpart.recordLoads, hpart.bootstrapRecords⟩, fun ⟨hloads, hbootstrap⟩ ↦ ?_⟩
  simp only [validateReadyAck, Bool.and_eq_true] at hvalid
  obtain ⟨⟨⟨⟨⟨⟨⟨⟨⟨⟨⟨⟨⟨⟨⟨⟨⟨⟨⟨-, -⟩, hhard⟩, hconfigs⟩, hrecords⟩, -⟩, -⟩, hfrontiers⟩, hmessages⟩,
    hletters⟩, happly⟩, -⟩, hcompact⟩, hvoter⟩, hfloor⟩, hsnapshot⟩, hcheckpoint⟩, -⟩, -⟩,
      -⟩ := hvalid
  refine
    { hardState := fun hsome ↦ ?_
      configHistory := List.isPrefixOf_iff_prefix.mp hconfigs
      records := List.isPrefixOf_iff_prefix.mp hrecords
      bootstrapRecords := hbootstrap
      localVoterState := eq_of_isNone_or hvoter
      frontierUpdates := List.isPrefixOf_iff_prefix.mp hfrontiers
      allocatorFloor := fun hsome ↦ ?_
      messages := List.isPrefixOf_iff_prefix.mp hmessages
      bootstrapMessages := List.isPrefixOf_iff_prefix.mp hletters
      apply := List.isPrefixOf_iff_prefix.mp happly
      snapshot := eq_of_isNone_or hsnapshot
      checkpoint := eq_of_isNone_or hcheckpoint
      compact := List.isPrefixOf_iff_prefix.mp hcompact
      recordLoads := hloads }
  · rw [hsome, if_pos (by decide)] at hhard
    exact beq_iff_eq.mp hhard
  · exact (Bool.or_eq_true_iff.mp hfloor).elim (fun hzero ↦ absurd (beq_iff_eq.mp hzero) hsome)
      beq_iff_eq.mp

/-- A batch with neither passes the check only if it has neither. -/
theorem nil_of_validateReadyAck {n : RawNode} {rd : Ready} (hvalid : n.validateReadyAck rd = true)
    (hloads : n.frozenReady.recordLoads = []) (hrecords : n.frozenReady.bootstrapRecords = []) :
    rd.recordLoads = [] ∧ rd.bootstrapRecords = [] := by
  simp only [validateReadyAck, Bool.and_eq_true, decide_eq_true_eq, hloads, hrecords,
    List.length_nil, Nat.le_zero, List.length_eq_zero_iff] at hvalid
  tauto

/-- An acknowledgement is accepted by a node that awaits one exactly if it passes the check. -/
theorem advance_accepts_iff {n : RawNode} (hawaits : n.awaitAdvance = true) (rd : Ready) :
    (n.advance rd).2 = none ↔ n.validateReadyAck rd = true := by
  unfold advance
  rw [hawaits]
  cases hvalid : n.validateReadyAck rd <;> simp

theorem bootstrapRecordEqual_self (records : List BootstrapRecord) :
    (records.zip records).all (fun pair ↦ bootstrapRecordEqual pair.1 pair.2) = true := by
  induction records with
  | nil => rfl
  | cons record rest ih => simpa [bootstrapRecordEqual] using ih

/-- Record loads are checked by their number, and bootstrap records by their digests. -/
theorem validateReadyAck_of_like {n : RawNode} (loads : List InstanceRef)
    (records : List BootstrapRecord) (hvalid : n.validateReadyAck n.frozenReady = true)
    (hloads : loads.length = n.frozenReady.recordLoads.length)
    (hrecords : records.length = n.frozenReady.bootstrapRecords.length)
    (hlike : (records.zip n.frozenReady.bootstrapRecords).all (fun pair ↦
      bootstrapRecordEqual pair.1 pair.2) = true) :
    n.validateReadyAck { n.frozenReady with
      recordLoads := loads, bootstrapRecords := records } = true := by
  have hisEmpty : ∀ {α : Type} {first second : List α}, first.length = second.length →
      first.isEmpty = second.isEmpty ∧ (first = [] ↔ second = []) := by
    intro α first second hlen
    rw [← List.length_eq_zero_iff, hlen, List.length_eq_zero_iff]
    cases first <;> cases second <;> simp_all
  have hempty : Ready.empty { n.frozenReady with
      recordLoads := loads, bootstrapRecords := records } = n.frozenReady.empty := by
    generalize n.frozenReady = frozen at *
    rw [Bool.eq_iff_iff]
    simp only [Ready.empty, beq_iff_eq, Ready.mk.injEq, (hisEmpty hloads).2, (hisEmpty hrecords).2]
    cases frozen
    simp
  simp only [validateReadyAck, readyHasDurableUpdate, requiredRecords, membershipSuccessor, hempty,
    (hisEmpty hloads).1, (hisEmpty hrecords).1, hloads, hrecords, hlike] at hvalid ⊢
  simp only [Bool.and_eq_true] at hvalid ⊢
  tauto

/-- The second voter has folded the first command, was asked for it, and has frozen the request for
its record. -/
def askingVoter : RawNode :=
  foldingVoter.run (foldingVoter.script (foldFirst ++ [.call (.step prepareOfFirst), .call .ready]))

end RawNode

end MoreConsensus
