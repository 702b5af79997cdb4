import MoreConsensus.Library.Canonical
import MoreConsensus.Shifts.Calls

/-!
# The start of a node

A node is built from storage in two parts. The first reads configurations and the checkpoint and
queues nothing that is appended to; the second takes the stored records up and shifts the frame as
any other call does. So a node starts with idle queues, no open record loads and a chain of
configurations whose current one is the last.
-/

set_option autoImplicit false

namespace MoreConsensus

open Library

/-- What every step of a loop that may fail keeps. -/
theorem foldlM_preserves {α β : Type} {P : β → Prop} {f : β → α → Option β} (as : List α)
    (hf : ∀ b a b', a ∈ as → P b → f b a = some b' → P b') {b b' : β} (hb : P b)
    (hfold : as.foldlM f b = some b') : P b' := by
  induction as generalizing b with
  | nil =>
    obtain rfl : b = b' := by simpa using hfold
    exact hb
  | cons a rest ih =>
    rw [List.foldlM_cons] at hfold
    obtain ⟨next, hnext, hrest⟩ := Option.bind_eq_some_iff.mp hfold
    exact ih (fun c x c' hmem ↦ hf c x c' (List.mem_cons_of_mem _ hmem))
      (hf b a next List.mem_cons_self hb hnext) hrest

namespace RawNode

variable {n b b' : RawNode} {id : ReplicaID} {cfg : Config} {base : VoterSet} {storage : Storage}
  {rec : InstanceRecord}

/-! ### Before the records -/

/-- What every step between the first configuration and the records keeps: a configuration is added,
a change is recorded as applied, the current configuration is chosen and who votes in it, a record
that is skipped is noted, the clock is set. -/
structure Prepares (P : RawNode → Prop) : Prop where
  add : ∀ n id voters, P n → P { n with confHistory := n.confHistory.insert id voters }
  apply : ∀ n (ref : InstanceRef), P n →
    P { n with appliedConfByBase := n.appliedConfByBase.insert ref.conf ref }
  choose : ∀ n current voter durable, P n →
    P { n with current := current, localVoter := voter, durableLocalVoter := durable }
  note : ∀ n ref, P n → P (n.note (.released ref))
  time : ∀ n tick, P n → P { n with tick := tick }

namespace Prepares

variable {P : RawNode → Prop} (hP : Prepares P)

include hP

theorem rememberConf (hb : P b) {id : ConfID} {voters : VoterSet}
    (hres : b.rememberConf id voters = some b') : P b' := by
  unfold RawNode.rememberConf at hres
  split at hres
  · split_ifs at hres
    exact Option.some.inj hres ▸ hb
  · exact Option.some.inj hres ▸ hP.add _ _ _ hb

theorem loadConfig (hb : P b) {entry : ConfigHistoryEntry}
    (hres : b.loadConfig entry = some b') : P b' := by
  obtain ⟨voters, -, hentry⟩ := Option.bind_eq_some_iff.mp hres
  split_ifs at hentry
  · exact hP.rememberConf hb hentry
  · obtain ⟨middle, hmiddle, rfl⟩ := Option.map_eq_some_iff.mp hentry
    exact hP.apply _ _ (hP.rememberConf hb hmiddle)

theorem replayExecutedConfig (hb : P b) (hres : b.replayExecutedConfig rec = some b') : P b' := by
  obtain ⟨base, -, hrec⟩ := Option.bind_eq_some_iff.mp hres
  dsimp only at hrec
  split at hrec
  · obtain ⟨successor, -, hsuccessor⟩ := Option.bind_eq_some_iff.mp hrec
    unfold RawNode.rememberAppliedConf at hsuccessor
    split_ifs at hsuccessor
    obtain ⟨middle, hmiddle, rfl⟩ := Option.map_eq_some_iff.mp hsuccessor
    exact hP.apply _ _ (hP.rememberConf hb hmiddle)
  · split_ifs at hrec
    exact Option.some.inj hrec ▸ hb
  · split_ifs at hrec
    exact Option.some.inj hrec ▸ hb
  · simp at hrec

/-- The node that has read its configurations. -/
theorem bootNode (hstart : P
      { id := id, cfg := cfg, confHistory := FiniteMap.insert ∅ 1 base,
        tick := storage.hardState.tick, membership := storage.membership,
        allocatorFloor := storage.allocatorFloor, nextInstance := max 1 storage.allocatorFloor })
    (hres : bootNode id cfg base storage = some b) : P b := by
  unfold RawNode.bootNode at hres
  dsimp only at hres
  split at hres
  · simp at hres
  obtain ⟨loaded, hloaded, hboot⟩ := Option.bind_eq_some_iff.mp hres
  obtain ⟨-, hboot⟩ := Option.ite_none_left_eq_some.mp hboot
  obtain rfl := Option.some.inj hboot
  exact hP.choose _ _ _ _ (foldlM_preserves _
    (fun node entry node' _ hnode hentry ↦ hP.loadConfig hnode hentry) hstart hloaded)

theorem noteReleased (hb : P b) (refs : List InstanceRef) : P (b.noteReleased refs) := by
  induction refs generalizing b with
  | nil => exact hb
  | cons ref rest ih => exact ih (hP.note _ _ hb)

/-- The node that has replayed its configuration changes. -/
theorem replayed (hb : P b) {refs : List InstanceRef} {records : List InstanceRecord} {timed : Bool}
    {tick : ℕ} (hres : (if timed then { b.noteReleased refs with tick := tick }
      else b.noteReleased refs).replayExecutedConfigRecords records = some b') : P b' := by
  obtain ⟨last, hlast, rfl⟩ := Option.map_eq_some_iff.mp hres
  refine hP.choose _ _ _ _ (foldlM_preserves _
    (fun node rec node' _ hnode hrec ↦ hP.replayExecutedConfig hnode hrec) ?_ hlast)
  split
  · exact hP.time _ _ (hP.noteReleased hb refs)
  · exact hP.noteReleased hb refs

end Prepares

/-- A node that has only read its configurations. -/
structure Blank (b : RawNode) : Prop where
  outbox : b.outbox = .idle
  loads : b.pendingRecordLoads = ∅
  index : b.index = ⟨∅, {}, ∅⟩
  plain : ∀ event ∈ b.journal, event.plain = true
  /-- No message waits, for a record or for a clock, and none was taken from a queue. -/
  waiting : (b.pendingRecordLoadMessages, b.deferred, b.taken) = (0, ∅, [])

section

variable (hb : b.Blank)

include hb

/-- Only the frame counts, and of its plane only the messages that wait. -/
theorem Blank.of_frame (hframe : b'.frame = { b.frame with plane := b'.plane })
    (hwaiting : (b'.pendingRecordLoadMessages, b'.deferred, b'.taken) =
      (b.pendingRecordLoadMessages, b.deferred, b.taken)) : b'.Blank := by
  have hjournal : b'.journal = b.journal := congrArg Frame.journal hframe
  exact ⟨(congrArg Frame.outbox hframe :).trans hb.outbox,
    (congrArg Frame.loads hframe :).trans hb.loads, (congrArg Frame.index hframe :).trans hb.index,
    hjournal ▸ hb.plain, hwaiting ▸ hb.waiting⟩

theorem Blank.keyed : b.index.Keyed := by
  rw [hb.index]
  exact fun ref inst hget ↦ by simp at hget

theorem Blank.counted : b.frame.Counted := by
  have hheld : b.pendingRecordLoadMessages = 0 := congrArg Prod.fst hb.waiting
  change b.pendingRecordLoadMessages = b.pendingRecordLoads.total _
  rw [hheld, hb.loads, FiniteMap.total_emptyCollection]

end

theorem Blank.prepares : Prepares Blank where
  add := fun _ _ _ hn ↦ ⟨hn.outbox, hn.loads, hn.index, hn.plain, hn.waiting⟩
  apply := fun _ _ hn ↦ ⟨hn.outbox, hn.loads, hn.index, hn.plain, hn.waiting⟩
  choose := fun _ _ _ _ hn ↦ ⟨hn.outbox, hn.loads, hn.index, hn.plain, hn.waiting⟩
  note := fun n ref hn ↦ by
    refine ⟨hn.outbox, hn.loads, hn.index, fun event hevent ↦ ?_, hn.waiting⟩
    rcases List.mem_append.mp hevent with hold | hnew
    · exact hn.plain event hold
    · rw [List.mem_singleton.mp hnew]
      rfl
  time := fun _ _ hn ↦ ⟨hn.outbox, hn.loads, hn.index, hn.plain, hn.waiting⟩

theorem Blank.bootNode (hres : bootNode id cfg base storage = some b) : b.Blank := by
  exact Blank.prepares.bootNode ⟨rfl, rfl, rfl, fun event hevent ↦ by simp at hevent, rfl⟩ hres

section

variable (hb : b.Blank)

include hb

theorem Blank.proposeSnapshot (mode : SnapshotMode) (checkpoint : Checkpoint) :
    (b.proposeSnapshot mode checkpoint).Blank := by
  refine hb.of_frame (Shifts.frame_modifyReady_other b (fun _ ↦ rfl) fun _ ↦ rfl) ?_
  unfold RawNode.proposeSnapshot modifyReady
  split_ifs <;> rfl

theorem Blank.loadCheckpoint {checkpoint : Checkpoint}
    (hres : b.loadCheckpoint checkpoint = some b') : b'.Blank := by
  unfold RawNode.loadCheckpoint at hres
  split at hres
  · exact Option.some.inj hres ▸ hb
  split at hres
  · simp at hres
  dsimp only at hres
  split at hres
  · obtain rfl := Option.some.inj hres
    refine Blank.of_frame (Blank.proposeSnapshot ?_ .install checkpoint) rfl rfl
    exact hb.of_frame rfl rfl
  · exact Option.some.inj hres ▸ hb.of_frame rfl rfl

end

/-! ### Taking records up -/

theorem Shifts.settle (n : RawNode) (rec : InstanceRecord) : Shifts .call n
    (((n.observeInstanceRef rec.ref).closeTOQ rec).markPendingConf rec) := by
  have hobserved : Shifts .call n (n.observeInstanceRef rec.ref) :=
    (Shifts.refl n).observeInstanceRef rec.ref
  refine Shifts.markPendingConf ?_ rec
  unfold closeTOQ
  split_ifs
  · exact hobserved.of_timing rfl nofun
  · exact hobserved

/-- The vote of this node that a restart seeds is its own record. -/
theorem keyed_seedLocalRestartVote (n : RawNode) {inst : Instance} {ref : InstanceRef}
    (hinst : inst.Keyed ref) : (n.seedLocalRestartVote inst).Keyed ref := by
  have hvoted : ∀ preOK accOK, Instance.Keyed ref { inst with preOK := preOK, accOK := accOK } :=
    fun _ _ ↦ hinst.of_record hinst.record rfl rfl
  unfold seedLocalRestartVote
  dsimp only
  split
  · exact hinst
  split
  · split
    · exact hinst
    · split
      · exact hinst
      · exact hvoted _ _
  · split
    · exact hinst
    · exact hvoted _ _
  · split
    · exact hinst
    · refine ⟨hinst.record, fun id rec hrec ↦ ?_, hinst.evidence⟩
      rcases VoteSet.get?_addOrKeep hrec with hold | ⟨-, rfl⟩
      · simp at hold
      · exact hinst.record
  · exact hinst

/-- The seeded vote leaves the record and the phase alone. -/
theorem seedLocalRestartVote_keeps (n : RawNode) (inst : Instance) :
    (n.seedLocalRestartVote inst).record = inst.record ∧
      (n.seedLocalRestartVote inst).phase = inst.phase := by
  unfold seedLocalRestartVote
  dsimp only
  split
  · exact ⟨rfl, rfl⟩
  split
  · split
    · exact ⟨rfl, rfl⟩
    · split <;> exact ⟨rfl, rfl⟩
  · split <;> exact ⟨rfl, rfl⟩
  · split <;> exact ⟨rfl, rfl⟩
  · exact ⟨rfl, rfl⟩

theorem seedLocalRestartVote_record (n : RawNode) (inst : Instance) :
    (n.seedLocalRestartVote inst).record = inst.record := (n.seedLocalRestartVote_keeps inst).1

/-- A loaded record becomes resident under its own reference. -/
theorem keyed_loaded (n : RawNode) (rec : InstanceRecord) (phase : Phase) :
    Instance.Keyed (n.seedLocalRestartVote
      { record := rec, phase := phase, processAt := rec.processAt }).record.ref
      (n.seedLocalRestartVote { record := rec, phase := phase, processAt := rec.processAt }) := by
  rw [seedLocalRestartVote_record]
  exact n.keyed_seedLocalRestartVote (.of_empty rfl rfl rfl)

theorem Turns.loadRecord (hturns : Turns true n b)
    (hres : b.loadRecord rec = some b') : Turns true n b' := by
  obtain ⟨conf, -, hload⟩ := Option.bind_eq_some_iff.mp hres
  obtain ⟨-, hload⟩ := Option.ite_none_left_eq_some.mp hload
  obtain rfl := Option.some.inj hload
  have hinstalled := hturns.installInstance (b.keyed_loaded rec (b.restartPhase rec))
  refine Turns.shifts ?_ (Shifts.settle _ rec).widen
  split
  · exact hinstalled
  · exact hinstalled

theorem Shifts.restartTimer {state : RawNode × Option Err} (hshifts : Shifts .call n state.1)
    (hres : restartTimer state = some b') : Shifts .call n b' := by
  unfold RawNode.restartTimer at hres
  split at hres
  · exact Option.some.inj hres ▸ hshifts
  · split at hres
    · exact Option.some.inj hres ▸ hshifts
    · simp at hres

theorem Shifts.resumeRecord (hshifts : Shifts .call n b)
    (hres : b.resumeRecord rec = some b') : Shifts .call n b' := by
  unfold RawNode.resumeRecord at hres
  split at hres
  · exact Option.some.inj hres ▸ hshifts
  next inst _ =>
  dsimp only at hres
  split at hres
  · exact Option.some.inj hres ▸ hshifts
  split at hres
  · have hadmitted := hshifts.admitDeferredPreAccept .toq
      (b.messageFromRecord .preAccept b.id inst.record)
    split at hres
    · simp at hres
    · next node hnode =>
      rw [hnode] at hadmitted
      exact (hadmitted.schedule _ _ _).restartTimer hres
  split at hres
  · split at hres
    · exact (hshifts.startPrepare Shifts.drive _).restartTimer hres
    · exact (hshifts.scheduleRecovery _).restartTimer hres
  · split at hres
    · exact (hshifts.schedule _ _ _).restartTimer hres
    · exact (hshifts.scheduleRecovery _).restartTimer hres
  · split at hres
    · exact (hshifts.schedule _ _ _).restartTimer hres
    · exact (hshifts.scheduleRecovery _).restartTimer hres
  · exact (hshifts.schedule _ _ _).restartTimer hres
  · exact Option.some.inj hres ▸ hshifts
  · exact Option.some.inj hres ▸ hshifts

theorem Turns.restorePreparedCheckpoint (hturns : Turns true n b) {checkpoint : Checkpoint}
    (hres : b.restorePreparedCheckpoint checkpoint = some b') : Turns true n b' := by
  unfold RawNode.restorePreparedCheckpoint at hres
  split at hres
  · exact Option.some.inj hres ▸ hturns
  split at hres
  · simp at hres
  split at hres
  · simp at hres
  · obtain rfl := Option.some.inj hres
    refine Turns.shifts ?_
      ((Shifts.refl _).broadcastCheckpointControl _ _ _).maybeCertifyCheckpoint
    exact hturns.plane rfl rfl rfl

/-! ### Construction -/

theorem Shifts.enterRuntime {scope : Scope} (n : RawNode) (cluster : Bool) : Shifts scope n
    (RawNode.activateTOQRuntime
      (if cluster then n else { n with localVoter := ⟨n.currentConf, true⟩ })
      (if cluster then n else { n with localVoter := ⟨n.currentConf, true⟩ }).currentConf) := by
  refine Shifts.activateTOQRuntime ?_ _
  split
  · exact .refl n
  · exact Shifts.refl n

/-! #### Settings -/

theorem settings_prepares : Prepares fun node ↦ node.settings = (id, cfg) where
  add := fun _ _ _ hn ↦ hn
  apply := fun _ _ hn ↦ hn
  choose := fun _ _ _ _ hn ↦ hn
  note := fun _ _ hn ↦ hn
  time := fun _ _ hn ↦ hn

theorem settings_loadCheckpoint {checkpoint : Checkpoint}
    (hres : b.loadCheckpoint checkpoint = some b') : b'.settings = b.settings := by
  unfold RawNode.loadCheckpoint at hres
  split at hres
  · rw [Option.some.inj hres]
  split at hres
  · simp at hres
  dsimp only at hres
  split at hres
  · rw [← Option.some.inj hres]
    unfold RawNode.proposeSnapshot modifyReady
    split <;> rfl
  · rw [← Option.some.inj hres]
    rfl

/-! #### Stages -/

/-- The stages of a start: a fresh node takes its records up, resumes their phases and restores a
prepared checkpoint. -/
theorem newRawNode_stages
    (hres : newRawNode id cfg base storage = some n) :
    ∃ b start loaded resumed restored : RawNode, b.Blank ∧ Shifts .handler b start ∧
      start.id = b.id ∧ start.index = b.index ∧
      storage.loadedRecords.foldlM loadRecord start = some loaded ∧
      storage.loadedRecords.foldlM resumeRecord loaded = some resumed ∧
      resumed.restorePreparedCheckpoint storage.checkpoint = some restored ∧
      Shifts .handler restored n ∧ b.settings = (id, cfg) := by
  unfold newRawNode at hres
  simp only [Option.bind_eq_bind, Option.bind_eq_some_iff] at hres
  obtain ⟨boot, hboot, installed, hinstalled, replayed, hreplayed, loaded, hloaded, resumed,
    hresumed, restored, hrestored, hfinal⟩ := hres
  refine ⟨replayed, _, loaded, resumed, restored, ?_, ?_, ?_, ?_, hloaded, hresumed, hrestored, ?_,
    ?_⟩
  · have hblank := Blank.prepares.replayed
        ((Blank.bootNode hboot).loadCheckpoint hinstalled) hreplayed
    obtain ⟨last, -, rfl⟩ := Option.map_eq_some_iff.mp hreplayed
    exact hblank
  · exact Shifts.enterRuntime replayed cfg.cluster
  · unfold activateTOQRuntime
    split <;> split <;> rfl
  · unfold activateTOQRuntime
    split <;> split <;> rfl
  · obtain rfl := Option.some.inj hfinal
    change Shifts .handler restored (if restored.executionPaused then restored
      else restored.beginDrive.runExecution)
    split
    · exact .refl restored
    · exact Shifts.runExecution (m := restored.beginDrive) (.refl restored)
  · exact settings_prepares.replayed
      ((settings_loadCheckpoint hinstalled).trans (settings_prepares.bootNode rfl hboot)) hreplayed

/-- A node starts fresh and takes its records up. -/
theorem fresh_newRawNode
    (hres : newRawNode id cfg base storage = some n) :
    ∃ b : RawNode, b.Blank ∧ Turns true b n ∧ b.settings = (id, cfg) := by
  obtain ⟨b, start, loaded, resumed, restored, hb, hstart, -, -, hloaded, hresumed, hrestored, hn,
    hsettings⟩ := newRawNode_stages hres
  have hloads : Turns true b loaded := foldlM_preserves _
    (fun node rec node' _ hnode hrec ↦ Turns.loadRecord hnode hrec) hstart.widen.turns hloaded
  have hresumes : Shifts .call loaded resumed := foldlM_preserves _
    (fun node rec node' _ hnode hrec ↦ Shifts.resumeRecord hnode hrec) (.refl loaded) hresumed
  exact ⟨b, hb, ((hloads.shifts hresumes.widen).restorePreparedCheckpoint
    hrestored).shifts hn.within,
    hsettings⟩

theorem settings_newRawNode
    (hres : newRawNode id cfg base storage = some n) : n.settings = (id, cfg) := by
  obtain ⟨b, -, hturns, hsettings⟩ := fresh_newRawNode hres
  exact hturns.settings.trans hsettings

end RawNode

end MoreConsensus
