import MoreConsensus.Recovery
import MoreConsensus.Shifts.Voting

/-!
# The recovery handlers as shifts
-/

set_option autoImplicit false

namespace MoreConsensus

open Library

namespace RawNode

namespace Shifts

variable {scope : Scope} {n m : RawNode} {ref : InstanceRef}

/-! ### Prepare -/

/-- An instance that yields to another coordinator is idle, with a timer for its recovery. -/
theorem yieldInstance (hshifts : Shifts scope n m) (ref : InstanceRef) (deadline : ℕ) :
    Shifts scope n (m.yieldInstance ref deadline).1 := by
  refine Shifts.schedule (Shifts.changeInstance (m := m.cancelTimersForRef ref) hshifts ref _
    (by exact fun _ hpayload ↦ hpayload) fun _ hm inst hget ↦ ?_) ref _ _
  exact ⟨.of_empty (hm ref inst hget).record rfl rfl, .refl _⟩

theorem get?_yieldInstance (m : RawNode) (ref : InstanceRef) (deadline : ℕ) :
    (m.yieldInstance ref deadline).1.instances.get? ref =
      (m.instances.get? ref).map fun inst ↦ { releaseInstanceVolatile inst with
        phase := .idle, generation := inst.generation + 1, waitDeadline := deadline } := by
  unfold RawNode.yieldInstance
  dsimp only
  rw [instances_schedule, get?_updateInstance, if_pos rfl]
  rfl

/-- A Prepare for an unknown instance leaves an empty record with the promise. -/
theorem promiseNew (hshifts : Shifts scope n m) (msg : Message) (deadline : Option ℕ) :
    Shifts scope n (m.promiseNew msg deadline).1 := by
  unfold RawNode.promiseNew
  extract_lets blank installed scheduled
  have hinstalled : Shifts scope n installed :=
    (hshifts.installInstance (by simp [blank])
      (by exact .of_empty rfl rfl rfl) rfl).observeInstanceRef _
  have hscheduled : Shifts scope n scheduled.1 := by
    unfold scheduled
    split
    · exact hinstalled
    · exact (hinstalled.updateInstance _ _ (by exact fun _ ↦ ⟨rfl, rfl, rfl, rfl⟩)).schedule _ _ _
  clear_value scheduled
  obtain ⟨res, err⟩ := scheduled
  cases err with
  | some err => exact hscheduled
  | none => exact (hscheduled.enqueueRecord _).enqueueMessage _

/-- A promise changes nothing of a resident record that the index keeps. -/
theorem promiseResident (hshifts : Shifts scope n m) {msg : Message} {old : InstanceRecord}
    (hold : m.record? msg.ref = some old) (deadline : ℕ) :
    Shifts scope n (m.promiseResident msg old deadline).1 := by
  obtain ⟨inst, hget, rfl⟩ := Option.map_eq_some_iff.mp hold
  have hkey : n.index.Keyed → inst.record.ref = msg.ref := fun hn ↦
    (hshifts.keyed hn _ inst hget).record
  unfold RawNode.promiseResident
  extract_lets raised node yielded
  have hnode : Shifts scope n node := by
    unfold node
    split_ifs
    · exact hshifts.changeInstance _ _ (fun _ hpayload ↦ hpayload) fun hn hm found hfound ↦
        ⟨(hm _ found hfound).of_record (hm _ found hfound).record rfl rfl, ⟨rfl, rfl⟩⟩
    · exact hshifts
  have hresident : ∀ found, node.instances.get? msg.ref = some found →
      ConflictEngine.Alike inst.record found.record := by
    intro found hfound
    unfold node at hfound
    split_ifs at hfound
    · rw [updateRecord, get?_updateInstance, if_pos rfl, hget] at hfound
      rw [← Option.some.inj hfound]
      exact ⟨rfl, rfl⟩
    · rw [hget] at hfound
      rw [← Option.some.inj hfound]
      exact .refl _
  clear_value node
  have hyielded : Shifts scope n yielded.1 ∧
      ∀ found, yielded.1.instances.get? msg.ref = some found →
      ConflictEngine.Alike inst.record found.record := by
    unfold yielded
    split_ifs
    · refine ⟨Shifts.yieldInstance (m := node.dropTryEvidenceChecksForTarget msg.ref) hnode _ _,
        fun found hfound ↦ ?_⟩
      rw [get?_yieldInstance] at hfound
      obtain ⟨kept, hkept, rfl⟩ := Option.map_eq_some_iff.mp hfound
      exact hresident kept hkept
    · exact ⟨hnode, hresident⟩
  clear_value yielded
  obtain ⟨res, err⟩ := yielded
  cases err with
  | some err => exact hyielded.1
  | none =>
    have hpromised : Shifts scope n (res.updateRecord msg.ref fun _ ↦ res.ensureRecordDeps
        { inst.record with ballot := max inst.record.ballot msg.ballot }) := by
      refine hyielded.1.amend msg.ref _ (fun _ ↦ ⟨rfl, rfl, rfl, rfl⟩) (fun hn ↦ ?_)
        fun found hfound ↦ ?_
      · exact (ref_ensureRecordDeps ..).trans (hkey hn)
      · have halike := hyielded.2 found hfound
        exact ⟨(alike_ensureRecordDeps ..).facts.trans halike.facts,
          (alike_ensureRecordDeps ..).footprint.trans halike.footprint⟩
    refine Shifts.enqueueMessage ?_ _
    split
    · exact hpromised
    · exact hpromised.enqueueRecord _

/-- A Prepare is refused, answered by a committed record, or promised. -/
theorem handlePrepare (hshifts : Shifts scope n m) (msg : Message) :
    Shifts scope n (m.handlePrepare msg).1 := by
  unfold RawNode.handlePrepare
  dsimp only
  split
  · exact hshifts.deferRecordLoadWith _ _ _
  split
  · exact hshifts
  split
  · exact hshifts.sendReject _ _ _ _
  split
  · next deferred hdeferred => exact hshifts.requirePayload hdeferred
  split
  · exact hshifts.removeDeferredPreAccepts msg.ref
  split
  · exact (hshifts.removeDeferredPreAccepts msg.ref).promiseNew _ _
  · next old hold =>
    exact (hshifts.removeDeferredPreAccepts msg.ref).promiseResident hold _

/-! ### Evidence and TryPreAccept -/

section

variable (hshifts : Shifts scope n m)

include hshifts

/-- A request for evidence is answered and changes no instance. -/
theorem handleEvidence (msg : Message) :
    Shifts scope n (m.handleEvidence msg).1 := by
  unfold RawNode.handleEvidence
  split
  · exact hshifts.deferRecordLoadWith _ _ _
  split
  · next deferred hdeferred => exact hshifts.requirePayload hdeferred
  dsimp only
  split
  · exact hshifts.enqueueMessage _
  split
  · exact hshifts.enqueueMessage _
  · exact hshifts.enqueueMessage _

/-- A TryPreAccept is refused at a node that has accepted a value. -/
theorem refuseAccepted {msg : Message} {old : InstanceRecord}
    (hold : m.record? msg.ref = some old) : Shifts scope n (m.refuseAccepted msg old).1 := by
  unfold RawNode.refuseAccepted
  extract_lets yields deadline node next set
  have hset : Shifts scope n set := by
    refine (hshifts.removeDeferredPreAccepts msg.ref).amend msg.ref _
      (fun _ ↦ ⟨rfl, rfl, rfl, rfl⟩) (fun hn ↦ (hshifts.keyed hn).record_key old hold)
      fun found hfound ↦ ?_
    have hsame : some found.record = some old := by
      rw [← hold, record?, show m.instances.get? msg.ref = some found from hfound, Option.map_some]
    rw [Option.some.inj hsame]
    exact ⟨rfl, rfl⟩
  split
  · exact hshifts
  split
  · have hyielded : Shifts scope n
        (if yields then set.yieldInstance msg.ref (deadline.getD 0) else (set, none)).1 := by
      split
      · exact hset.yieldInstance _ _
      · exact hset
    split
    · next res err hres =>
      rw [hres] at hyielded
      exact hyielded
    · next res hres =>
      rw [hres] at hyielded
      exact (hyielded.enqueueRecord _).enqueueMessage _
  · exact (hshifts.removeDeferredPreAccepts msg.ref).enqueueMessage _

/-- A node that finds no conflict votes for the attributes of a TryPreAccept. -/
theorem voteTryPreAccept (msg : Message) :
    Shifts scope n (m.voteTryPreAccept msg).1 := by
  unfold RawNode.voteTryPreAccept
  split
  · exact hshifts.enqueueMessage _
  dsimp only
  split
  · exact hshifts.enqueueMessage _
  · exact hshifts.installVote (by simp) _ _

/-- A TryPreAccept is refused, put off for a conflict, or voted for. -/
theorem handleTryPreAccept (msg : Message) :
    Shifts scope n (m.handleTryPreAccept msg).1 := by
  unfold RawNode.handleTryPreAccept
  split
  · exact hshifts.voteTryPreAccept msg
  next old hold =>
  split
  · split
    · next deferred hdeferred => exact hshifts.requirePayload hdeferred
    · split
      · exact hshifts
      · exact hshifts.sendCommitTo _ _
  split
  · exact hshifts.sendReject _ _ _ _
  split
  · split
    · exact hshifts
    · exact hshifts.refuseAccepted hold
  split
  · split
    · exact hshifts.enqueueMessage _
    · exact hshifts
  · exact hshifts.voteTryPreAccept msg

/-- A coordinator takes over the value that it has found. -/
theorem adoptValue (ref : InstanceRef) (src : InstanceRecord) :
    Shifts scope n (m.adoptValue ref src) :=
  hshifts.setInstance ref _ (fun _ _ hpayload ↦ hpayload) fun _ hm inst hget ↦
    (hm ref inst hget).of_record (hm ref inst hget).record rfl rfl

end

/-- A committed record is one that was gathered for the instance. -/
theorem ref_of_prepareDecision {conf : ConfState} {inst : Instance} {rec : InstanceRecord}
    (hkeyed : inst.Keyed ref) (hdecision : m.prepareDecision conf inst = .committed rec) :
    rec.ref = ref := by
  have hanswer : ∀ answer ∈ prepareAnswers conf inst, answer.2.ref = ref := by
    intro answer hmem
    unfold prepareAnswers at hmem
    obtain ⟨id, -, hanswer⟩ := List.mem_filterMap.mp hmem
    obtain ⟨found, hfound, rfl⟩ := Option.map_eq_some_iff.mp hanswer
    have hget : ∀ votes : VoteSet InstanceRecord, VoteSet.get votes conf id = some found →
        FiniteMap.get? votes id = some found := by
      intro votes hvote
      unfold VoteSet.get at hvote
      split_ifs at hvote
      exact hvote
    rcases Option.or_eq_some_iff.mp hfound with hok | ⟨-, hevidence⟩
    · exact hkeyed.answers id found (hget _ hok)
    · exact hkeyed.evidence id found (hget _ hevidence)
  unfold prepareDecision at hdecision
  dsimp only at hdecision
  split at hdecision
  · next answer hfind =>
    rw [PrepareDecision.committed.injEq] at hdecision
    rw [← hdecision]
    exact hanswer answer (List.mem_of_find?_eq_some hfind)
  · split at hdecision
    · simp at hdecision
    · split at hdecision
      · simp at hdecision
      · split at hdecision <;> simp at hdecision

section Drive

variable {drive : RawNode → RawNode} (hdrive : ∀ node, Shifts scope node (drive node))

include hdrive

/-! ### Decisions -/

/-- Each decision of a Prepare quorum starts the phase that belongs to it. -/
theorem applyDecision (hshifts : Shifts scope n m) (ref : InstanceRef) (decision : PrepareDecision)
    (hdecision : n.index.Keyed → ∀ rec, decision = .committed rec → rec.ref = ref) :
    Shifts scope n (m.applyDecision drive ref decision).1 := by
  cases decision with
  | committed rec =>
    exact Shifts.commit hdrive
      (hshifts.setInstanceRecord (by exact fun hn ↦ hdecision hn rec rfl)) _ _
  | accepted chosen attrs => exact (hshifts.adoptValue ref chosen).startAccept hdrive _ _
  | tryTuple candidate witnesses =>
    exact (hshifts.adoptValue ref candidate).startTryPreAccept hdrive _ _ _
  | preAccepted chosen attrs => exact (hshifts.adoptValue ref chosen).startAccept hdrive _ _
  | noValue =>
    unfold RawNode.applyDecision
    dsimp only
    split
    · exact hshifts
    next next hnext =>
    obtain ⟨old, hold, hvalue⟩ := Option.bind_eq_some_iff.mp hnext
    exact hshifts.acceptNone hdrive fun hn ↦
      (ref_valueOfNone m hvalue).trans ((hshifts.keyed hn).record_key old hold)

/-- A promise is counted, and a slow quorum of promises decides. -/
theorem handlePrepareResp (hshifts : Shifts scope n m) (msg : Message) :
    Shifts scope n (m.handlePrepareResp drive msg).1 := by
  unfold RawNode.handlePrepareResp
  split
  · exact hshifts
  next inst hget =>
  dsimp only
  split
  · exact hshifts
  split
  · split
    · exact hshifts.startPrepareFrom hdrive _ _
    · exact hshifts
  split
  · exact hshifts
  split
  · exact hshifts.startPrepareFrom hdrive _ _
  split
  · exact hshifts
  split
  · exact hshifts
  next votes hvotes =>
  have hkeyed : n.index.Keyed → Instance.Keyed msg.ref { inst with prepareOK := votes } := by
    intro hn
    have hinst := hshifts.keyed hn _ inst hget
    refine ⟨hinst.record, fun id rec hrec ↦ ?_, hinst.evidence⟩
    rw [(VoteSet.add_eq_some hvotes).2.2, FiniteMap.get?_insert] at hrec
    split_ifs at hrec
    · rw [← Option.some.inj hrec, ref_ensureRecordDeps]
      rfl
    · exact hinst.answers id rec hrec
  have hcounted : Shifts scope n (m.updateInstance msg.ref fun inst ↦
      { inst with prepareOK := votes }) := by
    refine hshifts.changeInstance _ _ (fun _ hpayload ↦ hpayload) fun hn hm found hfound ↦ ?_
    rw [hget] at hfound
    rw [← Option.some.inj hfound]
    exact ⟨hkeyed hn, .refl _⟩
  split
  · exact hcounted
  · exact (hcounted.note rfl).applyDecision hdrive _ _ fun hn rec hrec ↦
      ref_of_prepareDecision (hkeyed hn) hrec

/-! ### Conflicts of a tuple that is tried -/

section

variable (hshifts : Shifts scope n m)

include hshifts

theorem startAcceptAfterTryCommittedConflict (ref conflict : InstanceRef)
    (conflictSeq : Option ℕ) :
    Shifts scope n (m.startAcceptAfterTryCommittedConflict drive ref conflict conflictSeq) := by
  unfold RawNode.startAcceptAfterTryCommittedConflict
  split
  · exact hshifts
  · exact (Shifts.note (m := m.dropTryEvidenceChecksForTarget ref) hshifts rfl).startAccept hdrive
      _ _

theorem failTryEvidenceCheck (ref : InstanceRef) (check : TryEvidenceCheck) :
    Shifts scope n (m.failTryEvidenceCheck drive ref check) := by
  unfold RawNode.failTryEvidenceCheck
  split
  · exact hshifts.startAcceptAfterTryCommittedConflict hdrive _ _ _
  · exact hshifts.startAcceptAfterTryCommittedConflict hdrive _ _ _

/-- A refusal for a conflict asks the voters what they know of it. -/
theorem maybeStartTryEvidenceCheck {inst : Instance}
    {conflict : InstanceRef} {res : RawNode}
    (hres : m.maybeStartTryEvidenceCheck drive inst conflict = some res) : Shifts scope n res := by
  unfold RawNode.maybeStartTryEvidenceCheck at hres
  dsimp only at hres
  split at hres
  · simp at hres
  split at hres
  · split at hres
    · rw [← Option.some.inj hres]
      exact hshifts
    · rw [← Option.some.inj hres]
      exact hshifts.failTryEvidenceCheck hdrive _ _
  split at hres
  · rw [← Option.some.inj hres]
    exact hshifts.startAcceptAfterTryCommittedConflict hdrive _ _ _
  · rw [← Option.some.inj hres]
    refine Shifts.sendAll ?_ _ _
    exact hshifts

/-- The answers of a slow quorum settle a check of evidence. -/
theorem resolveTryEvidenceCheck (inst : Instance)
    (check : TryEvidenceCheck) : Shifts scope n (m.resolveTryEvidenceCheck drive inst check) := by
  unfold RawNode.resolveTryEvidenceCheck
  dsimp only
  split
  · exact hshifts
  · exact hshifts.failTryEvidenceCheck hdrive _ _
  · exact ((Shifts.note (m := m.dropTryEvidenceChecksForTarget inst.record.ref) hshifts
      rfl).updateInstance _ _ (by exact fun _ ↦
        ⟨rfl, rfl, rfl, rfl⟩)).broadcastTryPreAcceptIgnore _ _

/-- Evidence is collected for the check that has asked for it. -/
theorem handleEvidenceResp (msg : Message) :
    Shifts scope n (m.handleEvidenceResp drive msg) := by
  unfold RawNode.handleEvidenceResp
  split
  · exact hshifts
  split
  · exact hshifts
  split
  · exact hshifts
  split
  · exact hshifts
  · refine Shifts.resolveTryEvidenceCheck hdrive ?_ _ _
    exact hshifts

/-- A refused TryPreAccept ends in a new Prepare, an Accept phase or a check of evidence. -/
theorem tryRejected (inst : Instance) (msg : Message) :
    Shifts scope n (m.tryRejected drive inst msg).1 := by
  have hstale : Shifts scope n (if inst.record.ballot < msg.rejectHint then
      m.startPrepareFrom drive msg.ref msg.rejectHint else (m, none)).1 := by
    split
    · exact hshifts.startPrepareFrom hdrive _ _
    · exact hshifts
  unfold RawNode.tryRejected
  split
  · exact hstale
  · exact hstale
  · split
    · exact hshifts
    have hstart := hshifts.startPrepare hdrive msg.ref
    split
    · next res err hres =>
      rw [hres] at hstart
      exact hstart
    · next res hres =>
      rw [hres] at hstart
      refine hstart.changeInstance _ _ (fun _ hpayload ↦ hpayload) fun _ hm found hfound ↦
        ⟨?_, .refl _⟩
      have hkeyed := hm _ found hfound
      refine ⟨hkeyed.record, hkeyed.answers, fun id rec hrec ↦ ?_⟩
      rcases VoteSet.get?_addOrKeep hrec with hold | ⟨-, rfl⟩
      · exact hkeyed.evidence id rec hold
      · rfl
  · dsimp only
    have habandoned := hshifts.startAcceptAfterTryCommittedConflict hdrive msg.ref msg.conflictRef
      none
    split
    · cases hcheck : m.maybeStartTryEvidenceCheck drive inst msg.conflictRef with
      | none => exact habandoned
      | some res => exact hshifts.maybeStartTryEvidenceCheck hdrive hcheck
    · exact habandoned
  · split
    · exact hshifts
    split
    · exact (hshifts.note rfl).startAccept hdrive _ _
    · exact (keptByRecoveries hdrive).maybeStartDependencyRecovery (hshifts.updateInstance _ _
        (by exact fun _ ↦ ⟨rfl, rfl, rfl, rfl⟩)) _

/-- An answer to a TryPreAccept counts for the attempt it belongs to. -/
theorem handleTryPreAcceptResp (msg : Message) :
    Shifts scope n (m.handleTryPreAcceptResp drive msg).1 := by
  unfold RawNode.handleTryPreAcceptResp
  split
  · exact hshifts
  dsimp only
  split
  · exact hshifts
  split
  · exact hshifts.tryRejected hdrive _ _
  split
  · exact hshifts
  split
  · exact hshifts
  split
  · exact (hshifts.updateInstance _ _
      (by exact fun _ ↦ ⟨rfl, rfl, rfl, rfl⟩)).startAccept hdrive _ _
  · exact hshifts.updateInstance _ _ (by exact fun _ ↦ ⟨rfl, rfl, rfl, rfl⟩)

end

end Drive

end Shifts

end RawNode

end MoreConsensus
