import MoreConsensus.Shifts.Execution
import MoreConsensus.Voting

/-!
# The voting handlers as shifts
-/

set_option autoImplicit false

namespace MoreConsensus

open Library

namespace RawNode

namespace Shifts

variable {scope : Scope} {n m : RawNode} {ref : InstanceRef}

/-! ### PreAccept -/

section

variable (hshifts : Shifts scope n m)

include hshifts

/-- A computation of attributes only adds to the journal which conflicts it skipped. -/
theorem noteSkips (cmd : Command) (ref : InstanceRef) (processAt : ℕ)
    (timed : Bool) : Shifts scope n (m.noteSkips cmd ref processAt timed) :=
  hshifts.foldl (fun _ hnode ↦ hnode.note rfl) _

theorem sendReject (type : MessageType) (target : ReplicaID)
    (ref : InstanceRef) (hint : Ballot) : Shifts scope n (m.sendReject type target ref hint) :=
  hshifts.enqueueMessage _

/-- A vote takes the place of what waited for the instance, and is stored before it is sent. -/
theorem installVote {rec : InstanceRecord} (hstatus : rec.status ≠ .executed)
    (processAt : ℕ) (resp : Message) : Shifts scope n (m.installVote rec processAt resp).1 := by
  have hinstalled : ∀ generation : ℕ, Shifts scope n
      (((((m.removeDeferredPreAccepts rec.ref).observeInstanceRef rec.ref).installInstance
        { record := rec, processAt := processAt, generation := generation }).enqueueRecord
          rec).markPendingConf rec) := fun generation ↦
    ((((hshifts.removeDeferredPreAccepts rec.ref).observeInstanceRef
      rec.ref).installInstance hstatus (by exact .of_empty rfl rfl rfl) rfl).enqueueRecord
      rec).markPendingConf rec
  unfold RawNode.installVote
  dsimp only
  have hscheduled := (hinstalled ((m.instances.get? rec.ref).elim 0 fun old ↦
    old.generation + 1)).scheduleRecovery rec.ref
  split
  · next res err hres =>
    rw [hres] at hscheduled
    exact hscheduled
  · next res hres =>
    rw [hres] at hscheduled
    exact hscheduled.enqueueMessage resp

/-- A node that votes for a PreAccept installs a record that is not executed. -/
theorem votePreAccept (msg : Message) (ordered : Bool) :
    Shifts scope n (m.votePreAccept msg ordered).1 := by
  unfold RawNode.votePreAccept
  dsimp only
  split
  · exact hshifts.enqueueMessage _
  · exact (hshifts.noteSkips _ _ _ _).installVote (by simp [preAcceptRecord]) _ _

/-- A PreAccept is refused, answered from the record at hand, or voted for. -/
theorem handlePreAccept (msg : Message) (ordered : Bool) :
    Shifts scope n (m.handlePreAccept msg ordered).1 := by
  unfold RawNode.handlePreAccept
  split
  · exact hshifts.votePreAccept msg ordered
  split
  · split
    · next deferred hdeferred => exact hshifts.requirePayload hdeferred
    · split
      · exact hshifts
      · exact hshifts.sendCommitTo _ _
  split
  · exact hshifts.sendReject _ _ _ _
  split
  · exact hshifts
  split
  · split
    · exact hshifts.enqueueMessage _
    · exact hshifts
  split
  · exact hshifts.enqueueMessage _
  · exact hshifts.votePreAccept msg ordered

end

/-! ### Accept -/

@[simp] theorem status_mergeAcceptEvidence (rec : InstanceRecord) (attrs : Attributes) :
    (mergeAcceptEvidence rec attrs).status = rec.status := by
  unfold mergeAcceptEvidence
  split_ifs <;> rfl

@[simp] theorem status_mergeSenderAcceptEvidence (rec : InstanceRecord)
    (evidence : List AcceptEvidence) :
    (mergeSenderAcceptEvidence rec evidence).status = rec.status := rfl

@[simp] theorem status_keepTiming (rec : InstanceRecord) (old : Option InstanceRecord) :
    (RawNode.keepTiming rec old).status = rec.status := by
  cases old with
  | none => rfl
  | some old =>
    unfold RawNode.keepTiming
    dsimp only
    split_ifs <;> rfl

@[simp] theorem status_mergeOwnAcceptEvidence (rec : InstanceRecord) (sender : ReplicaID)
    (attrs : Attributes) : (mergeOwnAcceptEvidence rec sender attrs).status = rec.status := by
  unfold mergeOwnAcceptEvidence
  split_ifs <;> rfl

/-- The record of an accepted value is accepted, whatever was known before. -/
theorem status_acceptRecord (n : RawNode) (msg : Message) (old : Option InstanceRecord) :
    (n.acceptRecord msg old).status = .accepted := by
  simp [acceptRecord]

/-- The record of a Commit is committed: what is kept of the old one is timing and evidence. -/
theorem status_commitRecord (msg : Message) (old : Option InstanceRecord) :
    (commitRecord msg old).status = .committed := by
  unfold commitRecord
  extract_lets received committed raised kept same merged
  have hraised : raised.status = .committed := by
    unfold raised
    split
    · split_ifs <;> rfl
    · rfl
  have hmerged : merged.status = .committed := by
    rw [status_mergeSenderAcceptEvidence, status_keepTiming, hraised]
  split
  · exact hmerged
  · rw [status_mergeAcceptEvidence, hmerged]

/-- An Accept is refused, waits for a payload, or replaces the record. -/
theorem handleAccept (hshifts : Shifts scope n m) (msg : Message) :
    Shifts scope n (m.handleAccept msg).1 := by
  unfold RawNode.handleAccept
  dsimp only
  split
  · exact hshifts.installVote (by simp [status_acceptRecord]) _ _
  split
  · split
    · next deferred hdeferred => exact hshifts.requirePayload hdeferred
    · split
      · exact hshifts
      · exact hshifts.sendCommitTo _ _
  split
  · exact hshifts.sendReject _ _ _ _
  split
  · split
    · exact hshifts.enqueueMessage _
    · exact hshifts
  split
  · exact hshifts
  · exact hshifts.installVote (by simp [status_acceptRecord]) _ _

section Drive

variable {drive : RawNode → RawNode} (hdrive : ∀ node, Shifts scope node (drive node))

include hdrive

/-! ### Answers -/

section

variable (hshifts : Shifts scope n m)

include hshifts

/-- A quorum of votes commits an instance or takes it to the Accept phase. -/
theorem maybeFinalizePreAccept (ref : InstanceRef) :
    Shifts scope n (m.maybeFinalizePreAccept drive ref) := by
  unfold RawNode.maybeFinalizePreAccept
  split
  · exact hshifts
  split
  · exact hshifts
  dsimp only
  split
  · exact Shifts.commit hdrive (hshifts.note rfl) ref _
  split
  · exact hshifts
  split
  · exact hshifts.startAccept hdrive ref _
  split
  · exact (hshifts.updateInstance ref _ (by exact fun _ ↦ ⟨rfl, rfl, rfl, rfl⟩)).schedule ref _ _
  · exact hshifts

/-- A vote is counted for the ballot and the phase it is for, and may finish the phase. -/
theorem handlePreAcceptResp (msg : Message) :
    Shifts scope n (m.handlePreAcceptResp drive msg).1 := by
  unfold RawNode.handlePreAcceptResp
  split
  · exact hshifts
  dsimp only
  split
  · exact hshifts
  split
  · split
    · exact hshifts.startPrepareFrom hdrive _ _
    · exact hshifts
  split
  · exact hshifts
  split
  · exact hshifts
  split
  · exact hshifts
  · exact (hshifts.updateInstance _ _
      (by exact fun _ ↦ ⟨rfl, rfl, rfl, rfl⟩)).maybeFinalizePreAccept hdrive _

/-- A proposal whose processing time has come is its owner's first vote. -/
theorem handleLocalTOQPreAccept (msg : Message) :
    Shifts scope n (m.handleLocalTOQPreAccept drive msg) := by
  unfold RawNode.handleLocalTOQPreAccept
  split
  · exact hshifts
  next inst hget =>
  split
  · exact hshifts
  extract_lets record conf ordering attrs noted next set added
  have hset : Shifts scope n set := (hshifts.noteSkips _ _ _ _).setInstance _ _
      (fun _ _ hpayload ↦ hpayload) fun hn hm found hfound ↦
    (hm _ found hfound).of_record (hshifts.keyed hn _ inst hget).record rfl rfl
  clear_value added set
  cases added with
  | none => exact hset
  | some votes =>
    dsimp only
    split
    · exact Shifts.commit hdrive ((hset.updateInstance _ _
        (by exact fun _ ↦ ⟨rfl, rfl, rfl, rfl⟩)).enqueueRecord _) _ _
    · exact ((hset.updateInstance _ _
        (by exact fun _ ↦ ⟨rfl, rfl, rfl, rfl⟩)).enqueueRecord _).maybeFinalizePreAccept hdrive _

/-- An acceptance is counted, and a slow quorum of them commits. -/
theorem handleAcceptResp (msg : Message) :
    Shifts scope n (m.handleAcceptResp drive msg).1 := by
  unfold RawNode.handleAcceptResp
  split
  · exact hshifts
  next inst hget =>
  extract_lets conf next
  split
  · exact hshifts
  split
  · split
    · exact hshifts.startPrepareFrom hdrive _ _
    · exact hshifts
  split
  · exact hshifts
  split
  · exact hshifts
  extract_lets counted recorded
  have hnext : ConflictEngine.Alike next inst.record :=
    let hmerged := alike_mergeAcceptEvidence (.refl inst.record) (acceptEvidenceFromMessage msg)
    ⟨hmerged.facts, hmerged.footprint⟩
  have hcounted : Shifts scope n counted := by
    refine hshifts.amend msg.ref _ (fun _ ↦ ⟨rfl, rfl, rfl, rfl⟩)
      (fun hn ↦ ?_) fun found hfound ↦ ?_
    · exact (ref_mergeAcceptEvidence ..).trans (hshifts.keyed hn _ inst hget).record
    · rw [hget] at hfound
      rw [← Option.some.inj hfound]
      exact hnext
  have hrecorded : Shifts scope n recorded := by
    unfold recorded
    split
    · exact hcounted
    · exact hcounted.enqueueRecord _
  split
  · exact Shifts.commit hdrive (hrecorded.note rfl) _ _
  · exact hrecorded

end

/-! ### Commit -/

/-- A Commit takes the place of the record, unless that is committed already. -/
theorem handleCommit (hshifts : Shifts scope n m) (msg : Message) :
    Shifts scope n (m.handleCommit drive msg).1 := by
  unfold RawNode.handleCommit
  dsimp only
  split
  · exact hshifts
  split
  · exact hshifts
  split
  · exact hshifts.removeDeferredPreAccepts msg.ref
  · exact (((((hshifts.removeDeferredPreAccepts msg.ref).observeInstanceRef
      _).installInstance (by simp [status_commitRecord])
        (by exact .of_empty rfl rfl rfl) rfl).enqueueRecord _).markPendingConf _).trans
      (hdrive _)

end Drive

end Shifts

end RawNode

end MoreConsensus
