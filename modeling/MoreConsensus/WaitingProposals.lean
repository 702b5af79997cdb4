import MoreConsensus.Shifts.Start

/-!
# Proposals that wait for their processing time

A TOQ proposal is resident at its owner before the owner votes for it: it has a value, no status,
and the owner's initial ballot. A restart resumes the records one by one, which may drive execution
and recover missing dependencies. `Waits` says that none of this touches a proposal that waits: its
owner is still in the PreAccept phase, so its recovery counts as running.
-/

set_option autoImplicit false

namespace MoreConsensus

open Library

namespace RawNode

/-! ### Operations that leave the instances alone -/

/-- A node with the identity and the instances of another one. -/
structure Still (n m : RawNode) : Prop where
  id : m.id = n.id
  instances : m.instances = n.instances

namespace Still

variable {n m : RawNode}

theorem trans {m' : RawNode} (hfirst : Still n m) (hsecond : Still m m') : Still n m' :=
  ⟨hsecond.id.trans hfirst.id, hsecond.instances.trans hfirst.instances⟩

theorem of_frame {g : Frame} (hframe : m.frame = g) (hid : g.id = n.id)
    (hindex : g.index = n.index) : Still n m := by
  subst hframe
  exact ⟨hid, congrArg Index.instances hindex⟩

theorem modifyReady (n : RawNode) (f : Ready → Ready) : Still n (n.modifyReady f) := by
  unfold RawNode.modifyReady
  split_ifs <;> exact ⟨rfl, rfl⟩

theorem deferRecordLoadWith (n : RawNode) (ref : InstanceRef) (message : Option Message)
    (required : Bool) : Still n (n.deferRecordLoadWith ref message required).1 := by
  have hasked : Still n (n.requestRecordLoad ref) := by
    unfold RawNode.requestRecordLoad
    split_ifs
    · exact ⟨rfl, rfl⟩
    · exact trans (m := { n with pendingRecordLoads := n.pendingRecordLoads.insert ref {} })
        ⟨rfl, rfl⟩ (modifyReady ..)
  unfold RawNode.deferRecordLoadWith
  dsimp only
  split_ifs
  · exact ⟨rfl, rfl⟩
  all_goals
    split
    · exact ⟨hasked.id, hasked.instances⟩
    · exact ⟨hasked.id, hasked.instances⟩

theorem updateRecordLoad (n : RawNode) (ref : InstanceRef) (f : RecordLoadWait → RecordLoadWait) :
    Still n (n.updateRecordLoad ref f) := by
  unfold RawNode.updateRecordLoad
  split <;> exact ⟨rfl, rfl⟩

theorem enqueueRecord (n : RawNode) (rec : InstanceRecord) : Still n (n.enqueueRecord rec) := by
  unfold RawNode.enqueueRecord
  split_ifs
  · exact (deferRecordLoadWith n rec.ref none true).trans (updateRecordLoad ..)
  · exact modifyReady ..

theorem sendAll (n : RawNode) (conf : ConfID) (message : ReplicaID → Message) :
    Still n (n.sendAll conf message) := by
  have hfold : ∀ (targets : List ReplicaID) (node : RawNode), Still node
      (targets.foldl (fun node target ↦ node.enqueueMessage (message target)) node) := by
    intro targets
    induction targets with
    | nil => exact fun node ↦ ⟨rfl, rfl⟩
    | cons target rest ih =>
      intro node
      have hsent : Still node (node.enqueueMessage (message target)) := by
        unfold RawNode.enqueueMessage
        exact modifyReady node _
      exact hsent.trans (ih _)
  exact hfold _ n

theorem broadcast (n : RawNode) (type : MessageType) (ref : InstanceRef) :
    Still n (n.broadcast type ref) := by
  unfold RawNode.broadcast
  split
  · exact (deferRecordLoadWith n ref none true).trans (updateRecordLoad ..)
  · exact sendAll ..

theorem applyMembershipControl (n : RawNode) (ref : InstanceRef) (control : Bytes) :
    Still n (n.applyMembershipControl ref control).1 := by
  unfold RawNode.applyMembershipControl
  split
  · exact ⟨rfl, rfl⟩
  · exact ⟨rfl, rfl⟩
  · split_ifs <;> exact ⟨rfl, rfl⟩
  next plan successor _ =>
  extract_lets conf clash changed membership entered switched queued
  split
  · exact ⟨rfl, rfl⟩
  split
  · exact ⟨rfl, rfl⟩
  · have hswitched : Still n switched :=
      of_frame (frame_enterSuccessor entered ref successor true) rfl rfl
    have hqueued : Still switched queued := by
      unfold queued
      exact modifyReady switched _
    exact hswitched.trans hqueued

end Still

/-! ### Proposals that wait while a node restarts -/

theorem toqPending_ensureRecordDeps (n : RawNode) (rec : InstanceRecord) :
    (n.ensureRecordDeps rec).toqPending = rec.toqPending := by
  unfold ensureRecordDeps
  dsimp only
  split_ifs <;> rfl

theorem toqPending_acceptPhaseRecord (n : RawNode) (rec : InstanceRecord) (attrs : Attributes) :
    (n.acceptPhaseRecord rec attrs).toqPending = false := by
  have hmerged : ∀ (rec : InstanceRecord) (attrs : Attributes),
      (mergeAcceptEvidence rec attrs).toqPending = rec.toqPending := by
    intro rec attrs
    unfold mergeAcceptEvidence
    split_ifs <;> rfl
  have hown : ∀ (rec : InstanceRecord) (sender : ReplicaID) (attrs : Attributes),
      (mergeOwnAcceptEvidence rec sender attrs).toqPending = rec.toqPending := by
    intro rec sender attrs
    unfold mergeOwnAcceptEvidence
    split_ifs <;> rfl
  unfold acceptPhaseRecord
  rw [hown, hmerged, toqPending_ensureRecordDeps]

theorem toqPending_valueOfNone {n : RawNode} {rec value : InstanceRecord}
    (hvalue : n.valueOfNone rec = some value) : value.toqPending = false := by
  unfold valueOfNone at hvalue
  dsimp only at hvalue
  split at hvalue
  · obtain ⟨payload, -, rfl⟩ := Option.map_eq_some_iff.mp hvalue
    rfl
  · rw [← Option.some.inj hvalue]

/-- The owner of an instance is in the PreAccept phase, at its initial ballot. -/
structure Awaits (id : ReplicaID) (inst : Instance) : Prop where
  phase : inst.phase = .preAccept
  owner : inst.record.ref.replica = id
  ballot : inst.record.ballot = { replica := id }

/-- Every proposal that waits for its processing time is one of this node's own, and untouched. -/
structure Waits (id : ReplicaID) (n : RawNode) : Prop where
  node : n.id = id
  awaits : ∀ ref inst, n.instances.get? ref = some inst → inst.record.toqPending = true →
    Awaits id inst

namespace Waits

variable {id : ReplicaID} {n m : RawNode} {ref : InstanceRef}

section

variable (hn : n.Waits id)

include hn

theorem still (hstill : Still n m) : m.Waits id := by
  refine ⟨hstill.id.trans hn.node, fun ref inst hget hpending ↦ ?_⟩
  rw [hstill.instances] at hget
  exact hn.awaits ref inst hget hpending

/-- A change of an instance that keeps a waiting proposal as it is. -/
theorem updateInstance {f : Instance → Instance}
    (hf : ∀ inst, n.instances.get? ref = some inst → (f inst).record.toqPending = true →
      Awaits id (f inst)) : (n.updateInstance ref f).Waits id := by
  refine ⟨?_, fun other inst hget hpending ↦ ?_⟩
  · unfold RawNode.updateInstance
    split <;> exact hn.node
  · rw [get?_updateInstance] at hget
    split_ifs at hget with hother
    · obtain ⟨old, hold, rfl⟩ := Option.map_eq_some_iff.mp hget
      exact hf old hold hpending
    · exact hn.awaits other inst hget hpending

/-- A change of what a coordinator keeps of an instance. -/
theorem pace (ref : InstanceRef) {f : Instance → Instance}
    (hrecord : ∀ inst, (f inst).record = inst.record)
    (hphase : ∀ inst, (f inst).phase = inst.phase) :
    (n.updateInstance ref f).Waits id := by
  refine hn.updateInstance fun inst hget hpending ↦ ?_
  rw [hrecord] at hpending
  have hinst := hn.awaits ref inst hget hpending
  exact ⟨(hphase inst).trans hinst.phase, by rw [hrecord, hinst.owner],
    by rw [hrecord, hinst.ballot]⟩

theorem setInstance {f : Instance → Instance}
    (hf : ∀ inst, n.instances.get? ref = some inst → (f inst).record.toqPending = true →
      Awaits id (f inst)) : (n.setInstance ref f).Waits id := by
  rw [setInstance_eq]
  have hset := hn.updateInstance hf
  exact ⟨hset.node, hset.awaits⟩

/-- An instance that is installed is not a waiting proposal, or one of the node's own. -/
theorem installInstance {inst : Instance}
    (hinst : inst.record.toqPending = true → Awaits id inst.settled) :
    (n.installInstance inst).Waits id := by
  have hframe := Shifts.frame_installInstance_plane n inst
  have hindex := Shifts.index_installInstance n inst
  refine ⟨(congrArg Frame.id hframe).trans hn.node, fun other found hget hpending ↦ ?_⟩
  have hfound : (n.index.install inst).instances.get? other = some found := hindex ▸ hget
  rw [show (n.index.install inst).instances =
    n.instances.insert inst.record.ref inst.settled from rfl,
    FiniteMap.get?_insert] at hfound
  split_ifs at hfound
  · rw [← Option.some.inj hfound] at hpending ⊢
    refine hinst ?_
    rw [← hpending]
    unfold Instance.settled
    split_ifs <;> rfl
  · exact hn.awaits other found hfound hpending

theorem dropInstance (ref : InstanceRef) : (n.dropInstance ref).Waits id := by
  refine ⟨hn.node, fun other inst hget hpending ↦ ?_⟩
  have hkept : (n.instances.erase ref).get? other = some inst := hget
  rw [FiniteMap.get?_erase] at hkept
  split_ifs at hkept
  exact hn.awaits other inst hkept hpending

theorem schedule (ref : InstanceRef) (kind : TimerKind) (after : ℕ) :
    (n.schedule ref kind after).1.Waits id :=
  hn.still (.of_frame (Shifts.frame_schedule ..) rfl rfl)

theorem scheduleRecovery (ref : InstanceRef) :
    (n.scheduleRecovery ref).1.Waits id := by
  unfold RawNode.scheduleRecovery
  split
  · exact hn
  split
  · exact hn
  split
  · exact hn
  · exact (hn.schedule ref _ _).pace ref (by exact fun _ ↦ rfl) (by exact fun _ ↦ rfl)

end

section Drive

variable {drive : RawNode → RawNode}
  (hdrive : ∀ node : RawNode, node.Waits id → (drive node).Waits id)

include hdrive

section

variable (hn : n.Waits id)

include hn

/-- A commit ends the wait of no other instance. -/
theorem commit (ref : InstanceRef) (attrs : Attributes) :
    (n.commit drive ref attrs).Waits id := by
  unfold RawNode.commit
  split
  · exact hn
  next inst hget =>
  split
  · exact hn
  extract_lets next set queued
  have hcleared : (n.clearPending ref).Waits id := ⟨hn.node, hn.awaits⟩
  have hset : set.Waits id := hcleared.setInstance fun _ _ hpending ↦
    absurd hpending (by simp [next, committedRecord])
  have hqueued : queued.Waits id :=
    ((hset.still (.of_frame (Shifts.frame_noteCommitted ..) rfl rfl)).still
      (Still.enqueueRecord ..)).still (Still.broadcast ..)
  exact hdrive _ (hqueued.pace ref (fun _ ↦ rfl) fun _ ↦ rfl)

theorem startAccept (ref : InstanceRef) (attrs : Attributes) :
    (n.startAccept drive ref attrs).Waits id := by
  unfold RawNode.startAccept
  split
  · exact hn
  next inst hget =>
  split
  · exact hn
  extract_lets cleared next set queued
  have hcleared : cleared.Waits id := ⟨hn.node, hn.awaits⟩
  have hset : set.Waits id := hcleared.setInstance fun _ _ hpending ↦
    absurd hpending (by simp [next, toqPending_acceptPhaseRecord])
  have hqueued : queued.Waits id := hset.still (Still.enqueueRecord ..)
  split
  · exact hqueued.commit hdrive ref attrs
  · exact (hqueued.still (Still.broadcast ..)).schedule ref _ _

/-- A recovery starts for an instance that does not wait for its processing time. -/
theorem startPrepareFrom (base : Ballot)
    (hidle : ∀ inst, n.instances.get? ref = some inst → inst.record.toqPending = false) :
    (n.startPrepareFrom drive ref base).1.Waits id := by
  unfold RawNode.startPrepareFrom
  split
  · exact hn
  next inst hget =>
  extract_lets least cleared padded conf
  split
  · exact hn
  next ballot hballot =>
  split
  · exact hn
  extract_lets promised set
  have hcleared : cleared.Waits id := ⟨hn.node, hn.awaits⟩
  have hpromised : promised.toqPending = false :=
    (toqPending_ensureRecordDeps ..).trans (hidle inst hget)
  have hset : ∀ votes generation, (set votes generation).Waits id := fun votes generation ↦
    hcleared.updateInstance fun _ _ hpending ↦ absurd hpending (by simp [hpromised])
  split
  · exact hset _ _
  next votes _ =>
  extract_lets queued noted
  have hqueued : queued.Waits id := (hset _ _).still (Still.enqueueRecord ..)
  split
  · split
    · exact ⟨hqueued.node, hqueued.awaits⟩
    · next value hvalue =>
      have hnoted : noted.Waits id := ⟨hqueued.node, hqueued.awaits⟩
      refine startAccept hdrive (hnoted.setInstance fun _ _ hpending ↦ ?_) ref _
      exact absurd hpending (by simp [toqPending_valueOfNone hvalue])
  · exact (hqueued.still (Still.sendAll ..)).schedule ref _ _

/-- Recoveries leave proposals that wait for their processing time to their owner. -/
theorem ensureDependencyRecovery (ref : InstanceRef) (mayStart : Bool) :
    (n.ensureDependencyRecovery drive ref mayStart).1.Waits id := by
  unfold RawNode.ensureDependencyRecovery
  extract_lets inst committed running blank blanked
  split
  · exact hn
  split
  · exact hn
  next hrunning =>
  split
  · exact hn
  split
  · exact hn
  split
  · exact hn.scheduleRecovery ref
  have hidle : ∀ found, n.instances.get? ref = some found → found.record.toqPending = false := by
    intro found hfound
    by_contra hpending
    have hwaits := hn.awaits ref found hfound (by simpa using hpending)
    refine hrunning ?_
    simp [running, inst, hfound, coordinatesInstance, hwaits.owner, hwaits.phase, hn.node]
  have hblanked : blanked.Waits id ∧
      ∀ found, blanked.instances.get? ref = some found → found.record.toqPending = false := by
    unfold blanked
    split_ifs
    · exact ⟨hn, hidle⟩
    · refine ⟨hn.installInstance fun hpending ↦
        absurd hpending (by simp [blank]), fun found hfound ↦ ?_⟩
      have hindex := Shifts.index_installInstance n { record := blank }
      have hnew : (n.index.install { record := blank }).instances.get? ref = some found :=
        hindex ▸ hfound
      rw [show (n.index.install { record := blank }).instances =
        n.instances.insert ref (Instance.settled { record := blank }) from rfl,
        FiniteMap.get?_insert_self] at hnew
      rw [← Option.some.inj hnew]
      rfl
  have hstart := hblanked.1.startPrepareFrom hdrive
    ((blanked.record? ref).elim {} InstanceRecord.ballot) hblanked.2
  change (blanked.startPrepare drive ref).1.Waits id at hstart
  split
  · next res hres =>
    rw [hres] at hstart
    exact hstart.still (.of_frame (Shifts.frame_observeInstanceRef ..) rfl rfl)
  · next res err hres =>
    rw [hres] at hstart
    split_ifs
    · exact hstart
    · have hdropped := hstart.dropInstance ref
      exact ⟨hdropped.node, hdropped.awaits⟩

end

end Drive

theorem executeMember (hn : n.Waits id) (component : List InstanceRef) (ref : InstanceRef) :
    (executeMember component n ref).Waits id := by
  unfold RawNode.executeMember
  split
  · exact hn
  next inst hget =>
  split
  · exact hn
  extract_lets held marked committed record executed
  have hmarked : marked.Waits id := ⟨hn.node, hn.awaits⟩
  have hset : ∀ {node : RawNode} {rec : InstanceRecord}, Still marked node →
      rec.toqPending = inst.record.toqPending → rec.ref = inst.record.ref →
      rec.ballot = inst.record.ballot → (node.setInstanceRecord ref rec).Waits id := by
    intro node rec hstill hpending href hballot
    refine (hmarked.still hstill).setInstance fun found hfound hrec ↦ ?_
    rw [hstill.instances] at hfound
    obtain rfl := Option.some.inj (hget.symm.trans hfound)
    have hwaits := hn.awaits ref inst hget (hpending ▸ hrec)
    exact ⟨hwaits.phase, href ▸ hwaits.owner, hballot ▸ hwaits.ballot⟩
  refine pace (n := executed) ?_ ref (fun _ ↦ rfl) fun _ ↦ rfl
  have hplain : (marked.setInstanceRecord ref record).Waits id := hset ⟨rfl, rfl⟩ rfl rfl rfl
  unfold executed
  split
  · exact hplain.still (Still.modifyReady ..)
  · obtain ⟨-, configs, hframe⟩ := marked.frame_applyConfChange ref record.confChange
    exact still (hset (.of_frame hframe rfl rfl) (by exact rfl) (by exact rfl) (by exact rfl))
      (Still.enqueueRecord ..)
  · exact still (hset (Still.applyMembershipControl marked ref record.protocolControl)
      (by exact rfl) (by exact rfl) (by exact rfl)) (Still.enqueueRecord ..)
  · exact hplain.still (Still.enqueueRecord ..)
  · exact hplain.still (Still.enqueueRecord ..)
  · exact hmarked

theorem beginCheckpoint (hn : n.Waits id) (barrier : InstanceRecord) :
    (n.beginCheckpoint barrier).Waits id := by
  unfold RawNode.beginCheckpoint
  dsimp only
  split
  · exact hn
  · refine Waits.still ?_ (Still.modifyReady _ _)
    exact ⟨hn.node, hn.awaits⟩

/-- Executions leave proposals that wait alone. -/
theorem runExecution (hn : n.Waits id) : n.runExecution.Waits id :=
  tryExecute_keeps (fun _ hdrive ↦
    { budget := fun _ _ _ hnode ↦ ⟨hnode.node, hnode.awaits⟩
      recover := fun _ ref mayStart hnode ↦ hnode.ensureDependencyRecovery hdrive ref mayStart
      execute := fun _ component ref hnode ↦ hnode.executeMember component ref
      barrier := fun _ barrier hnode ↦ hnode.beginCheckpoint barrier }) _ hn

end Waits

end RawNode

end MoreConsensus
