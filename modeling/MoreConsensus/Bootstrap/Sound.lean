import MoreConsensus.Bootstrap.Acknowledgements
import MoreConsensus.Bootstrap.Messages

/-!
# Sound plans

What a node keeps of a plan it has checked: the plan itself is valid, and so are its certificates
and what it has collected for them (`BootstrapState.Sound`). A reachable node has only such plans
(`Reachable.sound`).

Votes for a snapshot are not counted here. A slow quorum of them without one of the source is kept
and never certified, so their number has no bound short of the number of voters.
-/

set_option autoImplicit false

namespace MoreConsensus.Bootstrap

open Library

/-- The state of a plan is consistent. -/
structure BootstrapState.Sound (codec : Codec) (state : BootstrapState) : Prop where
  plan : validateVoterPlan codec.domainDigest state.record.plan = .ok ()
  fences : ∀ sender fence, state.fenceAcks.get? sender = some fence →
    fence.voter.replica = sender ∧ FenceFor codec.domainDigest state.record.plan fence
  snapshots : state.record.snapshotCertificate.digest = 0 →
    state.snapshotVotes.Sound state.record.plan
  certified : state.record.snapshotCertificate.digest ≠ 0 →
    validateSnapshotCertificate codec.domainDigest state.record.plan
      state.record.snapshotCertificate = .ok ()
  target : state.record.targetReady.plan ≠ 0 →
    state.record.targetReady.plan = state.record.plan.request.plan ∧
      state.record.snapshotCertificate.digest ≠ 0 ∧
      validateVoterReadyProof state.record.plan state.record.snapshotCertificate
        state.record.targetReady.proof = .ok ()
  readies : state.record.readyCertificate.digest = 0 →
    state.readyVotes.Sound state.record.plan ∧
      (state.readyVotes.digest ≠ 0 → state.record.targetReady.plan ≠ 0 ∧ state.readyVotes.digest =
        digestVoterReadyProof codec.domainDigest state.record.targetReady.proof) ∧
      state.readyVotes.votes.entries.length <
        slowQuorumSize state.record.plan.request.base.voters.length
  ready : state.record.readyCertificate.digest ≠ 0 →
    state.record.targetReady.plan ≠ 0 ∧
      validateReadyCertificate codec.domainDigest state.record.plan
        state.record.snapshotCertificate state.record.readyCertificate = .ok ()

/-- Every plan that is kept is kept under its own name and is consistent. -/
def PlansSound (codec : Codec) (plans : FiniteMap BootstrapID BootstrapState) : Prop :=
  ∀ id state, plans.get? id = some state →
    id = state.record.plan.request.plan ∧ state.Sound codec

/-- The plans of a node are consistent. -/
def VoterNode.Sound (node : VoterNode) : Prop := PlansSound node.codec node.plans

section Plans

variable {codec : Codec} {plans : FiniteMap BootstrapID BootstrapState} {state : BootstrapState}

theorem PlansSound.insert (hplans : PlansSound codec plans) (hstate : state.Sound codec) :
    PlansSound codec (plans.insert state.record.plan.request.plan state) := by
  intro id other hother
  rw [FiniteMap.get?_insert] at hother
  split at hother
  · obtain rfl := Option.some.inj hother
    exact ⟨by assumption, hstate⟩
  · exact hplans id other hother

theorem PlansSound.erase (hplans : PlansSound codec plans) (id : BootstrapID) :
    PlansSound codec (plans.erase id) := by
  intro other state hstate
  rw [FiniteMap.get?_erase] at hstate
  split at hstate
  · cases hstate
  · exact hplans other state hstate

end Plans

/-! ### Changes of a plan that keep it consistent -/

namespace BootstrapState.Sound

variable {codec : Codec} {state : BootstrapState} {record : BootstrapRecord}

/-- A valid plan of which nothing else is known. -/
theorem fresh {plan : VoterPlan} (hplan : validateVoterPlan codec.domainDigest plan = .ok ())
    (phase : BootstrapPhase) :
    BootstrapState.Sound codec { record := { plan := plan, phase := phase } } where
  plan := hplan
  fences _ _ hfence := nomatch hfence
  snapshots _ _ _ hack := nomatch hack
  certified hne := absurd rfl hne
  target hne := absurd rfl hne
  readies _ := ⟨fun _ _ hack ↦ (nomatch hack), fun hne ↦ absurd rfl hne, Nat.succ_pos _⟩
  ready hne := absurd rfl hne

/-- Only the plan, the certificates and the votes matter. -/
theorem of_record (hstate : state.Sound codec) (hplan : record.plan = state.record.plan)
    (hsnapshot : record.snapshotCertificate = state.record.snapshotCertificate)
    (htarget : record.targetReady = state.record.targetReady)
    (hready : record.readyCertificate = state.record.readyCertificate) :
    { state with record := record }.Sound codec := by
  obtain ⟨hp, hf, hs, hc, ht, hr, hv⟩ := hstate
  rw [← hplan] at hp hf hs hc ht hr hv
  rw [← hsnapshot] at hs hc ht hv
  rw [← htarget] at ht hr hv
  rw [← hready] at hr hv
  exact ⟨hp, hf, hs, hc, ht, hr, hv⟩

/-- A plan without a snapshot certificate has no target, and no ready certificate. -/
theorem not_ready (hstate : state.Sound codec)
    (hnone : state.record.snapshotCertificate.digest = 0) :
    state.record.targetReady.plan = 0 ∧ state.record.readyCertificate.digest = 0 := by
  have htarget : state.record.targetReady.plan = 0 := by
    by_contra hne
    exact (hstate.target hne).2.1 hnone
  exact ⟨htarget, by_contra fun hne ↦ (hstate.ready hne).1 htarget⟩

/-- The first snapshot certificate. -/
theorem certify (hstate : state.Sound codec)
    (hnone : state.record.snapshotCertificate.digest = 0) {snapshot : SnapshotCertificate}
    (hvalid : validateSnapshotCertificate codec.domainDigest state.record.plan snapshot = .ok ())
    (phase : BootstrapPhase) (votes : Votes) :
    { state with
      record := { state.record with phase := phase, snapshotCertificate := snapshot }
      snapshotVotes := votes }.Sound codec where
  plan := hstate.plan
  fences := hstate.fences
  snapshots hzero := absurd hzero (codec.snapshot_digest_ne_zero hvalid)
  certified _ := hvalid
  target hne := absurd (hstate.not_ready hnone).1 hne
  readies := hstate.readies
  ready hne := absurd (hstate.not_ready hnone).2 hne

/-- The proof of the target is recorded. -/
theorem reach (hstate : state.Sound codec) (hnone : state.record.targetReady.plan = 0)
    {proof : VoterReadyProof} (hsnapshot : state.record.snapshotCertificate.digest ≠ 0)
    (hproof : validateVoterReadyProof state.record.plan state.record.snapshotCertificate proof =
      .ok ()) (phase : BootstrapPhase) :
    { state with
      record := { state.record with
        phase := phase
        targetReady := ⟨state.record.plan.request.plan, proof⟩ } }.Sound codec where
  plan := hstate.plan
  fences := hstate.fences
  snapshots := hstate.snapshots
  certified := hstate.certified
  target _ := ⟨rfl, hsnapshot, hproof⟩
  readies hzero :=
    have hreadies := hstate.readies hzero
    ⟨hreadies.1, fun hne ↦ absurd hnone (hreadies.2.1 hne).1, hreadies.2.2⟩
  ready hne := absurd hnone (hstate.ready hne).1

/-- All certificates are set. -/
theorem finalize (hstate : state.Sound codec) (hid : state.record.plan.request.plan ≠ 0)
    {snapshot : SnapshotCertificate} {ready : ReadyCertificate}
    (hsnapshot : validateSnapshotCertificate codec.domainDigest state.record.plan snapshot = .ok ())
    (hready : validateReadyCertificate codec.domainDigest state.record.plan snapshot ready = .ok ())
    (hplan : record.plan = state.record.plan) (hrecord : record.snapshotCertificate = snapshot)
    (htarget : record.targetReady = ⟨state.record.plan.request.plan, ready.proof⟩)
    (hcertificate : record.readyCertificate = ready) (votes : Votes) :
    { state with record := record, readyVotes := votes }.Sound codec := by
  subst hrecord hcertificate
  obtain ⟨hproof, hne, hdigest⟩ := codec.ready_valid hready
  rw [← hplan] at hsnapshot hready hproof
  exact {
    plan := hplan ▸ hstate.plan
    fences := hplan ▸ hstate.fences
    snapshots := fun hzero ↦ absurd hzero hne
    certified := fun _ ↦ hsnapshot
    target := fun _ ↦ ⟨htarget ▸ hplan ▸ rfl, hne, htarget ▸ hproof⟩
    readies := fun hzero ↦ absurd hzero hdigest
    ready := fun _ ↦ ⟨htarget ▸ hid, hready⟩ }

/-- An acknowledgement of the target's proof is collected, and a slow quorum of them certified. -/
theorem collectReady {node : VoterNode} (hstate : state.Sound node.codec)
    (htarget : state.record.targetReady.plan ≠ 0)
    (hnone : state.record.readyCertificate.digest = 0) {sender : ReplicaID}
    {ack : VoterAcknowledgement} (hack : node.admitReadyAck state sender ack = .ok ()) :
    ∃ votes : Votes, votes.Sound state.record.plan ∧
      votes.digest = digestVoterReadyProof node.codec.domainDigest state.record.targetReady.proof ∧
      votes.senders = insert sender state.readyVotes.senders ∧
      ((votes.senders.card < slowQuorumSize state.record.plan.request.base.voters.length ∧
          node.collectReady state sender ack = (votes, .ok none)) ∨
        (votes.senders.card = slowQuorumSize state.record.plan.request.base.voters.length ∧
          ∃ certificate, node.collectReady state sender ack = (votes, .ok (some certificate)) ∧
            certificate.proof = state.record.targetReady.proof ∧
            validateReadyCertificate node.codec.domainDigest state.record.plan
              state.record.snapshotCertificate certificate = .ok ())) := by
  obtain ⟨-, hsnapshot, hproof⟩ := hstate.target htarget
  obtain ⟨hvotes, hdigest, hfew⟩ := hstate.readies hnone
  rw [← Votes.card_senders] at hfew
  simp only [VoterNode.admitReadyAck, refuseIf_eq_ok, Bool.or_eq_false_iff,
    decide_eq_false_iff_not, not_not] at hack
  obtain ⟨votes, hsound, heq, hsenders, hcollect⟩ := hvotes.collect_same
    (or_iff_not_imp_left.mpr fun hne ↦ (hdigest hne).2)
    (node.codec.digest_ne_zero _ _) hack.2 hack.1
    (buildReadyCertificate node.codec.domainDigest state.record.plan
      state.record.targetReady.proof)
  refine ⟨votes, hsound, heq, hsenders, ?_⟩
  have hcard := Finset.card_insert_le sender state.readyVotes.senders
  rw [← hsenders] at hcard
  rw [VoterNode.collectReady, hcollect]
  by_cases hquorum :
      votes.senders.card < slowQuorumSize state.record.plan.request.base.voters.length
  · exact .inl ⟨hquorum, by rw [if_neg fun h ↦ absurd h.2 (not_le.mpr hquorum)]⟩
  · have hexact : votes.senders.card =
        slowQuorumSize state.record.plan.request.base.voters.length := by omega
    have hnew : sender ∉ state.readyVotes.senders := fun hmem ↦ by
      rw [hsenders, Finset.insert_eq_of_mem hmem] at hexact
      omega
    obtain ⟨certificate, hbuild, -⟩ := hsound.buildReady hstate.plan hexact
      (hstate.certified hsnapshot) hproof heq
    refine .inr ⟨hexact, certificate, ?_, proof_of_buildReady hbuild,
      validate_buildReady hproof hbuild⟩
    rw [if_pos ⟨hnew, hexact.ge⟩, hbuild]
    rfl

end BootstrapState.Sound

theorem Codec.certificates_of_activationValid {codec : Codec} {command : MembershipCommand}
    (hvalid : codec.activationValid command = true) :
    validateSnapshotCertificate codec.domainDigest command.plan command.snapshot = .ok () ∧
      validateReadyCertificate codec.domainDigest command.plan command.snapshot command.ready =
        .ok () := by
  simp only [activationValid, Bool.and_eq_true, decide_eq_true_eq] at hvalid
  exact hvalid.1

theorem Codec.validatePart_eq_ok {present zero : Bool} {valid : Except Fault Unit} :
    validatePart present valid zero = .ok () ↔
      (present = true → valid = .ok ()) ∧ (present = false → zero = true) := by
  cases present <;> simp [validatePart, refuseIf_eq_ok]

/-- A valid record makes a consistent plan. -/
theorem Codec.sound_restoredState {codec : Codec} {record : BootstrapRecord}
    (hrecord : codec.validateBootstrapRecord record = .ok ()) :
    (codec.restoredState record).Sound codec := by
  simp only [validateBootstrapRecord, unit_bind_eq_ok, refuseIf_eq_ok, validateRecordParts,
    validatePart_eq_ok, decide_eq_true_eq, decide_eq_false_iff_not, not_not, Bool.or_eq_false_iff]
    at hrecord
  obtain ⟨hplan, -, ⟨-, -, ⟨hsnapshot, -⟩, ⟨htarget, -⟩, hready, -⟩, -⟩ := hrecord
  have hnone (plan : VoterPlan) (digest : StateDigest) : Votes.Sound plan { digest := digest } :=
    fun _ _ hack ↦ nomatch hack
  exact {
    plan := hplan
    fences := fun _ _ hfence ↦ by cases hfence
    snapshots := fun _ ↦ hnone _ _
    certified := fun hne ↦ (hsnapshot hne).1
    target := fun hne ↦
      have h := htarget hne
      ⟨h.1.1, h.1.2, h.2⟩
    readies := fun hzero ↦ ⟨hnone _ _, fun hne ↦ absurd (if_pos hzero) hne, Nat.succ_pos _⟩
    ready := fun hne ↦
      have h := hready hne
      ⟨h.1.1.2.trans_ne (valid_of_validate hplan).named, h.1.2⟩ }

/-! ### Calls keep the plans consistent -/

namespace VoterNode

variable {node : VoterNode} {plan : VoterPlan} {state : BootstrapState} {sender : ReplicaID}
  {ack : VoterAcknowledgement}

theorem planState_eq_some :
    node.planState plan = some state ↔
      node.plans.get? plan.request.plan = some state ∧ state.record.plan = plan := by
  simp [planState, Option.filter_eq_some_iff, voterPlanEqual]

/-- The parts of a new plan. -/
theorem newPlan_eq_ok {request : PrepareVoterRequest} {plan : VoterPlan} {control : Bytes}
    (hplan : node.newPlan request = .ok (plan, control)) :
    (checkedLogicalDeadline node.raw.tick node.raw.cfg.retryTicks).isSome = true ∧
      plan.request.base = node.raw.currentConf ∧ plan.reservations.prepare.replica = node.raw.id ∧
      node.raw.instances.contains plan.reservations.prepare = false ∧
      validateVoterPlan node.codec.domainDigest plan = .ok () ∧
      node.codec.encodeMembershipCommand { operation := .prepare, plan := plan } = .ok control := by
  rw [newPlan, refuseIf_bind_eq_ok, refuseIf_bind_eq_ok, bind_eq_ok] at hplan
  obtain ⟨-, htime, plan', hrequest, hrest⟩ := hplan
  rw [bind_eq_ok] at hrest
  obtain ⟨control', hencode, hrest⟩ := hrest
  rw [refuseIf_bind_eq_ok] at hrest
  obtain ⟨rfl, rfl⟩ := Prod.mk.inj (Except.ok.inj hrest.2)
  rw [validatePrepareRequest, refuseIf_bind_eq_ok, unit_bind_eq_ok, bind_eq_ok] at hrequest
  obtain ⟨hshape, -, identities, -, hrest⟩ := hrequest
  rw [refuseIf_bind_eq_ok, refuseIf_bind_eq_ok, unit_bind_eq_ok, refuseIf_bind_eq_ok,
    refuseIf_bind_eq_ok] at hrest
  obtain ⟨-, hfree, hvalid, -, -, hsame⟩ := hrest
  obtain rfl := Except.ok.inj hsame
  simp only [Bool.or_eq_false_iff, decide_eq_false_iff_not, not_not] at hshape hfree
  refine ⟨by simpa [Option.isSome_iff_ne_none] using htime, ?_, rfl, hfree.1.1, hvalid, hencode⟩
  exact (by tauto : request.base = node.raw.currentConf)

/-- A fence that is admitted is one of the plan, by its sender. -/
theorem fenceFor_of_admitFence {fence : LocalAdmissionFence}
    (hfence : node.admitFence state sender fence = .ok ()) :
    fence.voter.replica = sender ∧ FenceFor node.codec.domainDigest state.record.plan fence := by
  simp only [admitFence, refuseIf_eq_ok, Bool.or_eq_false_iff, decide_eq_false_iff_not,
    not_not] at hfence
  obtain ⟨⟨⟨⟨⟨hidentity, hvalid⟩, hplan⟩, hbase⟩, hreservations⟩, hfrontier⟩ := hfence
  obtain ⟨-, hreplica⟩ := mem_of_identityFor hidentity
  exact ⟨hreplica, hreplica ▸ hidentity, hplan, hbase, hreservations, hvalid, hfrontier⟩

/-- A vote that is admitted is by its sender, for a valid descriptor. -/
theorem attests_of_admitSnapshotVote {descriptor : SnapshotDescriptor}
    (hvote : node.admitSnapshotVote state sender descriptor ack = .ok ()) :
    ack.voter.replica = sender ∧
      Attests state.record.plan (digestSnapshotDescriptor node.codec.domainDigest descriptor) ack ∧
      validateSnapshotDescriptor node.codec.domainDigest state.record.plan descriptor = .ok () := by
  rw [admitSnapshotVote, refuseIf_bind_eq_ok, unit_bind_eq_ok] at hvote
  simp only [Bool.or_eq_false_iff, decide_eq_false_iff_not, not_not] at hvote
  exact ⟨hvote.1.1, hvote.1.2, hvote.2.1⟩

/-- A message that is admitted is about a plan that the node keeps. -/
theorem get_of_admitBootstrap {message : BootstrapMessage} {authenticated : VoterIdentity}
    (hadmitted : node.admitBootstrap message authenticated = .ok state) :
    node.plans.get? message.plan = some state := by
  rw [admitBootstrap, refuseIf_bind_eq_ok, refuseIf_bind_eq_ok] at hadmitted
  cases hget : node.plans.get? message.plan with
  | none => simp [hget] at hadmitted
  | some known =>
    simp only [hget, refuseIf_bind_eq_ok] at hadmitted
    rw [Except.ok.inj hadmitted.2.2.2.2.2.2]

/-- What holds of a node, and of what a call makes of it when its checks pass, holds after the
call. -/
theorem attempt_ind {α : Type} {P : VoterNode → Prop} {checks : Except Fault α}
    {act : α → VoterNode × Option Fault} (hnode : P node)
    (hact : ∀ value, checks = .ok value → P (act value).1) : P (node.attempt checks act).1 := by
  unfold attempt
  cases hchecks : checks with
  | error fault => exact hnode
  | ok value => exact hact value hchecks

namespace Sound

section

variable (hnode : node.Sound)

include hnode

theorem get {id : BootstrapID} (hstate : node.plans.get? id = some state) :
    state.Sound node.codec := (hnode id state hstate).2

theorem planState (hstate : node.planState plan = some state) :
    state.Sound node.codec := hnode.get (planState_eq_some.mp hstate).1

theorem sync : node.sync.Sound := hnode

theorem enqueueBootstrapRecord (hstate : state.Sound node.codec) :
    (node.enqueueBootstrapRecord state).Sound := by
  let record := { state.record with digest := node.codec.digestBootstrapRecord state.record }
  have hrecorded : { state with record := record }.Sound node.codec :=
    hstate.of_record rfl rfl rfl rfl
  exact PlansSound.insert hnode hrecorded

theorem restoreBootstrapRecord {record : BootstrapRecord} {restored : VoterNode}
    (hrestore : node.restoreBootstrapRecord record = .ok restored) :
    restored.Sound := by
  rw [VoterNode.restoreBootstrapRecord, unit_bind_eq_ok] at hrestore
  obtain ⟨hrecord, hrestore⟩ := hrestore
  split at hrestore
  · rw [refuseIf_bind_eq_ok] at hrestore
    obtain rfl := Except.ok.inj hrestore.2
    exact hnode
  · rw [refuseIf_bind_eq_ok] at hrestore
    obtain rfl := Except.ok.inj hrestore.2
    have hsound := node.codec.sound_restoredState hrecord
    exact PlansSound.insert hnode hsound

end

/-! #### Executed controls -/

section

variable (hnode : node.Sound)

include hnode

theorem applyPrepare : (node.applyPrepare plan).Sound := by
  rw [VoterNode.applyPrepare]
  have hprepared {known : VoterNode} (hknown : known.Sound) :
      ((known.planState plan).elim known fun state ↦
        if BootstrapPhase.prepared.number ≤ state.record.phase.number then known
        else known.enqueueBootstrapRecord
          { state with record := { state.record with phase := .prepared } }).Sound := by
    cases hstate : known.planState plan with
    | none => exact hknown
    | some state =>
      dsimp only [Option.elim_some]
      split
      · exact hknown
      · exact hknown.enqueueBootstrapRecord ((hknown.planState hstate).of_record rfl rfl rfl rfl)
  split
  · exact hnode
  · rename_i known hrestored
    split at hrestored
    · obtain rfl := Except.ok.inj hrestored
      exact hprepared hnode
    · exact hprepared (hnode.restoreBootstrapRecord hrestored)

theorem applyAbort (ref : InstanceRef) (command : MembershipCommand) :
    (node.applyAbort ref command).Sound := by
  rw [VoterNode.applyAbort]
  cases hstate : node.planState command.plan with
  | none => exact hnode
  | some state =>
    dsimp only [Option.elim_some]
    split
    · exact hnode
    · exact hnode.enqueueBootstrapRecord ((hnode.planState hstate).of_record rfl rfl rfl rfl)

theorem applyActivate (ref : InstanceRef) (command : MembershipCommand) :
    (node.applyActivate ref command).Sound := by
  rw [VoterNode.applyActivate]
  cases hstate : node.planState command.plan with
  | none => exact hnode
  | some state =>
    dsimp only [Option.elim_some]
    split
    · exact hnode
    · rename_i hvalid
      simp only [Bool.or_eq_true, not_or, Bool.not_eq_true', Bool.not_eq_false] at hvalid
      obtain ⟨hsnapshot, hready⟩ := node.codec.certificates_of_activationValid hvalid.1.1.2
      obtain ⟨-, hplan⟩ := planState_eq_some.mp hstate
      have hsound := hnode.planState hstate
      rw [← hplan] at hsnapshot hready
      have hid := (valid_of_validate hsound.plan).named
      split <;> exact hnode.enqueueBootstrapRecord
        (hsound.finalize hid hsnapshot hready (by rfl) (by rfl) (by rw [hplan]) (by rfl) _)

theorem applyMembershipControl (entry : InstanceRef × Bytes) :
    (node.applyMembershipControl entry).Sound := by
  rw [VoterNode.applyMembershipControl]
  split
  · exact hnode
  · split
    · exact hnode
    · rename_i command _
      cases command.operation with
      | prepare => exact hnode.applyPrepare
      | activate => exact hnode.applyActivate _ _
      | abort => exact hnode.applyAbort _ _

theorem settle (raw : RawNode) : (node.settle raw).Sound := by
  rw [VoterNode.settle]
  have hstart : { node with raw := raw }.Sound := hnode
  generalize executedControls node.raw raw = controls
  generalize { node with raw := raw } = start at hstart
  induction controls generalizing start with
  | nil => exact hstart
  | cons entry rest ih => exact ih _ (hstart.applyMembershipControl entry)

end

/-! #### Calls -/

section

variable (hnode : node.Sound)

include hnode

theorem proposeMembershipAt (ref : InstanceRef) (control : Bytes) :
    (node.proposeMembershipAt ref control).1.Sound := by
  rw [VoterNode.proposeMembershipAt]
  split
  · exact hnode
  · split <;> exact hnode.settle _

theorem prepareVoter (request : PrepareVoterRequest) :
    (node.prepareVoter request).1.Sound := by
  rw [VoterNode.prepareVoter]
  split
  · exact hnode
  · split
    · exact hnode
    · split
      · exact attempt_ind hnode fun _ _ ↦ hnode
      · refine attempt_ind hnode fun value hplan ↦ ?_
        obtain ⟨-, -, -, -, hvalid, -⟩ := newPlan_eq_ok hplan
        have hregistered : (node.registerPlan value.1).Sound := by
          exact hnode.enqueueBootstrapRecord (.fresh hvalid _)
        have hproposed := hregistered.proposeMembershipAt value.1.reservations.prepare value.2
        dsimp only
        split
        · rename_i proposed heq
          rwa [heq] at hproposed
        · rename_i proposed fault heq
          rw [heq] at hproposed
          exact hproposed.erase _

theorem closeWith (hstate : state.Sound node.codec) (closed : ClosedConfig) :
    (node.closeWith state closed).Sound := by
  have hclosed : { node with closed := node.closed.insert closed.conf.id closed }.Sound := hnode
  exact hclosed.enqueueBootstrapRecord (hstate.of_record rfl rfl rfl rfl)

theorem beginVoterFence (plan : VoterPlan) :
    (node.beginVoterFence plan).1.Sound := by
  rw [VoterNode.beginVoterFence]
  cases hstate : node.planState plan with
  | none => exact hnode
  | some state =>
    dsimp only
    split
    · exact hnode
    · refine attempt_ind hnode fun value _ ↦ ?_
      have hfenced : { state with record := { state.record with
          phase := .localFenced, localFence := value.1 } }.Sound node.codec :=
        (hnode.planState hstate).of_record rfl rfl rfl rfl
      exact hnode.closeWith hfenced _

theorem foldl_enqueueBootstrapAfterAdvance (plan : BootstrapID)
    (messages : List BootstrapMessage) :
    (messages.foldl (fun node message ↦
      node.enqueueBootstrapAfterAdvance plan (some message) false) node).Sound := by
  induction messages generalizing node with
  | nil => exact hnode
  | cons message rest ih => exact ih hnode

theorem adoptFenceQuorum (hstate : state.Sound node.codec)
    (certificate : FenceQuorum) : (node.adoptFenceQuorum state certificate).1.Sound := by
  rw [VoterNode.adoptFenceQuorum]
  refine attempt_ind hnode fun value _ ↦ ?_
  dsimp only
  split
  · exact hnode
  · rename_i raw _
    have hclosed : ({ node with raw := raw } : VoterNode).Sound := hnode
    have hfenced : { state with record := { state.record with
        phase := .fenced, fenceQuorum := certificate } }.Sound node.codec :=
      hstate.of_record rfl rfl rfl rfl
    have hadopted := hclosed.closeWith hfenced ⟨state.record.plan.request.base,
      certificate.frontier, state.record.plan.reservations, certificate.digest⟩
    exact hadopted.foldl_enqueueBootstrapAfterAdvance _ _

theorem applyFenceQuorum (certificate : FenceQuorum) :
    (node.applyFenceQuorum certificate).1.Sound := by
  rw [VoterNode.applyFenceQuorum]
  cases hstate : node.plans.get? certificate.plan with
  | none => exact hnode
  | some state =>
    refine attempt_ind hnode fun _ _ ↦ ?_
    split
    · exact hnode
    · exact hnode.adoptFenceQuorum (hnode.get hstate) certificate

theorem recordTargetReady (plan : VoterPlan) (proof : VoterReadyProof) :
    (node.recordTargetReady plan proof).1.Sound := by
  rw [VoterNode.recordTargetReady]
  cases hstate : node.planState plan with
  | none => exact hnode
  | some state =>
    refine attempt_ind hnode fun _ hvalid ↦ ?_
    dsimp only
    split
    · exact hnode
    · rename_i hnone
      refine attempt_ind hnode fun message _ ↦ ?_
      obtain ⟨-, rfl⟩ := planState_eq_some.mp hstate
      rw [refuseIf_bind_eq_ok] at hvalid
      exact hnode.enqueueBootstrapRecord ((hnode.planState hstate).reach (not_not.mp hnone)
        (by simpa using hvalid.1) hvalid.2 _)

theorem activateVoter (plan : VoterPlan) (snapshot : SnapshotCertificate)
    (ready : ReadyCertificate) : (node.activateVoter plan snapshot ready).1.Sound := by
  rw [VoterNode.activateVoter]
  cases hstate : (node.planState plan).filter fun _ ↦ node.raw.currentConf = plan.request.base with
  | none => exact hnode
  | some state =>
    refine attempt_ind hnode fun control hcontrol ↦ ?_
    obtain ⟨hstate, -⟩ := Option.filter_eq_some_iff.mp hstate
    obtain ⟨-, rfl⟩ := planState_eq_some.mp hstate
    have hsound := hnode.planState hstate
    have hcertificates : validateSnapshotCertificate node.codec.domainDigest state.record.plan
        snapshot = .ok () ∧ validateReadyCertificate node.codec.domainDigest state.record.plan
        snapshot ready = .ok () := by
      rw [activation, refuseIf_bind_eq_ok, refuseIf_bind_eq_ok, refuseIf_bind_eq_ok,
        refuseIf_bind_eq_ok] at hcontrol
      simp only [Bool.or_eq_false_iff, decide_eq_false_iff_not, not_not] at hcontrol
      exact ⟨hcontrol.2.2.1.1.1, hcontrol.2.2.2.1.1⟩
    have hfinal : { state with record := { state.record with
        phase := .finalizing, snapshotCertificate := snapshot
        targetReady := ⟨state.record.plan.request.plan, ready.proof⟩
        readyCertificate := ready } }.Sound node.codec :=
      hsound.finalize (valid_of_validate hsound.plan).named hcertificates.1 hcertificates.2 (by rfl)
        (by rfl)
        (by rfl) (by rfl) _
    exact (hnode.enqueueBootstrapRecord hfinal).proposeMembershipAt _ _

theorem abortVoter (plan : VoterPlan) : (node.abortVoter plan).1.Sound := by
  rw [VoterNode.abortVoter]
  cases hstate : node.planState plan with
  | none => exact hnode
  | some state =>
    dsimp only
    split
    · exact hnode
    · split
      · exact hnode
      · refine attempt_ind hnode fun control _ ↦ ?_
        have hfinal : { state with
            record := { state.record with phase := .finalizing } }.Sound node.codec :=
          (hnode.planState hstate).of_record rfl rfl rfl rfl
        exact (hnode.enqueueBootstrapRecord hfinal).proposeMembershipAt _ _

theorem recoverVoterControl (plan : VoterPlan) (exit : BootstrapExit) :
    (node.recoverVoterControl plan exit).1.Sound := by
  unfold VoterNode.recoverVoterControl
  split
  · exact hnode
  · split
    · exact hnode
    · refine attempt_ind hnode fun _ _ ↦ ?_
      dsimp only
      split <;> exact hnode.settle _

end

/-! #### Messages -/

section

variable (hnode : node.Sound)

include hnode

section

variable (hstate : state.Sound node.codec)

include hstate

theorem insert :
    { node with plans := node.plans.insert state.record.plan.request.plan state }.Sound :=
  PlansSound.insert hnode hstate

theorem handleFenceAck
    {fence : LocalAdmissionFence} (hfence : node.admitFence state sender fence = .ok ()) :
    (node.handleFenceAck state sender fence).1.Sound := by
  rw [VoterNode.handleFenceAck]
  dsimp only
  split
  · exact hnode
  · split
    · exact hnode
    · have hvoter := fenceFor_of_admitFence hfence
      have hacks : { state with fenceAcks := state.fenceAcks.insert sender fence }.Sound
          node.codec := by
        refine { hstate with fences := fun other known hknown ↦ ?_ }
        rw [FiniteMap.get?_insert] at hknown
        split at hknown
        · obtain rfl := Option.some.inj hknown
          exact ⟨hvoter.1.trans (by symm; assumption), hvoter.2⟩
        · exact hstate.fences other known hknown
      have hvoted := hnode.insert hacks
      split
      · exact hvoted
      · exact attempt_ind hvoted fun quorum _ ↦ hvoted.applyFenceQuorum quorum

theorem handleSnapshotVote
    {descriptor : SnapshotDescriptor}
    (hvote : node.admitSnapshotVote state sender descriptor ack = .ok ()) :
    (node.handleSnapshotVote state sender descriptor ack).1.Sound := by
  rw [VoterNode.handleSnapshotVote]
  dsimp only
  split
  · exact hnode
  · rename_i hnone
    rw [not_not] at hnone
    obtain ⟨hsender, hattests, hdescriptor⟩ := attests_of_admitSnapshotVote hvote
    have hdigest : digestSnapshotDescriptor node.codec.domainDigest descriptor ≠ 0 :=
      node.codec.digest_ne_zero _ _
    have hcollected := (hstate.snapshots hnone).collect hdigest hattests hsender
      (buildSnapshotCertificate node.codec.domainDigest state.record.plan descriptor)
    change (node.collectSnapshot state sender descriptor ack).1.Sound _ at hcollected
    generalize hcollect : node.collectSnapshot state sender descriptor ack = outcome at hcollected ⊢
    obtain ⟨votes, result⟩ := outcome
    have hvoted : { state with snapshotVotes := votes }.Sound node.codec :=
      { hstate with snapshots := fun _ ↦ hcollected }
    have hkept := hnode.insert hvoted
    match result with
    | .error _ => exact hkept
    | .ok none => exact hkept
    | .ok (some certificate) =>
      obtain ⟨acks, hbuild⟩ := Votes.exists_build hcollect
      exact hkept.enqueueBootstrapRecord
        (hvoted.certify hnone (validate_buildSnapshot hbuild) .certified votes)

theorem handleInstallProof
    {snapshot : SnapshotCertificate} {proof : VoterReadyProof}
    (hinstall : node.admitInstallProof state snapshot proof = .ok ()) :
    (node.handleInstallProof state snapshot proof).1.Sound := by
  rw [VoterNode.handleInstallProof]
  dsimp only
  split
  · rename_i hnone
    rw [admitInstallProof, refuseIf_bind_eq_ok] at hinstall
    simp only [Bool.or_eq_false_iff, decide_eq_false_iff_not, not_not] at hinstall
    have hcertified := hstate.certify hnone hinstall.1.1.1.1 .certified
      { state.snapshotVotes with
        digest := digestSnapshotDescriptor node.codec.domainDigest snapshot.descriptor }
    exact (hnode.enqueueBootstrapRecord hcertified).recordTargetReady _ _
  · exact hnode.recordTargetReady _ _

/-- A node that collects acknowledgements of a proof has fewer than a slow quorum of them, or a
certificate. -/
theorem handleReadyAck
    (htarget : state.record.targetReady.plan ≠ 0)
    (hack : node.admitReadyAck state sender ack = .ok ()) :
    (node.handleReadyAck state sender ack).1.Sound := by
  rw [VoterNode.handleReadyAck]
  dsimp only
  split
  · exact hnode
  · rename_i hnone
    rw [not_not] at hnone
    obtain ⟨votes, hvotes, hdigest, -, houtcome⟩ := hstate.collectReady htarget hnone hack
    have hvoted (hfew : votes.senders.card <
        slowQuorumSize state.record.plan.request.base.voters.length) :
        { state with readyVotes := votes }.Sound node.codec :=
      { hstate with
        readies := fun _ ↦ ⟨hvotes, fun _ ↦ ⟨htarget, hdigest⟩, votes.card_senders ▸ hfew⟩ }
    obtain ⟨hfew, hcollect⟩ | ⟨-, certificate, hcollect, hproof, hvalid⟩ := houtcome
    · rw [hcollect]
      exact hnode.insert (hvoted hfew)
    · rw [hcollect]
      obtain ⟨hid, hsnapshot, -⟩ := hstate.target htarget
      have hcertified : { state with
          record := { state.record with phase := .finalizing, readyCertificate := certificate }
          readyVotes := votes }.Sound node.codec :=
        hstate.finalize (hid ▸ htarget) (hstate.certified hsnapshot) hvalid (by rfl) (by rfl)
          (by rw [hproof, ← hid]) (by rfl) votes
      have hfinal := hnode.enqueueBootstrapRecord hcertified
      refine cast ?_ hfinal
      exact congrArg (PlansSound node.codec) (FiniteMap.insert_insert ..).symm

theorem handleReadyResponse
    {certificate : ReadyCertificate}
    (hvalid : node.admitReadyResponse state certificate = .ok ()) :
    (node.handleReadyResponse state certificate).1.Sound := by
  rw [VoterNode.handleReadyResponse]
  split
  · exact hnode
  · rw [admitReadyResponse, refuseIf_bind_eq_ok] at hvalid
    have hready := of_not_not (of_decide_eq_false hvalid.1)
    have hsnapshot := hstate.certified (node.codec.ready_valid hready).2.1
    have hfinal : { state with
        record := { state.record with
          phase := .finalizing
          targetReady := ⟨state.record.plan.request.plan, certificate.proof⟩
          readyCertificate := certificate }
        readyVotes := { state.readyVotes with
          digest := digestVoterReadyProof node.codec.domainDigest certificate.proof } }.Sound
        node.codec :=
      hstate.finalize (valid_of_validate hstate.plan).named hsnapshot hready (by rfl) (by rfl)
        (by rfl)
        (by rfl) _
    exact hnode.enqueueBootstrapRecord hfinal

theorem handleBootstrap
    (message : BootstrapMessage) : (node.handleBootstrap state message).1.Sound := by
  rw [VoterNode.handleBootstrap]
  split
  · split
    · exact hnode.beginVoterFence _
    · exact hnode
  · exact attempt_ind hnode fun _ hfence ↦ hnode.handleFenceAck hstate hfence
  · exact hnode.applyFenceQuorum _
  · exact attempt_ind hnode fun _ _ ↦ attempt_ind hnode fun _ hvote ↦
      hnode.handleSnapshotVote hstate hvote
  · exact attempt_ind hnode fun _ _ ↦ hnode
  · exact attempt_ind hnode fun _ _ ↦ attempt_ind hnode fun _ hinstall ↦
      hnode.handleInstallProof hstate hinstall
  · exact attempt_ind hnode fun _ _ ↦ hnode
  · split
    · exact hnode
    · rename_i htarget
      simp only [Bool.or_eq_true, decide_eq_true_eq, not_or, not_not] at htarget
      split
      · refine attempt_ind hnode fun _ hack ↦ hnode.handleReadyAck hstate ?_ hack
        rw [htarget.1]
        exact (valid_of_validate hstate.plan).named
      · exact hnode
  · exact attempt_ind hnode fun _ _ ↦ hnode
  · exact attempt_ind hnode fun _ hvalid ↦ hnode.handleReadyResponse hstate hvalid
  · exact hnode
  · exact hnode
  · exact hnode

end

theorem stepBootstrapAuthenticated (message : BootstrapMessage)
    (authenticated : VoterIdentity) :
    (node.stepBootstrapAuthenticated message authenticated).1.Sound := by
  refine attempt_ind hnode fun state hadmitted ↦ ?_
  exact hnode.handleBootstrap (hnode.get (get_of_admitBootstrap hadmitted)) message

end

/-! #### Durable records -/

section

variable (hnode : node.Sound)

include hnode

theorem noteDurable (record : BootstrapRecord) :
    (node.noteDurable record).Sound := by
  rw [VoterNode.noteDurable]
  split
  · exact hnode
  · rename_i state hstate
    split
    · exact hnode
    · obtain ⟨hid, hsound⟩ := hnode _ _ hstate
      have hdurable : { state with durablePhase := record.phase, durableDigest := record.digest
          }.Sound node.codec := { hsound with }
      rw [hid]
      exact PlansSound.insert hnode hdurable

theorem discharge (action : BootstrapDurabilityAction) :
    (node.discharge action).Sound := by
  rw [VoterNode.discharge]
  cases action.message with
  | none => split <;> exact hnode
  | some message => split <;> exact hnode

theorem applyBootstrapDurability (records : List BootstrapRecord) :
    (node.applyBootstrapDurability records).Sound := by
  have hnoted : (records.foldl VoterNode.noteDurable node).Sound := by
    induction records generalizing node with
    | nil => exact hnode
    | cons record rest ih => exact ih (hnode.noteDurable record)
  have hdischarged {start : VoterNode} (hstart : start.Sound)
      (actions : List BootstrapDurabilityAction) :
      (actions.foldl VoterNode.discharge start).Sound := by
    induction actions generalizing start with
    | nil => exact hstart
    | cons action rest ih => exact ih (hstart.discharge action)
  have hstart (durability : List BootstrapDurabilityAction) :
      { records.foldl VoterNode.noteDurable node with durability := durability }.Sound := hnoted
  exact (hdischarged (hstart _) _).sync

theorem callNode (call : Call) : (node.callNode call).1.Sound := by
  cases call with
  | reserve | publish | proposeMembershipAt | closeConfig | recoverVoterControl => exact hnode
  | advance rd =>
    rw [VoterNode.callNode]
    split
    · exact hnode
    · rename_i raw _
      have hqueued : { node with
          queued := node.queued.drop rd.bootstrapRecords.length }.Sound := hnode
      exact (hqueued.settle raw).applyBootstrapDurability _
  | _ => exact hnode.settle _

/-- A call keeps the plans of a node consistent. -/
theorem call (call : VoterCall) : (node.call call).1.Sound := by
  cases call with
  | node call => exact hnode.callNode call
  | prepareVoter request => exact hnode.prepareVoter request
  | beginVoterFence plan => exact hnode.beginVoterFence plan
  | applyFenceQuorum certificate => exact hnode.applyFenceQuorum certificate
  | recordTargetReady plan proof => exact hnode.recordTargetReady plan proof
  | activateVoter plan snapshot ready => exact hnode.activateVoter plan snapshot ready
  | abortVoter plan => exact hnode.abortVoter plan
  | recoverVoterControl plan exit => exact hnode.recoverVoterControl plan exit
  | stepBootstrap message authenticated =>
    exact hnode.stepBootstrapAuthenticated message authenticated

end

end Sound

/-- A node that was just started has only consistent plans. -/
theorem sound_boot {codec : Codec} {cluster : ClusterID} {identity : VoterIdentity}
    {identities : List VoterIdentity} {raw : RawNode} {records : List BootstrapRecord}
    (hboot : boot codec cluster identity identities raw records = .ok node) : node.Sound := by
  refine foldlM_keeps (fun hstart hrestore ↦ hstart.restoreBootstrapRecord hrestore) ?_ hboot
  intro id state hstate
  cases hstate

/-- A reachable node has only consistent plans. -/
theorem Reachable.sound (hnode : Reachable node) : node.Sound := by
  induction hnode with
  | boot _ _ hboot => exact sound_boot hboot
  | call _ call ih => exact ih.call call

end VoterNode

end MoreConsensus.Bootstrap
