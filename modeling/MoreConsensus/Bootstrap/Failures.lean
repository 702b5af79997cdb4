import MoreConsensus.Bootstrap.Simulation
import MoreConsensus.Delivery

/-!
# Calls that fail

Most calls of the plane check everything before they change anything. Four do not: an exit of a plan
is recorded before its control is proposed, a fence or a vote is kept before the quorum it completes
is certified, and a snapshot certificate is adopted before the target's acknowledgement is made.
When the later step fails the earlier one stays (`refusedAbort`). `Mild` says what the later step
needs. A mild call that fails leaves the node as it was, and a call that is not mild fails after a
change (`unchanged_of_error`).
-/

set_option autoImplicit false

namespace MoreConsensus

open Library

/-- A closure that cannot be scheduled leaves the node as it was. -/
theorem RawNode.scheduleBootstrapClosure_error {n raw : RawNode} {refs : List InstanceRef}
    {err : Err} (hclosure : n.scheduleBootstrapClosure refs = (raw, some err)) : raw = n := by
  unfold scheduleBootstrapClosure at hclosure
  dsimp only at hclosure
  split at hclosure
  · split at hclosure
    · exact (congrArg Prod.fst hclosure).symm
    · cases congrArg Prod.snd hclosure
  · cases congrArg Prod.snd hclosure

/-- A closure is scheduled exactly if all of it is committed or there is time for a recovery. -/
theorem RawNode.err_scheduleBootstrapClosure_iff {n : RawNode} {refs : List InstanceRef} :
    (n.scheduleBootstrapClosure refs).2 = none ↔
      ∀ ref ∈ refs, (∀ rec, n.record? ref = some rec → rec.status < .committed) →
        (checkedLogicalDeadline n.tick n.cfg.recoveryTicks).isSome = true := by
  unfold scheduleBootstrapClosure
  dsimp only
  cases checkedLogicalDeadline n.tick n.cfg.recoveryTicks with
  | some deadline => simp
  | none =>
    have hneeded (ref : InstanceRef) : (n.record? ref).elim true
        (fun rec ↦ decide (rec.status < .committed)) = true ↔
          ∀ rec, n.record? ref = some rec → rec.status < .committed := by
      cases n.record? ref <;> simp
    dsimp only
    split
    · rename_i hany
      obtain ⟨ref, href, hopen⟩ := List.any_eq_true.mp hany
      exact iff_of_false (Option.some_ne_none _) fun htime ↦
        absurd (htime ref href ((hneeded ref).mp hopen)) Bool.false_ne_true
    · rename_i hnone
      refine iff_of_true rfl fun ref href hopen ↦ absurd ?_ hnone
      exact List.any_eq_true.mpr ⟨ref, href, (hneeded ref).mpr hopen⟩

namespace Bootstrap

namespace VoterNode

variable {node : VoterNode} {state : BootstrapState} {plan : VoterPlan}
  {result : VoterNode × Option Fault} {early : Prop}

/-- A call that fails has changed nothing. -/
def Atomic (node : VoterNode) (result : VoterNode × Option Fault) : Prop :=
  ∀ fault, result.2 = some fault → result.1 = node

theorem Atomic.of_none (hnone : result.2 = none) : node.Atomic result := fun fault hfault ↦ by
  rw [hnone] at hfault
  cases hfault

theorem Atomic.refl (fault : Option Fault) : node.Atomic (node, fault) := fun _ _ ↦ rfl

theorem Atomic.attempt {α : Type} {checks : Except Fault α} {act : α → VoterNode × Option Fault}
    (hact : ∀ value, checks = .ok value → node.Atomic (act value)) :
    node.Atomic (node.attempt checks act) := by
  unfold VoterNode.attempt
  cases hchecks : checks with
  | error fault => exact .refl _
  | ok value => exact hact value hchecks

/-- A call is atomic under a condition; otherwise it fails after a plan or the records that wait in
the queue have changed. -/
structure AtomicIf (node : VoterNode) (result : VoterNode × Option Fault) (early : Prop) :
    Prop where
  atomic : early → node.Atomic result
  changed : ¬early →
    result.2 ≠ none ∧ (result.1.plans ≠ node.plans ∨ result.1.queued ≠ node.queued)

theorem Atomic.atomicIf (hatomic : node.Atomic result) (hearly : early) :
    node.AtomicIf result early :=
  ⟨fun _ ↦ hatomic, fun hlate ↦ absurd hearly hlate⟩

/-- A condition that decides whether a call fails after a change. -/
theorem AtomicIf.of_changed (herr : result.2 = none ↔ early)
    (hchanged : result.2 ≠ none →
      result.1.plans ≠ node.plans ∨ result.1.queued ≠ node.queued) : node.AtomicIf result early :=
  ⟨fun hearly ↦ .of_none (herr.mpr hearly), fun hlate ↦
    have hfails := mt herr.mp hlate
    ⟨hfails, hchanged hfails⟩⟩

theorem AtomicIf.congr {early' : Prop} (hresult : node.AtomicIf result early)
    (hiff : early ↔ early') : node.AtomicIf result early' := propext hiff ▸ hresult

theorem AtomicIf.attempt {α : Type} {checks : Except Fault α}
    {act : α → VoterNode × Option Fault} {early : α → Prop}
    (hact : ∀ value, checks = .ok value → node.AtomicIf (act value) (early value)) :
    node.AtomicIf (node.attempt checks act) (∀ value, checks = .ok value → early value) := by
  unfold VoterNode.attempt
  cases hchecks : checks with
  | error fault => exact (Atomic.refl _).atomicIf (by simp)
  | ok value => exact (hact value hchecks).congr (by simp)

theorem AtomicIf.check {checks : Except Fault Unit} {act : Unit → VoterNode × Option Fault}
    (hact : checks = .ok () → node.AtomicIf (act ()) early) :
    node.AtomicIf (node.attempt checks act) (checks = .ok () → early) :=
  (AtomicIf.attempt (fun _ ↦ hact)).congr ⟨fun hearly ↦ hearly (), fun hearly _ ↦ hearly⟩

theorem attempt_of_ok {α : Type} {checks : Except Fault α} (value : α)
    (hchecks : checks = .ok value) (act : α → VoterNode × Option Fault) :
    node.attempt checks act = act value := by
  unfold attempt
  rw [hchecks]

/-! ### Calls that check first -/

theorem atomic_prepareVoter (hcontrol : node.raw.cfg.decodeControl = node.codec.control)
    (request : PrepareVoterRequest) : node.Atomic (node.prepareVoter request) := by
  rw [prepareVoter]
  split
  · exact .refl _
  · rename_i hvoter
    split
    · exact .refl _
    · split
      · exact .attempt fun _ _ ↦ .refl _
      · refine .attempt fun value hplan ↦ ?_
        obtain ⟨plan, control⟩ := value
        have herr := err_prepare hcontrol (by simpa using hvoter) hplan
        dsimp only
        generalize (node.registerPlan plan).proposeMembershipAt _ control = result at herr
        obtain ⟨proposed, err⟩ := result
        obtain rfl : err = none := herr
        exact .of_none rfl

theorem atomic_beginVoterFence (plan : VoterPlan) : node.Atomic (node.beginVoterFence plan) := by
  rw [beginVoterFence]
  split
  · exact .refl _
  · split
    · exact .refl _
    · exact .attempt fun _ _ ↦ .of_none rfl

theorem atomic_adoptFenceQuorum (state : BootstrapState) (certificate : FenceQuorum) :
    node.Atomic (node.adoptFenceQuorum state certificate) := by
  rw [adoptFenceQuorum]
  refine .attempt fun value _ ↦ ?_
  dsimp only
  split
  · rename_i raw err hclosed
    rw [RawNode.scheduleBootstrapClosure_error hclosed]
    exact .refl _
  · exact .of_none rfl

theorem atomic_applyFenceQuorum (certificate : FenceQuorum) :
    node.Atomic (node.applyFenceQuorum certificate) := by
  rw [applyFenceQuorum]
  split
  · exact .refl _
  · refine .attempt fun _ _ ↦ ?_
    split
    · exact .refl _
    · exact atomic_adoptFenceQuorum _ _

theorem atomic_recordTargetReady (plan : VoterPlan) (proof : VoterReadyProof) :
    node.Atomic (node.recordTargetReady plan proof) := by
  rw [recordTargetReady]
  split
  · exact .refl _
  · refine .attempt fun _ _ ↦ ?_
    split
    · exact .refl _
    · exact .attempt fun _ _ ↦ .of_none rfl

/-! ### Exits -/

/-- A fence quorum that nothing is missing of is there. -/
theorem fenceQuorum_of_complete (hstate : node.planState plan = some state)
    (hcomplete : (node.bootstrapClosure plan).complete = true) :
    state.record.fenceQuorum.digest ≠ 0 := by
  intro hzero
  rw [bootstrapClosure, hstate] at hcomplete
  simp [Option.filter, hzero] at hcomplete

theorem queued_restoreBootstrapRecord {record : BootstrapRecord} {restored : VoterNode}
    (hrestore : node.restoreBootstrapRecord record = .ok restored) :
    restored.queued = node.queued := by
  rw [restoreBootstrapRecord, unit_bind_eq_ok] at hrestore
  replace hrestore := hrestore.2
  split at hrestore
  · rw [refuseIf_bind_eq_ok] at hrestore
    cases hrestore.2
    rfl
  · rw [refuseIf_bind_eq_ok] at hrestore
    cases hrestore.2
    rfl

theorem queued_applyPrepare (node : VoterNode) (plan : VoterPlan) :
    node.queued <+: (node.applyPrepare plan).queued := by
  unfold applyPrepare
  dsimp only
  split
  · exact List.prefix_rfl
  · rename_i known hknown
    have hsame : known.queued = node.queued := by
      split at hknown
      · cases hknown
        rfl
      · exact queued_restoreBootstrapRecord hknown
    rw [← hsame]
    cases known.planState plan with
    | none => exact List.prefix_rfl
    | some state =>
      dsimp only [Option.elim]
      split
      · exact List.prefix_rfl
      · exact List.prefix_append ..

theorem queued_applyAbort (node : VoterNode) (ref : InstanceRef) (command : MembershipCommand) :
    node.queued <+: (node.applyAbort ref command).queued := by
  unfold applyAbort
  cases node.planState command.plan with
  | none => exact List.prefix_rfl
  | some state =>
    dsimp only [Option.elim]
    split
    · exact List.prefix_rfl
    · exact List.prefix_append ..

theorem queued_applyActivate (node : VoterNode) (ref : InstanceRef) (command : MembershipCommand) :
    node.queued <+: (node.applyActivate ref command).queued := by
  unfold applyActivate
  dsimp only
  cases node.planState command.plan with
  | none => exact List.prefix_rfl
  | some state =>
    dsimp only [Option.elim]
    split
    · exact List.prefix_rfl
    · split
      · exact List.prefix_append ..
      · exact List.prefix_append ..

/-- What is executed adds to the records that wait in the queue. -/
theorem queued_applyMembershipControl (node : VoterNode) (entry : InstanceRef × Bytes) :
    node.queued <+: (node.applyMembershipControl entry).queued := by
  unfold applyMembershipControl
  dsimp only
  split
  · exact List.prefix_rfl
  · split
    · exact List.prefix_rfl
    · split
      · exact queued_applyPrepare ..
      · exact queued_applyActivate ..
      · exact queued_applyAbort ..

theorem queued_settle (node : VoterNode) (raw : RawNode) :
    node.queued <+: (node.settle raw).queued := by
  have hfold (entries : List (InstanceRef × Bytes)) (node : VoterNode) :
      node.queued <+: (entries.foldl applyMembershipControl node).queued := by
    induction entries generalizing node with
    | nil => exact List.prefix_rfl
    | cons entry entries ih => exact (queued_applyMembershipControl _ entry).trans (ih _)
  exact hfold _ { node with raw := raw }

theorem queued_proposeMembershipAt (node : VoterNode) (ref : InstanceRef) (control : Bytes) :
    node.queued <+: (node.proposeMembershipAt ref control).1.queued := by
  unfold proposeMembershipAt
  split
  · exact List.prefix_rfl
  · split <;> exact queued_settle ..

/-- A control is proposed where it belongs, after the record of its plan was queued. -/
theorem atomicIf_propose (hcontrol : node.raw.cfg.decodeControl = node.codec.control)
    (command : MembershipCommand) {control : Bytes} (state : BootstrapState)
    (hencode : node.codec.encodeMembershipCommand command = .ok control)
    (hplan : validateVoterPlan node.codec.domainDigest command.plan = .ok ())
    (hshape : Codec.commandShape command = true)
    (hactivation : command.operation = .activate → node.codec.activationValid command = true)
    (hlocal : (command.plan.reservations.refOf command.operation).replica = node.raw.id) :
    node.AtomicIf ((node.enqueueBootstrapRecord state).proposeMembershipAt
        (command.plan.reservations.refOf command.operation) control)
      (node.Open command.plan (command.plan.reservations.refOf command.operation) control) := by
  have hbasis := node.basis_enqueueBootstrapRecord state
  have hdecodes : (node.enqueueBootstrapRecord state).raw.cfg.decodeControl =
      node.codec.control := by
    rw [RawNode.cfg_of_basis hbasis, hcontrol]
  have hid : (node.enqueueBootstrapRecord state).raw.id = node.raw.id :=
    congrArg (fun basis ↦ basis.1.1) hbasis
  refine .of_changed ?_ fun _ ↦ .inr fun hsame ↦ ?_
  · exact (err_proposeMembershipAt_iff hdecodes hencode hplan hshape hactivation
      (hlocal.trans hid.symm)).trans ⟨fun hopen ↦ hopen.congr hbasis.symm, fun hopen ↦
        hopen.congr hbasis⟩
  · have hgrows := (queued_proposeMembershipAt (node.enqueueBootstrapRecord state)
      (command.plan.reservations.refOf command.operation) control).length_le
    rw [hsame] at hgrows
    simp [enqueueBootstrapRecord, sync] at hgrows

theorem atomicIf_activateVoter (hnode : node.Sound)
    (hcontrol : node.raw.cfg.decodeControl = node.codec.control)
    {snapshot : SnapshotCertificate} {ready : ReadyCertificate} :
    node.AtomicIf (node.activateVoter plan snapshot ready)
      (∀ state, node.planState plan = some state → node.raw.currentConf = plan.request.base →
        ∀ control, node.activation state plan snapshot ready = .ok control →
          node.Open plan plan.reservations.activate control) := by
  rw [activateVoter]
  split
  · rename_i hstale
    refine (Atomic.refl _).atomicIf fun state hstate hcurrent ↦ ?_
    simp [hstate, hcurrent] at hstale
  · rename_i state hfilter
    obtain ⟨hstate, hcurrent⟩ := Option.filter_eq_some_iff.mp hfilter
    rw [decide_eq_true_eq] at hcurrent
    simp only [hstate, Option.some.injEq, forall_eq', hcurrent, true_implies]
    refine .attempt fun control hcommand ↦ ?_
    rw [activation, refuseIf_bind_eq_ok, refuseIf_bind_eq_ok, refuseIf_bind_eq_ok,
      refuseIf_bind_eq_ok, refuseIf_bind_eq_ok] at hcommand
    obtain ⟨-, hcomplete, hsnapshot, hready, hlocal, hencode⟩ := hcommand
    simp only [Bool.or_eq_false_iff, decide_eq_false_iff_not, not_not, Bool.not_eq_false']
      at hcomplete hsnapshot hready hlocal
    have hfence := fenceQuorum_of_complete hstate hcomplete
    have hsound := (planState_eq_some.mp hstate).2 ▸ (hnode.planState hstate).plan
    let command : MembershipCommand :=
      { operation := .activate, plan := plan, snapshot := snapshot, ready := ready
        fenceDigest := state.record.fenceQuorum.digest }
    refine atomicIf_propose hcontrol command _ hencode hsound ?_ (fun _ ↦ ?_) hlocal
    · simp [command, Codec.commandShape, hfence, node.codec.snapshot_digest_ne_zero hsnapshot.1.1,
        (node.codec.ready_valid hready.1).2.2]
    · simp [command, Codec.activationValid, hsnapshot.1.1, hready.1, hsnapshot.1.2]

theorem atomicIf_abortVoter (hnode : node.Sound)
    (hcontrol : node.raw.cfg.decodeControl = node.codec.control) :
    node.AtomicIf (node.abortVoter plan)
      (∀ state, node.planState plan = some state → state.record.phase ≠ .activated →
        state.record.phase ≠ .aborted → ∀ control, node.abortion state plan = .ok control →
          node.Open plan plan.reservations.abort control) := by
  rw [abortVoter]
  split
  · rename_i hnone
    exact (Atomic.refl _).atomicIf fun state hstate ↦
      absurd (hnone.symm.trans hstate) (Option.some_ne_none state).symm
  · rename_i state hstate
    split
    · rename_i hactivated
      exact (Atomic.refl _).atomicIf (by simp [hstate, hactivated])
    · split
      · rename_i haborted
        exact (Atomic.refl _).atomicIf (by simp [hstate, haborted])
      · rename_i hactivated haborted
        simp only [hstate, Option.some.injEq, forall_eq', ne_eq, hactivated, haborted,
          not_false_eq_true, true_implies]
        refine .attempt fun control hcommand ↦ ?_
        rw [abortion, refuseIf_bind_eq_ok, refuseIf_bind_eq_ok] at hcommand
        obtain ⟨hlocal, -, hencode⟩ := hcommand
        rw [decide_eq_false_iff_not, not_not] at hlocal
        have hsound := (planState_eq_some.mp hstate).2 ▸ (hnode.planState hstate).plan
        exact atomicIf_propose hcontrol
          { operation := .abort, plan := plan, fenceDigest := state.record.fenceQuorum.digest } _
          hencode hsound rfl (by rintro ⟨⟩) hlocal

/-! ### Messages -/

/-- A node can write a message exactly if its identity is valid and the payload has an encoding. -/
theorem exists_message_iff {type : BootstrapMessageType} {receiver : ReplicaID} {payload : Payload}
    (hplan : validateVoterPlan node.codec.domainDigest state.record.plan = .ok ())
    (hid : node.raw.id ≠ 0) (hreceiver : receiver ≠ 0) :
    (∃ message, node.prepareBootstrapMessage type state receiver payload = .ok message) ↔
      node.localIdentity.valid = true ∧ (node.codec.encodePayload payload).isSome = true := by
  constructor
  · rintro ⟨message, hmessage⟩
    rw [prepareBootstrapMessage, refuseIf_bind_eq_ok, refuseIf_bind_eq_ok] at hmessage
    exact ⟨by simpa using hmessage.1, by simpa [Option.isSome_iff_ne_none] using hmessage.2.1⟩
  · rintro ⟨hidentity, hpayload⟩
    obtain ⟨bytes, hbytes⟩ := Option.isSome_iff_exists.mp hpayload
    have hincarnation : node.localIdentity.incarnation ≠ 0 := by
      simp only [VoterIdentity.valid, Bool.and_eq_true, decide_eq_true_eq] at hidentity
      exact hidentity.2
    have hvalid := valid_of_validate hplan
    have hdigest : state.record.plan.requestDigest ≠ 0 := by
      rw [hvalid.digest]
      exact node.codec.digest_ne_zero _ _
    simp [prepareBootstrapMessage, Codec.buildBootstrapMessage, Codec.validateBootstrapMessage,
      hidentity, hbytes, refuseIf, hvalid.cluster, hvalid.named, hvalid.base, hdigest, hid,
      hreceiver, hincarnation, bind, Except.bind, pure, Except.pure]

/-- The fences that a coordinator has with one more. -/
def fencesWith (state : BootstrapState) (sender : ReplicaID) (fence : LocalAdmissionFence) :
    List LocalAdmissionFence :=
  (state.fenceAcks.insert sender fence).entries.map Prod.snd

/-- A coordinator with other voters can write the certificate of some fences to them. -/
def Writes (node : VoterNode) (state : BootstrapState) (certificate : FenceQuorum) : Prop :=
  node.raw.id = state.record.plan.reservations.prepare.replica →
    (∃ voter ∈ state.record.plan.request.base.voters, voter ≠ node.raw.id) →
    node.localIdentity.valid = true ∧ (node.codec.encodePayload (.quorum certificate)).isSome = true

/-- What a node needs to take the union of some fences: the Prepare is executed, a coordinator can
write the certificate, and what the union covers is committed or there is time to recover it. -/
structure Adopts (node : VoterNode) (state : BootstrapState) (certificate : FenceQuorum) :
    Prop where
  prepared : BootstrapPhase.prepared.number ≤ state.record.phase.number
  writes : node.Writes state certificate
  time : ∀ refs, bootstrapClosureRefs state.record.plan certificate.frontier = .ok refs →
    ∀ ref ∈ refs, node.raw.ownsRef ref = true →
      (∀ rec, node.raw.record? ref = some rec → rec.status < .committed) →
      (checkedLogicalDeadline node.raw.tick node.raw.cfg.recoveryTicks).isSome = true

/-- What a node needs to apply the quorum of some fences: there are as many as a slow quorum has,
their union is within the bounds, and it can be taken. -/
structure QuorumFits (node : VoterNode) (state : BootstrapState)
    (fences : List LocalAdmissionFence) : Prop where
  count : fences.length = slowQuorumSize state.record.plan.request.base.voters.length
  bounds : (unionOf state.record.plan.request.base fences).coverage ≤ maxBootstrapSparseRefs
  adopts : node.Adopts state
    (quorumOf node.codec.domainDigest state.record.plan (sortedFences fences))

/-- The fences that were collected with one more make a set of fences. -/
theorem fenceSet_fencesWith (hstate : state.Sound node.codec) {sender : ReplicaID}
    {fence : LocalAdmissionFence} (hfence : node.admitFence state sender fence = .ok ())
    (hcount : (fencesWith state sender fence).length =
      slowQuorumSize state.record.plan.request.base.voters.length) :
    FenceSet node.codec.domainDigest state.record.plan (fencesWith state sender fence) := by
  have hkept : ∀ entry ∈ (state.fenceAcks.insert sender fence).entries,
      entry.2.voter.replica = entry.1 ∧
        FenceFor node.codec.domainDigest state.record.plan entry.2 := by
    rintro ⟨other, known⟩ hentry
    have hget := (FiniteMap.mem_entries ..).mp hentry
    rw [FiniteMap.get?_insert] at hget
    split at hget
    · rename_i hother
      obtain rfl := Option.some.inj hget
      rw [hother]
      exact fenceFor_of_admitFence hfence
    · exact hstate.fences other known hget
  have hvoters : (fencesWith state sender fence).map (fun fence ↦ fence.voter.replica) =
      (state.fenceAcks.insert sender fence).keys := by
    rw [fencesWith, List.map_map, FiniteMap.keys]
    exact List.map_congr_left fun entry hentry ↦ (hkept entry hentry).1
  refine ⟨hstate.plan, fun known hknown ↦ ?_, ?_, hcount⟩
  · obtain ⟨entry, hentry, rfl⟩ := List.mem_map.mp hknown
    exact (hkept entry hentry).2
  · rw [hvoters]
    exact FiniteMap.nodup_keys _

theorem exists_quorumMessages_iff
    (hplan : validateVoterPlan node.codec.domainDigest state.record.plan = .ok ())
    {certificate : FenceQuorum} :
    (∃ messages, node.quorumMessages state certificate = .ok messages) ↔
      node.Writes state certificate := by
  have hvalid := valid_of_validate hplan
  rw [quorumMessages, Writes]
  split
  · rename_i hother
    exact iff_of_true ⟨[], rfl⟩ fun hcoordinator ↦ absurd hcoordinator hother
  · rename_i hcoordinator
    rw [not_not] at hcoordinator
    have hid : node.raw.id ≠ 0 := by
      rw [hcoordinator]
      exact (ControlReservations.refOf_of_validFor hvalid.reservations .prepare).2.1
    have hmessage (voter : ReplicaID) (hvoter : voter ∈ state.record.plan.request.base.voters) :
        (∃ message, node.prepareBootstrapMessage .fenceQuorum state voter (.quorum certificate) =
          .ok message) ↔ node.localIdentity.valid = true ∧
            (node.codec.encodePayload (.quorum certificate)).isSome = true := by
      refine exists_message_iff hplan hid ?_
      obtain ⟨set, -, hvoters⟩ := exists_voterSet hvalid.voters
      rintro rfl
      exact set.positive (hvoters ▸ hvoter)
    rw [exists_mapM_ok_iff]
    simp only [List.mem_filter, decide_eq_true_eq]
    constructor
    · rintro hall - ⟨voter, hvoter, hother⟩
      exact (hmessage voter hvoter).mp (hall voter ⟨hvoter, hother⟩)
    · intro hwrites voter hvoter
      exact (hmessage voter hvoter.1).mpr (hwrites hcoordinator ⟨voter, hvoter⟩)

/-- What a quorum of fences covers is listed. -/
theorem exists_closureRefs {fences : List LocalAdmissionFence}
    (hset : FenceSet node.codec.domainDigest state.record.plan fences)
    (hbounds : (unionOf state.record.plan.request.base fences).coverage ≤ maxBootstrapSparseRefs) :
    ∃ refs, bootstrapClosureRefs state.record.plan (quorumOf node.codec.domainDigest
      state.record.plan (sortedFences fences)).frontier = .ok refs := by
  have hperm : fences.Perm (sortedFences fences) := (List.perm_insertionSort _ fences).symm
  have hfrontier : validateBootstrapFrontier (unionOf state.record.plan.request.base
      (sortedFences fences)) state.record.plan.request.base = .ok () := by
    rw [← unionOf_perm hperm, validateBootstrapFrontier_sound, if_pos hbounds]
    exact sound_unionOf hset.ne_nil fun fence hfence ↦
      sound_of_validate (hset.fence fence hfence).frontier
  rw [bootstrapClosureRefs]
  change ∃ refs, (validateBootstrapFrontier (unionOf state.record.plan.request.base
    (sortedFences fences)) state.record.plan.request.base >>= _) = _
  rw [hfrontier]
  exact ⟨_, rfl⟩

theorem err_adoptFenceQuorum_iff {certificate : FenceQuorum} {refs : List InstanceRef}
    (hplan : validateVoterPlan node.codec.domainDigest state.record.plan = .ok ())
    (hrefs : bootstrapClosureRefs state.record.plan certificate.frontier = .ok refs) :
    (node.adoptFenceQuorum state certificate).2 = none ↔ node.Adopts state certificate := by
  have hclosed : (node.raw.call (.closeConfig refs)).2 = none ↔ _ :=
    RawNode.err_scheduleBootstrapClosure_iff
  simp only [List.mem_filter, and_imp] at hclosed
  by_cases hprepared : state.record.phase.number < BootstrapPhase.prepared.number
  · rw [adoptFenceQuorum, refuseIf_bind, decide_eq_true hprepared]
    exact iff_of_false (Option.some_ne_none _) fun hadopts ↦
      absurd hadopts.prepared (not_le.mpr hprepared)
  · cases hmessages : node.quorumMessages state certificate with
    | error fault =>
      rw [adoptFenceQuorum, refuseIf_bind, decide_eq_false hprepared, hmessages]
      refine iff_of_false (Option.some_ne_none _) fun hadopts ↦ ?_
      obtain ⟨messages, hok⟩ := (exists_quorumMessages_iff hplan).mpr hadopts.writes
      rw [hmessages] at hok
      cases hok
    | ok messages =>
      have hwrites := (exists_quorumMessages_iff hplan).mp ⟨messages, hmessages⟩
      have hadopts : node.Adopts state certificate ↔
          (node.raw.call (.closeConfig refs)).2 = none := by
        rw [hclosed]
        refine ⟨fun hadopts ↦ hadopts.time refs hrefs, fun htime ↦
          ⟨not_lt.mp hprepared, hwrites, fun other hother ↦ ?_⟩⟩
        rw [hrefs] at hother
        cases hother
        exact htime
      rw [hadopts, adoptFenceQuorum, attempt_of_ok (messages, refs)
        (by rw [refuseIf_bind, decide_eq_false hprepared, hmessages, hrefs]; rfl)]
      dsimp only
      generalize node.raw.call (.closeConfig refs) = closed
      obtain ⟨raw, err⟩ := closed
      cases err with
      | none => exact iff_of_true rfl rfl
      | some err => exact iff_of_false (Option.some_ne_none _) (Option.some_ne_none _)

theorem length_of_buildFenceQuorum {fences : List LocalAdmissionFence} {certificate : FenceQuorum}
    (hbuild : buildFenceQuorum node.codec.domainDigest plan fences = .ok certificate) :
    fences.length = slowQuorumSize plan.request.base.voters.length := by
  rw [buildFenceQuorum, unit_bind_eq_ok, refuseIf_bind_eq_ok] at hbuild
  have hcount := hbuild.2.1
  simp only [Bool.or_eq_false_iff, decide_eq_false_iff_not, not_not] at hcount
  exact hcount.1

/-- The quorum of the fences with one more is certified and applied exactly if it fits. -/
theorem err_applyFences_iff (hstate : state.Sound node.codec) {sender : ReplicaID}
    {fence : LocalAdmissionFence} (hfence : node.admitFence state sender fence = .ok ())
    (hnone : state.record.fenceQuorum.digest = 0) {voted : VoterNode}
    (hvoted : voted = { node with
      plans := node.plans.insert state.record.plan.request.plan
        { state with fenceAcks := state.fenceAcks.insert sender fence } }) :
    (voted.attempt (buildFenceQuorum node.codec.domainDigest state.record.plan
        (fencesWith state sender fence)) voted.applyFenceQuorum).2 = none ↔
      node.QuorumFits state (fencesWith state sender fence) := by
  cases hbuild : buildFenceQuorum node.codec.domainDigest state.record.plan
      (fencesWith state sender fence) with
  | error fault =>
    refine iff_of_false (Option.some_ne_none _) fun hfits ↦ ?_
    have hset := fenceSet_fencesWith hstate hfence hfits.count
    rw [buildFenceQuorum_eq hset, if_pos hfits.bounds] at hbuild
    cases hbuild
  | ok certificate =>
    have hset := fenceSet_fencesWith hstate hfence (length_of_buildFenceQuorum hbuild)
    rw [buildFenceQuorum_eq hset] at hbuild
    split at hbuild
    · rename_i hbounds
      cases hbuild
      obtain ⟨refs, hrefs⟩ := exists_closureRefs hset hbounds
      have hget : voted.plans.get? (quorumOf node.codec.domainDigest state.record.plan
          (sortedFences (fencesWith state sender fence))).plan =
            some { state with fenceAcks := state.fenceAcks.insert sender fence } := by
        rw [hvoted]
        exact FiniteMap.get?_insert_self ..
      have hcodec : voted.codec = node.codec := by rw [hvoted]
      rw [attempt_of_ok _ rfl, applyFenceQuorum, hget]
      dsimp only
      rw [hcodec, attempt_of_ok _ (validate_quorumOf hset hbounds), if_neg (not_not.mpr hnone),
        hvoted]
      refine Iff.trans (err_adoptFenceQuorum_iff hstate.plan hrefs)
        (Iff.intro (fun hadopts ↦ ?_) fun hfits ↦ ?_)
      · exact ⟨hset.length, hbounds, hadopts.prepared, hadopts.writes, hadopts.time⟩
      · exact ⟨hfits.adopts.prepared, hfits.adopts.writes, hfits.adopts.time⟩
    · cases hbuild

/-- A new state of a plan shows in the plans. -/
theorem plans_ne {next : VoterNode} {id : BootstrapID} {state' : BootstrapState}
    (hget : node.plans.get? id = some state) (hnext : next.plans.get? id = some state')
    (hne : state' ≠ state) : next.plans ≠ node.plans := fun hsame ↦ by
  rw [hsame, hget, Option.some.injEq] at hnext
  exact hne hnext.symm

theorem atomicIf_handleFenceAck (hstate : state.Sound node.codec)
    (hget : node.plans.get? state.record.plan.request.plan = some state) {sender : ReplicaID}
    {fence : LocalAdmissionFence} (hfence : node.admitFence state sender fence = .ok ()) :
    node.AtomicIf (node.handleFenceAck state sender fence)
      (state.record.fenceQuorum.digest = 0 → state.fenceAcks.get? sender = none →
        slowQuorumSize state.record.plan.request.base.voters.length ≤
          (fencesWith state sender fence).length →
        node.QuorumFits state (fencesWith state sender fence)) := by
  rw [handleFenceAck]
  split
  · rename_i hcertified
    exact (Atomic.refl _).atomicIf fun hnone ↦ absurd hnone hcertified
  · rename_i hnone
    rw [not_not] at hnone
    split
    · rename_i known hknown
      exact (Atomic.refl _).atomicIf fun _ hnew ↦
        absurd (hknown.symm.trans hnew) (Option.some_ne_none known)
    · rename_i hnew
      dsimp only
      split
      · rename_i hfew
        rw [← List.length_map Prod.snd] at hfew
        exact (Atomic.of_none rfl).atomicIf fun _ _ hmany ↦ absurd hfew (not_lt.mpr hmany)
      · rename_i hmany
        rw [not_lt, ← List.length_map Prod.snd] at hmany
        refine (AtomicIf.of_changed (err_applyFences_iff hstate hfence hnone rfl) fun hfails ↦
          .inl ?_).congr ⟨fun hfits _ _ _ ↦ hfits, fun hfits ↦ hfits hnone hnew hmany⟩
        obtain ⟨fault, hfault⟩ := Option.ne_none_iff_exists'.mp hfails
        rw [(Atomic.attempt fun certificate _ ↦ atomic_applyFenceQuorum certificate) fault hfault]
        refine plans_ne hget (FiniteMap.get?_insert_self ..) fun hsame ↦ ?_
        have hacks := congrArg BootstrapState.fenceAcks hsame
        rw [← hacks] at hnew
        simp at hnew

theorem atomicIf_handleSnapshotVote (hstate : state.Sound node.codec)
    (hget : node.plans.get? state.record.plan.request.plan = some state) {sender : ReplicaID}
    {descriptor : SnapshotDescriptor} {ack : VoterAcknowledgement}
    (hvote : node.admitSnapshotVote state sender descriptor ack = .ok ()) :
    node.AtomicIf (node.handleSnapshotVote state sender descriptor ack)
      (state.record.snapshotCertificate.digest = 0 →
        (state.snapshotVotes.digest = 0 ∨ state.snapshotVotes.digest =
          digestSnapshotDescriptor node.codec.domainDigest descriptor) →
        sender ∉ state.snapshotVotes.senders →
        slowQuorumSize state.record.plan.request.base.voters.length ≤
          (insert sender state.snapshotVotes.senders).card →
        Certifies state (insert sender state.snapshotVotes.senders)) := by
  rw [handleSnapshotVote]
  dsimp only
  split
  · rename_i hcertified
    exact (Atomic.refl _).atomicIf fun hnone ↦ absurd hnone hcertified
  · rename_i hnone
    rw [not_not] at hnone
    obtain ⟨hsender, hattests, hdescriptor⟩ := attests_of_admitSnapshotVote hvote
    have hvotes := hstate.snapshots hnone
    have hdigest : digestSnapshotDescriptor node.codec.domainDigest descriptor ≠ 0 :=
      node.codec.digest_ne_zero _ _
    by_cases hsame : state.snapshotVotes.digest = 0 ∨ state.snapshotVotes.digest =
        digestSnapshotDescriptor node.codec.domainDigest descriptor
    · obtain ⟨votes, hsound, heq, hsenders, hcollect⟩ := hvotes.collect_same hsame hdigest hattests
        hsender (buildSnapshotCertificate node.codec.domainDigest state.record.plan descriptor)
      rw [collectSnapshot, hcollect]
      by_cases hquorum : sender ∉ state.snapshotVotes.senders ∧
          slowQuorumSize state.record.plan.request.base.voters.length ≤ votes.senders.card
      · have hbuild := hsound.buildSnapshot_iff hstate.plan hdescriptor heq
        rw [if_pos hquorum]
        rw [hsenders] at hbuild
        cases hbuilt : buildSnapshotCertificate node.codec.domainDigest state.record.plan descriptor
            (votes.votes.entries.map Prod.snd) with
        | ok certificate =>
          exact (Atomic.of_none rfl).atomicIf fun _ _ _ _ ↦ hbuild.mp ⟨certificate, hbuilt⟩
        | error fault =>
          have hrefused : ¬Certifies state (insert sender state.snapshotVotes.senders) :=
            fun hcertifies ↦ by
              obtain ⟨certificate, hok⟩ := hbuild.mpr hcertifies
              rw [hbuilt] at hok
              cases hok
          change node.AtomicIf ({ node with plans := _ }, some fault) _
          refine (AtomicIf.of_changed (iff_of_false (Option.some_ne_none fault) hrefused)
            fun _ ↦ .inl ?_).congr
            ⟨fun hcertifies _ _ _ _ ↦ hcertifies, fun hcertifies ↦
              hcertifies hnone hsame hquorum.1 (hsenders ▸ hquorum.2)⟩
          refine plans_ne hget (FiniteMap.get?_insert_self ..) fun hkept ↦ hquorum.1 ?_
          rw [← congrArg BootstrapState.snapshotVotes hkept, hsenders]
          exact Finset.mem_insert_self ..
      · rw [if_neg hquorum, ← hsenders]
        exact (Atomic.of_none rfl).atomicIf fun _ _ hnew hmany ↦ absurd ⟨hnew, hmany⟩ hquorum
    · -- a vote for another snapshot is not kept
      obtain ⟨-, -, hcollect⟩ | ⟨hdigest', -⟩ | ⟨hdigest', -⟩ :=
        hvotes.collect_cases hattests hsender
          (buildSnapshotCertificate node.codec.domainDigest state.record.plan descriptor)
      · rw [collectSnapshot, hcollect]
        dsimp only
        rw [FiniteMap.insert_of_get? hget]
        exact (Atomic.refl _).atomicIf fun _ hsame' ↦ absurd hsame' hsame
      · exact absurd (.inr hdigest') hsame
      · exact absurd hdigest' hsame

theorem planState_enqueueBootstrapRecord (node : VoterNode) (state : BootstrapState) :
    (node.enqueueBootstrapRecord state).planState state.record.plan = some { state with
      record := { state.record with digest := node.codec.digestBootstrapRecord state.record } } :=
  planState_eq_some.mpr ⟨FiniteMap.get?_insert_self .., rfl⟩

/-- A node that has a certificate and no proof yet records a valid one exactly if it can write the
acknowledgement. -/
theorem err_recordTargetReady_iff (hstate : node.planState plan = some state)
    (hplan : validateVoterPlan node.codec.domainDigest plan = .ok ())
    (hcertified : state.record.snapshotCertificate.digest ≠ 0)
    (hnone : state.record.targetReady.plan = 0) {proof : VoterReadyProof}
    (hproof : validateVoterReadyProof plan state.record.snapshotCertificate proof = .ok ())
    (hid : node.raw.id ≠ 0) :
    (node.recordTargetReady plan proof).2 = none ↔
      node.localIdentity.valid = true ∧ (node.codec.encodePayload (.acknowledgement
        ⟨node.localIdentity, digestVoterReadyProof node.codec.domainDigest proof⟩)).isSome =
          true := by
  have hrecord := (planState_eq_some.mp hstate).2
  have hreceiver := (ControlReservations.refOf_of_validFor
    (valid_of_validate hplan).reservations .prepare).2.1
  have hdigest : digestVoterReadyProof node.codec.domainDigest proof ≠ 0 :=
    node.codec.digest_ne_zero _ _
  let ack : VoterAcknowledgement :=
    ⟨node.localIdentity, digestVoterReadyProof node.codec.domainDigest proof⟩
  have hmessage : (∃ message, node.prepareBootstrapMessage .readyAck state
      plan.reservations.prepare.replica (.acknowledgement ack) = .ok message) ↔ _ :=
    exists_message_iff (hrecord ▸ hplan) hid hreceiver
  rw [recordTargetReady, hstate]
  dsimp only
  rw [attempt_of_ok () (by rw [refuseIf_bind, decide_eq_false hcertified, hproof]; rfl),
    if_neg (not_not.mpr hnone), ← hmessage, buildVoterAcknowledgement, decide_eq_false hdigest]
  by_cases hidentity : node.localIdentity.valid = true
  · rw [hidentity]
    change (node.attempt (node.prepareBootstrapMessage .readyAck state
      plan.reservations.prepare.replica (.acknowledgement ack)) _).2 = none ↔ _
    cases node.prepareBootstrapMessage .readyAck state plan.reservations.prepare.replica
      (.acknowledgement ack) with
    | error fault => exact iff_of_false (Option.some_ne_none _) (by simp)
    | ok message => exact iff_of_true rfl ⟨message, rfl⟩
  · refine iff_of_false ?_ fun hwrites ↦ hidentity (hmessage.mp hwrites).1
    rw [Bool.not_eq_true] at hidentity
    rw [hidentity]
    exact Option.some_ne_none _

theorem atomicIf_handleInstallProof (hnode : node.Sound) (hid : node.raw.id ≠ 0)
    (hget : node.plans.get? state.record.plan.request.plan = some state)
    {snapshot : SnapshotCertificate} {proof : VoterReadyProof}
    (hinstall : node.admitInstallProof state snapshot proof = .ok ()) :
    node.AtomicIf (node.handleInstallProof state snapshot proof)
      (state.record.snapshotCertificate.digest = 0 →
        node.localIdentity.valid = true ∧ (node.codec.encodePayload (.acknowledgement
          ⟨node.localIdentity, digestVoterReadyProof node.codec.domainDigest proof⟩)).isSome =
            true) := by
  rw [handleInstallProof]
  dsimp only
  split
  · rename_i hnone
    have hstate := hnode.get hget
    rw [admitInstallProof, refuseIf_bind_eq_ok] at hinstall
    simp only [Bool.or_eq_false_iff, decide_eq_false_iff_not, not_not] at hinstall
    obtain ⟨⟨⟨⟨hsnapshot, -⟩, -⟩, hproof⟩, -⟩ := hinstall
    have hzero : state.record.targetReady.plan = 0 := by
      by_contra hne
      exact (hstate.target hne).2.1 hnone
    have hkept := node.planState_enqueueBootstrapRecord
      { state with
        record := { state.record with phase := .certified, snapshotCertificate := snapshot }
        snapshotVotes := { state.snapshotVotes with
          digest := digestSnapshotDescriptor node.codec.domainDigest snapshot.descriptor } }
    have herr := err_recordTargetReady_iff hkept hstate.plan
      (node.codec.snapshot_digest_ne_zero hsnapshot) hzero hproof
      fun hraw ↦ hid ((congrArg (fun basis ↦ basis.1.1)
        (node.basis_enqueueBootstrapRecord _)).symm.trans hraw)
    refine (AtomicIf.of_changed herr fun hfails ↦ .inr ?_).congr
      ⟨fun hwrites _ ↦ hwrites, fun hwrites ↦ hwrites hnone⟩
    obtain ⟨fault, hfault⟩ := Option.ne_none_iff_exists'.mp hfails
    rw [atomic_recordTargetReady _ _ fault hfault]
    simp [enqueueBootstrapRecord, sync]
  · rename_i hcertified
    exact (atomic_recordTargetReady _ _).atomicIf fun hnone ↦ absurd hnone hcertified

theorem atomic_handleReadyAck (hstate : state.Sound node.codec)
    (htarget : state.record.targetReady.plan ≠ 0) {sender : ReplicaID}
    {ack : VoterAcknowledgement} (hack : node.admitReadyAck state sender ack = .ok ()) :
    node.Atomic (node.handleReadyAck state sender ack) := by
  rw [handleReadyAck]
  dsimp only
  split
  · exact .refl _
  · rename_i hnone
    rw [not_not] at hnone
    obtain ⟨votes, -, -, -, ⟨-, hcollect⟩ | ⟨-, certificate, hcollect, -⟩⟩ :=
      hstate.collectReady htarget hnone hack
    · rw [hcollect]
      exact .of_none rfl
    · rw [hcollect]
      exact .of_none rfl

theorem atomic_handleReadyResponse (state : BootstrapState) (certificate : ReadyCertificate) :
    node.Atomic (node.handleReadyResponse state certificate) := by
  rw [handleReadyResponse]
  split
  · exact .refl _
  · exact .of_none rfl

/-! ### Mild calls -/

/-- What a message needs when its checks pass: a quorum of fences that it completes fits, one of
votes has the source, and the acknowledgement of the target can be written. -/
def MildMessage (node : VoterNode) (state : BootstrapState) (message : BootstrapMessage) : Prop :=
  match message.type, message.payload with
  | .fenceAck, .fence fence => node.admitFence state message.sender fence = .ok () →
      state.record.fenceQuorum.digest = 0 → state.fenceAcks.get? message.sender = none →
      slowQuorumSize state.record.plan.request.base.voters.length ≤
        (fencesWith state message.sender fence).length →
      node.QuorumFits state (fencesWith state message.sender fence)
  | .snapshotVote, .vote descriptor ack => node.closureComplete state = .ok () →
      node.admitSnapshotVote state message.sender descriptor ack = .ok () →
      state.record.snapshotCertificate.digest = 0 →
      (state.snapshotVotes.digest = 0 ∨ state.snapshotVotes.digest =
        digestSnapshotDescriptor node.codec.domainDigest descriptor) →
      message.sender ∉ state.snapshotVotes.senders →
      slowQuorumSize state.record.plan.request.base.voters.length ≤
        (insert message.sender state.snapshotVotes.senders).card →
      Certifies state (insert message.sender state.snapshotVotes.senders)
  | .installProof, .install snapshot proof => node.closureComplete state = .ok () →
      node.admitInstallProof state snapshot proof = .ok () →
      state.record.snapshotCertificate.digest = 0 →
      node.localIdentity.valid = true ∧ (node.codec.encodePayload (.acknowledgement
        ⟨node.localIdentity, digestVoterReadyProof node.codec.domainDigest proof⟩)).isSome = true
  | _, _ => True

/-- What a call needs of a node for the steps after its first change. -/
def Mild (node : VoterNode) : VoterCall → Prop
  | .activateVoter plan snapshot ready => ∀ state, node.planState plan = some state →
      node.raw.currentConf = plan.request.base →
      ∀ control, node.activation state plan snapshot ready = .ok control →
        node.Open plan plan.reservations.activate control
  | .abortVoter plan => ∀ state, node.planState plan = some state →
      state.record.phase ≠ .activated → state.record.phase ≠ .aborted →
      ∀ control, node.abortion state plan = .ok control →
        node.Open plan plan.reservations.abort control
  | .stepBootstrap message authenticated =>
    ∀ state, node.admitBootstrap message authenticated = .ok state → node.MildMessage state message
  | _ => True

/-- The calls that take a plan from one phase to the next. -/
def VoterCall.bootstraps : VoterCall → Bool
  | .node _ | .recoverVoterControl .. => false
  | _ => true

theorem atomicIf_handleBootstrap (hnode : node.Sound) (hid : node.raw.id ≠ 0)
    (hget : node.plans.get? state.record.plan.request.plan = some state)
    (message : BootstrapMessage) :
    node.AtomicIf (node.handleBootstrap state message) (node.MildMessage state message) := by
  have hstate := hnode.get hget
  have hother (hfence : ∀ fence, message.type = .fenceAck → message.payload ≠ .fence fence)
      (hvote : ∀ descriptor ack, message.type = .snapshotVote →
        message.payload ≠ .vote descriptor ack)
      (hinstall : ∀ snapshot proof, message.type = .installProof →
        message.payload ≠ .install snapshot proof) : node.MildMessage state message := by
    unfold MildMessage
    split
    · exact absurd ‹message.payload = _› (hfence _ ‹_›)
    · exact absurd ‹message.payload = _› (hvote _ _ ‹_›)
    · exact absurd ‹message.payload = _› (hinstall _ _ ‹_›)
    · trivial
  unfold handleBootstrap
  split
  · refine Atomic.atomicIf ?_ (hother ?_ ?_ ?_)
    · split
      · exact atomic_beginVoterFence _
      · exact .refl _
    all_goals simp_all
  · rename_i fence htype hpayload
    simp only [MildMessage, htype, hpayload]
    exact .check fun hfence ↦ atomicIf_handleFenceAck hstate hget hfence
  · refine (atomic_applyFenceQuorum _).atomicIf (hother ?_ ?_ ?_) <;> simp_all
  · rename_i descriptor ack htype hpayload
    simp only [MildMessage, htype, hpayload]
    exact .check fun _ ↦ .check fun hvote ↦ atomicIf_handleSnapshotVote hstate hget hvote
  · refine (Atomic.attempt fun _ _ ↦ .refl _).atomicIf (hother ?_ ?_ ?_) <;> simp_all
  · rename_i snapshot proof htype hpayload
    simp only [MildMessage, htype, hpayload]
    exact .check fun _ ↦ .check fun hinstall ↦ atomicIf_handleInstallProof hnode hid hget hinstall
  · refine (Atomic.attempt fun _ _ ↦ .refl _).atomicIf (hother ?_ ?_ ?_) <;> simp_all
  · refine Atomic.atomicIf ?_ (hother (by simp_all) (by simp_all) (by simp_all))
    split
    · exact .refl _
    · rename_i htarget
      simp only [Bool.or_eq_true, decide_eq_true_eq, not_or, not_not] at htarget
      split
      · refine .attempt fun _ hack ↦ atomic_handleReadyAck hstate ?_ hack
        rw [htarget.1]
        exact (valid_of_validate hstate.plan).named
      · exact .refl _
  · refine (Atomic.attempt fun _ _ ↦ .of_none rfl).atomicIf (hother ?_ ?_ ?_) <;> simp_all
  · refine (Atomic.attempt fun _ _ ↦ atomic_handleReadyResponse _ _).atomicIf
      (hother ?_ ?_ ?_) <;> simp_all
  · refine (Atomic.refl _).atomicIf (hother ?_ ?_ ?_) <;> simp_all
  · refine (Atomic.refl _).atomicIf (hother ?_ ?_ ?_) <;> simp_all
  · refine (Atomic.refl _).atomicIf (hother ?_ ?_ ?_) <;> simp_all

/-- A node that admits a message has an id. -/
theorem id_of_admitBootstrap {message : BootstrapMessage} {authenticated : VoterIdentity}
    (hadmitted : node.admitBootstrap message authenticated = .ok state) : node.raw.id ≠ 0 := by
  have hget := get_of_admitBootstrap hadmitted
  rw [admitBootstrap, refuseIf_bind_eq_ok, refuseIf_bind_eq_ok, hget] at hadmitted
  obtain ⟨-, hreceiver, hrest⟩ := hadmitted
  dsimp only at hrest
  rw [refuseIf_bind_eq_ok] at hrest
  simp only [Bool.or_eq_false_iff, decide_eq_false_iff_not, not_not] at hreceiver hrest
  have hvalid := hrest.1.1.1
  rw [Codec.validateBootstrapMessage] at hvalid
  rw [← hreceiver.1]
  split at hvalid
  · cases hvalid
  · simp only [refuseIf_eq_ok, Bool.or_eq_false_iff, decide_eq_false_iff_not] at hvalid
    tauto

end VoterNode

/-! ### A sole voter -/

def ninthOfOne : VoterPlan := ninthVoter [1]

/-- A sole voter that has executed a Prepare and not stored it. -/
def preparingVoter : VoterNode :=
  (((voterAt ninthOfOne RawNode.soleVoter 1).get (by decide +kernel)).call
    (.prepareVoter ninthOfOne.request)).1

/-- The same voter after the Prepare is stored, with a fence that is not, and after a recovery of
the abort. The recovery has left an empty record under the reserved reference. -/
def recoveringVoter : VoterNode :=
  preparingVoter.flush.run [.beginVoterFence ninthOfOne, .recoverVoterControl ninthOfOne .abort]

theorem reachable_preparingVoter : preparingVoter.Reachable :=
  (reachable_voterAt (Option.some_get _).symm).call _

end Bootstrap

end MoreConsensus
