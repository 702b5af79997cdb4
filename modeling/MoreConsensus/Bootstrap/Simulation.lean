import MoreConsensus.Bootstrap.Votes
import MoreConsensus.Shifts.Start

/-!
# The node underneath a plan

The plane acts on the protocol through the calls of `Host`, with one exception in the source: when
the Prepare of a new plan cannot be proposed, the counter of the owner is set back. It never
happens, since all that a proposal of a control needs has been checked by then
(`err_proposeMembershipAt_iff`, `err_prepare`). So a node with plans refines the node underneath:
all that is done to it, the node underneath does by calls of its own (`Follows.exists_run`).
-/

set_option autoImplicit false

namespace MoreConsensus

open Library

/-! ### Proposals of controls -/

namespace RawNode

variable {n : RawNode} {ref : InstanceRef}

theorem cfg_of_settings {m : RawNode} (hsettings : m.settings = n.settings) : m.cfg = n.cfg :=
  congrArg Prod.snd hsettings

theorem Shifts.tick {m : RawNode} (hshifts : Shifts .handler n m) : m.tick = n.tick :=
  hshifts.thins.tick

/-- A configuration with voters is known under its id. -/
theorem confFor_currentConf {id : ReplicaID} (hvoter : n.currentConf.contains id = true) :
    n.confFor n.currentConf.id = n.currentConf := by
  unfold currentConf confFor lookupConf at hvoter ⊢
  cases hget : n.confHistory.get? n.current with
  | none => simp [hget, ConfState.contains] at hvoter
  | some conf => simp [hget]

theorem schedule_eq_none_iff (n : RawNode) (ref : InstanceRef) (kind : TimerKind) (after : ℕ) :
    (n.schedule ref kind after).2 = none ↔
      (checkedLogicalDeadline n.tick after).isSome = true := by
  unfold schedule
  cases checkedLogicalDeadline n.tick after <;> cases n.instances.get? ref <;> simp

theorem length_computeAttrsAt (n : RawNode) (cmd : Command) (exclude : InstanceRef)
    (processAt : ℕ) (timed : Bool) :
    (n.computeAttrsAt cmd exclude processAt timed).deps.length =
      (n.votersForConf exclude.conf).length := by
  unfold computeAttrsAt
  dsimp only
  split_ifs <;> simp

/-- A new instance leaves the configurations as they are. -/
theorem confHistory_installInstance (n : RawNode) {inst : Instance}
    (hstatus : inst.record.status < .committed) :
    (n.installInstance inst).confHistory = n.confHistory := by
  have hopen : decide (Status.committed ≤ inst.record.status) = false :=
    decide_eq_false (not_le.mpr hstatus)
  have hunexecuted : inst.record.status ≠ .executed := ne_of_lt (hstatus.trans (by decide))
  simp only [installInstance, hopen, hunexecuted, Bool.false_eq_true, if_false]
  split <;> rfl

theorem confHistory_enqueueRecord (n : RawNode) (rec : InstanceRecord) :
    (n.enqueueRecord rec).confHistory = n.confHistory := by
  have hready (m : RawNode) (f : Ready → Ready) :
      (m.modifyReady f).confHistory = m.confHistory := by
    unfold modifyReady
    split <;> rfl
  have hrequest (m : RawNode) (ref : InstanceRef) :
      (m.requestRecordLoad ref).confHistory = m.confHistory := by
    unfold requestRecordLoad
    split
    · rfl
    · exact hready ..
  have hdefer : (n.deferRecordLoadRequiredWithoutMessage rec.ref).confHistory = n.confHistory := by
    simp only [deferRecordLoadRequiredWithoutMessage, deferRecordLoadWith, Option.isSome_none,
      Bool.and_false, Bool.false_and, Bool.false_eq_true, if_false, hrequest]
  unfold enqueueRecord
  split
  · unfold updateRecordLoad
    split <;> exact hdefer
  · exact hready ..

/-- The owner of a lane can propose in it alone, or if there is time for a retry. -/
theorem err_installProposal_iff {rec : InstanceRecord} (hstatus : rec.status < .committed)
    (hdeps : rec.deps.length = (n.confFor rec.ref.conf).voters.length)
    (hvoter : (n.confFor rec.ref.conf).contains n.id = true) :
    (n.installProposal rec).2 = none ↔
      (slowQuorumSize (n.confFor rec.ref.conf).voters.length ≠ 1 →
        (checkedLogicalDeadline n.tick n.cfg.retryTicks).isSome = true) := by
  have hvotes : ∀ vote : AttrVote, VoteSet.add ∅ (n.confFor rec.ref.conf) n.id vote =
      some (FiniteMap.insert ∅ n.id vote) := fun vote ↦ by
    simp [VoteSet.add, hvoter, FiniteMap.contains]
  unfold installProposal
  simp only [newAttrVote, hdeps, if_true, Option.bind_some, hvotes]
  have hstatus' : rec.status ≠ .executed := ne_of_lt (hstatus.trans (by decide))
  have hinstalled : Shifts .handler n (n.installInstance
      { record := rec, phase := .preAccept, processAt := rec.processAt
        preOK := FiniteMap.insert ∅ n.id ⟨rec.seq, rec.deps,
          n.committedDepsMask rec.attributes rec.ref.conf, true⟩ }) :=
    (Shifts.refl n).installInstance hstatus' (.of_empty rfl rfl rfl) rfl
  have hevent : (Event.proposed rec.ref rec.value).plain = true := rfl
  have hlogged := (hinstalled.note hevent).enqueueRecord rec
  have hsent := hlogged.broadcastPreAccept rec.ref
  have hquorum (m : RawNode) (hhistory : m.confHistory = n.confHistory) :
      m.slowQuorumForConf rec.ref.conf =
        slowQuorumSize (n.confFor rec.ref.conf).voters.length := by
    rw [slowQuorumForConf, votersForConf, confFor, lookupConf, hhistory]
    rfl
  have hhistory := (confHistory_enqueueRecord ((n.installInstance
      { record := rec, phase := .preAccept, processAt := rec.processAt
        preOK := FiniteMap.insert ∅ n.id ⟨rec.seq, rec.deps,
          n.committedDepsMask rec.attributes rec.ref.conf, true⟩ }).note
      (.proposed rec.ref rec.value)) rec).trans (n.confHistory_installInstance hstatus)
  rw [hquorum _ hhistory]
  split
  · rename_i hone
    exact iff_of_true rfl fun hne ↦ absurd hone hne
  · rename_i hmany
    rw [schedule_eq_none_iff, hsent.tick, cfg_of_settings hlogged.widen.turns.settings]
    exact ⟨fun htime _ ↦ htime, fun htime ↦ htime hmany⟩

/-- The owner of a lane can propose a valid control under a reference that has this control already,
or is free while there is time for a retry. -/
theorem err_proposeMembershipAt_iff {control : Bytes}
    (hcontains : (n.confFor ref.conf).contains n.id = true)
    (hvalid : n.entryValueValidForConfiguration { kind := .membership, protocolControl := control }
      ref (n.confFor ref.conf) = true) :
    (n.proposeMembershipAt ref control).2 = none ↔
      (∀ rec, n.record? ref = some rec →
        rec.value = { kind := .membership, protocolControl := control }) ∧
      (n.record? ref = none → slowQuorumSize (n.confFor ref.conf).voters.length ≠ 1 →
        (checkedLogicalDeadline n.tick n.cfg.retryTicks).isSome = true) := by
  unfold proposeMembershipAt
  dsimp only
  rw [hvalid, Bool.not_true, if_neg Bool.false_ne_true]
  cases hrecord : n.record? ref with
  | some existing => simp
  | none =>
    have hstatus : Status.preAccepted < Status.committed := by decide
    rw [err_installProposal_iff hstatus (length_computeAttrsAt ..) hcontains]
    simp

/-- What a proposal of a control reads of a node. -/
def basis (n : RawNode) :
    (ReplicaID × Config) × ℕ × FiniteMap ConfID VoterSet × FiniteMap InstanceRef Instance :=
  (n.settings, n.tick, n.confHistory, n.instances)

theorem cfg_of_basis {m : RawNode} (hbasis : m.basis = n.basis) : m.cfg = n.cfg :=
  cfg_of_settings (congrArg Prod.fst hbasis)

theorem basis_modifyReady (n : RawNode) (f : Ready → Ready) :
    (n.modifyReady f).basis = n.basis := by
  unfold modifyReady
  split <;> rfl

theorem basis_reserve (n : RawNode) (membership : Membership) (floor : InstanceNum) :
    (n.reserve membership floor).basis = n.basis :=
  basis_modifyReady ..

theorem basis_publish (n : RawNode) (records : List BootstrapRecord)
    (frontiers : List FrontierUpdate) (messages : List BootstrapMessage) :
    (n.publish records frontiers messages).basis = n.basis :=
  basis_modifyReady ..

end RawNode

namespace Bootstrap

/-- A command that carries what its operation needs is read back as it was written. -/
theorem Codec.decode_encodeMembershipCommand {codec : Codec} {command : MembershipCommand}
    {control : Bytes} (hencode : codec.encodeMembershipCommand command = .ok control)
    (hplan : validateVoterPlan codec.domainDigest command.plan = .ok ())
    (hshape : commandShape command = true) :
    codec.decodeMembershipCommand control = .ok command ∧ control ≠ [] ∧
      control.length ≤ maxBootstrapPayload := by
  rw [encodeMembershipCommand] at hencode
  cases hbytes : codec.encodeCommand command with
  | none => simp [hbytes] at hencode
  | some bytes =>
    rw [hbytes] at hencode
    obtain rfl := Except.ok.inj hencode
    refine ⟨?_, codec.encode_length command _ hbytes⟩
    rw [decodeMembershipCommand, codec.decode_encode command _ hbytes]
    simp only [hplan, hshape]
    rfl

/-- The reserved references are proper ones of the base configuration. -/
theorem ControlReservations.refOf_of_validFor {refs : ControlReservations} {base : ConfState}
    (hvalid : refs.validFor base = true) (operation : MembershipOperation) :
    (refs.refOf operation).conf = base.id ∧ (refs.refOf operation).replica ≠ 0 ∧
      (refs.refOf operation).inst ≠ 0 := by
  rw [validFor] at hvalid
  split at hvalid
  · cases hvalid
  · rename_i hshape
    simp only [Bool.or_eq_true, decide_eq_true_eq, not_or, not_not] at hshape
    simp only [Bool.and_eq_true, decide_eq_true_eq] at hvalid
    obtain ⟨⟨⟨⟨⟨⟨⟨hreplica, hinst⟩, hconf⟩, hactivate⟩, habort⟩, hactivateConf⟩, habortConf⟩, -⟩ :=
      hshape
    cases operation with
    | prepare => exact ⟨hconf, hreplica, hinst⟩
    | activate => exact ⟨hactivateConf, hactivate.trans_ne hreplica, by simp [refOf, hvalid.1]⟩
    | abort => exact ⟨habortConf, habort.trans_ne hreplica, by simp [refOf, hvalid.2]⟩

/-- What a proposal of a control needs of the node underneath: the node is a voter of the base of
the plan, the reference is free or has the control already, and a control that is new and needs
other voters has time for a retry. -/
structure VoterNode.Open (node : VoterNode) (plan : VoterPlan) (ref : InstanceRef)
    (control : Bytes) : Prop where
  base : node.raw.confFor plan.request.base.id = plan.request.base
  voter : plan.request.base.contains node.raw.id = true
  free : ∀ rec, node.raw.record? ref = some rec →
    rec.value = { kind := .membership, protocolControl := control }
  time : node.raw.record? ref = none → slowQuorumSize plan.request.base.voters.length ≠ 1 →
    (checkedLogicalDeadline node.raw.tick node.raw.cfg.retryTicks).isSome = true

theorem VoterNode.Open.congr {node next : VoterNode} {plan : VoterPlan} {ref : InstanceRef}
    {control : Bytes} (hopen : node.Open plan ref control)
    (hbasis : next.raw.basis = node.raw.basis) : next.Open plan ref control := by
  have hsettings : next.raw.settings = node.raw.settings := congrArg Prod.fst hbasis
  have htick : next.raw.tick = node.raw.tick := congrArg (fun basis ↦ basis.2.1) hbasis
  have hhistory : next.raw.confHistory = node.raw.confHistory :=
    congrArg (fun basis ↦ basis.2.2.1) hbasis
  have hinstances : next.raw.instances = node.raw.instances :=
    congrArg (fun basis ↦ basis.2.2.2) hbasis
  have hid : next.raw.id = node.raw.id := congrArg Prod.fst hsettings
  have hconf (id : ConfID) : next.raw.confFor id = node.raw.confFor id := by
    simp only [RawNode.confFor, RawNode.lookupConf, hhistory]
  have hrecord : next.raw.record? ref = node.raw.record? ref := by
    rw [RawNode.record?, RawNode.record?, hinstances]
  refine ⟨(hconf _).trans hopen.base, hid ▸ hopen.voter, hrecord ▸ hopen.free, ?_⟩
  rw [hrecord, htick, RawNode.cfg_of_settings hsettings]
  exact hopen.time

section Propose

variable {node : VoterNode} {command : MembershipCommand} {control : Bytes}
  (hcontrol : node.raw.cfg.decodeControl = node.codec.control)
  (hencode : node.codec.encodeMembershipCommand command = .ok control)
  (hplan : validateVoterPlan node.codec.domainDigest command.plan = .ok ())
  (hshape : Codec.commandShape command = true)
  (hactivation : command.operation = .activate → node.codec.activationValid command = true)

include hencode hplan hshape hactivation

/-- The encoding of a valid command is read as a control of its reference. -/
theorem Codec.control_ne_invalid :
    node.codec.control (command.plan.reservations.refOf command.operation) control ≠ .invalid := by
  obtain ⟨hdecode, -⟩ := node.codec.decode_encodeMembershipCommand hencode hplan hshape
  obtain ⟨voters, hvoters, -⟩ := exists_voterSet (valid_of_validate hplan).successor
  rw [Codec.control, hdecode]
  simp only [ne_eq, not_true_eq_false, if_false]
  cases hoperation : command.operation with
  | prepare => simp
  | abort => simp
  | activate => simp [hactivation hoperation, hvoters]

include hcontrol

theorem VoterNode.entryValueValid_membership (conf : ConfState) :
    node.raw.entryValueValidForConfiguration { kind := .membership, protocolControl := control }
      (command.plan.reservations.refOf command.operation) conf = true := by
  obtain ⟨-, hne, hlength⟩ := node.codec.decode_encodeMembershipCommand hencode hplan hshape
  have hreads := Codec.control_ne_invalid hencode hplan hshape hactivation
  have hcanonical : entryValueCanonical .membership {} {} control = true := by
    have hempty : commandEmpty {} = true := by decide
    simp only [entryValueCanonical, hempty, beq_self_eq_true, Bool.true_and, Bool.and_eq_true,
      decide_eq_true_eq]
    exact ⟨by simpa using hne, hlength⟩
  simp only [RawNode.entryValueValidForConfiguration, hcanonical, hcontrol, Bool.true_and]

/-- A valid command can be proposed where it belongs exactly if the node is open for it. -/
theorem VoterNode.err_proposeMembershipAt_iff
    (hlocal : (command.plan.reservations.refOf command.operation).replica = node.raw.id) :
    (node.proposeMembershipAt (command.plan.reservations.refOf command.operation) control).2 =
        none ↔
      node.Open command.plan (command.plan.reservations.refOf command.operation) control := by
  obtain ⟨hdecode, -⟩ := node.codec.decode_encodeMembershipCommand hencode hplan hshape
  obtain ⟨hconf, hreplica, hinst⟩ :=
    ControlReservations.refOf_of_validFor (valid_of_validate hplan).reservations command.operation
  have hvalid := entryValueValid_membership hcontrol hencode hplan hshape hactivation
  generalize href : command.plan.reservations.refOf command.operation = ref at *
  have hbelongs : node.codec.membershipCommandValidForRef control ref (node.raw.confFor ref.conf) =
      decide (command.plan.request.base = node.raw.confFor command.plan.request.base.id) := by
    rw [Codec.membershipCommandValidForRef, hdecode, hconf]
    simp [href]
  rw [proposeMembershipAt, hbelongs]
  by_cases hbase : command.plan.request.base = node.raw.confFor command.plan.request.base.id
  · rw [decide_eq_true hbase, Bool.not_true, if_neg Bool.false_ne_true]
    have hfor : node.raw.confFor ref.conf = command.plan.request.base := by rw [hconf, ← hbase]
    have howns : node.raw.ownsRef ref = command.plan.request.base.contains node.raw.id := by
      rw [RawNode.ownsRef, hfor, Message.validRef, Bool.eq_iff_iff]
      simp [hlocal, hlocal ▸ hreplica, hinst, hconf]
    have hproposed : (node.raw.call (.proposeMembershipAt ref control)).2 = none ↔
        node.Open command.plan ref control := by
      rw [RawNode.call, howns, hlocal]
      by_cases hvoter : command.plan.request.base.contains node.raw.id = true
      · have hiff := RawNode.err_proposeMembershipAt_iff (n := node.raw.beginDrive)
          (hfor ▸ hvoter) (hvalid (node.raw.confFor ref.conf))
        simp only [hvoter, Bool.true_and, decide_true, if_true]
        exact hiff.trans ⟨fun hfree ↦ ⟨hbase.symm, hvoter, hfree.1, hfor ▸ hfree.2⟩,
          fun hopen ↦ ⟨hopen.free, hfor.symm ▸ hopen.time⟩⟩
      · simp only [hvoter, Bool.false_and, Bool.false_eq_true, if_false]
        exact iff_of_false (by simp) fun hopen ↦ hvoter hopen.voter
    rw [← hproposed]
    generalize node.raw.call (.proposeMembershipAt ref control) = result
    obtain ⟨raw, err⟩ := result
    cases err with
    | none => exact iff_of_true rfl rfl
    | some err => cases err <;> exact iff_of_false (Option.some_ne_none _) (Option.some_ne_none _)
  · rw [decide_eq_false hbase]
    exact iff_of_false (by simp) fun hopen ↦ hbase hopen.base.symm

end Propose

namespace VoterNode

/-! ### Runs of the node underneath -/

/-- A node comes from another by calls of the node underneath, and what the plane is built on
stays. -/
structure Follows (start node : VoterNode) : Prop where
  codec : node.codec = start.codec
  exists_run : ∃ calls, node.raw = start.raw.run calls

variable {start node next : VoterNode}

namespace Follows

theorem refl (node : VoterNode) : Follows node node := ⟨rfl, [], rfl⟩

section

variable (hfollows : Follows start node)

include hfollows

/-- Only plans change. -/
theorem keep (hcodec : next.codec = node.codec)
    (hraw : next.raw = node.raw) : Follows start next :=
  ⟨hcodec.trans hfollows.codec, hraw ▸ hfollows.exists_run⟩

theorem withPlans (plans : FiniteMap BootstrapID BootstrapState) :
    Follows start { node with plans := plans } := hfollows.keep rfl rfl

theorem call (c : Call) (hcodec : next.codec = node.codec)
    (hraw : next.raw = (node.raw.call c).1) : Follows start next := by
  obtain ⟨calls, hcalls⟩ := hfollows.exists_run
  refine ⟨hcodec.trans hfollows.codec, calls ++ [c], ?_⟩
  rw [hraw, hcalls, RawNode.run, RawNode.run, List.foldl_append]
  rfl

theorem attempt {α : Type} {checks : Except Fault α}
    {act : α → VoterNode × Option Fault} (hact : ∀ value, Follows start (act value).1) :
    Follows start (node.attempt checks act).1 :=
  attempt_ind hfollows fun value _ ↦ hact value

theorem sync : Follows start node.sync :=
  hfollows.call (.reserve _ 0) rfl rfl

theorem enqueueBootstrapRecord (state : BootstrapState) :
    Follows start (node.enqueueBootstrapRecord state) :=
  sync (hfollows.call (.publish [_] [] []) rfl rfl)

theorem enqueueFrontierUpdate (frontier : BootstrapFrontier) :
    Follows start (node.enqueueFrontierUpdate frontier) :=
  hfollows.call (.publish [] [_] []) rfl rfl

theorem enqueueBootstrapAfterAdvance (plan : BootstrapID)
    (message : Option BootstrapMessage) (unfence : Bool) :
    Follows start (node.enqueueBootstrapAfterAdvance plan message unfence) :=
  hfollows.keep rfl rfl

theorem sendBootstrapMessage (message : BootstrapMessage) :
    Follows start (node.sendBootstrapMessage message) :=
  hfollows.call (.publish [] [] [_]) rfl rfl

theorem restoreBootstrapRecord {record : BootstrapRecord}
    (hrestore : node.restoreBootstrapRecord record = .ok next) : Follows start next := by
  rw [VoterNode.restoreBootstrapRecord, unit_bind_eq_ok] at hrestore
  obtain ⟨-, hrestore⟩ := hrestore
  split at hrestore
  · rw [refuseIf_bind_eq_ok] at hrestore
    exact Except.ok.inj hrestore.2 ▸ hfollows
  · rw [refuseIf_bind_eq_ok] at hrestore
    rw [← Except.ok.inj hrestore.2]
    exact sync (hfollows.call (.reserve _ _) rfl rfl)

end

/-! #### Executed controls -/

section

variable (hfollows : Follows start node)

include hfollows

theorem applyPrepare (plan : VoterPlan) :
    Follows start (node.applyPrepare plan) := by
  have hprepared {known : VoterNode} (hknown : Follows start known) :
      Follows start ((known.planState plan).elim known fun state ↦
        if BootstrapPhase.prepared.number ≤ state.record.phase.number then known
        else known.enqueueBootstrapRecord
          { state with record := { state.record with phase := .prepared } }) := by
    cases known.planState plan with
    | none => exact hknown
    | some state =>
      dsimp only [Option.elim_some]
      split
      · exact hknown
      · exact hknown.enqueueBootstrapRecord _
  rw [VoterNode.applyPrepare]
  split
  · exact hfollows
  · rename_i known hrestored
    split at hrestored
    · exact hprepared (Except.ok.inj hrestored ▸ hfollows)
    · exact hprepared (hfollows.restoreBootstrapRecord hrestored)

theorem applyAbort (ref : InstanceRef)
    (command : MembershipCommand) : Follows start (node.applyAbort ref command) := by
  rw [VoterNode.applyAbort]
  cases node.planState command.plan with
  | none => exact hfollows
  | some state =>
    dsimp only [Option.elim_some]
    split
    · exact hfollows
    · exact (hfollows.enqueueBootstrapRecord _).enqueueBootstrapAfterAdvance _ _ _

theorem applyActivate (ref : InstanceRef)
    (command : MembershipCommand) : Follows start (node.applyActivate ref command) := by
  rw [VoterNode.applyActivate]
  cases node.planState command.plan with
  | none => exact hfollows
  | some state =>
    dsimp only [Option.elim_some]
    split
    · exact hfollows
    · have hactivated : Follows start { node with
          voterIdentities := node.voterIdentities.insert command.plan.request.target.replica
            command.plan.request.target
          closed := node.closed.insert ref.conf ⟨command.plan.request.base,
            command.snapshot.descriptor.frontier, command.plan.reservations,
            command.fenceDigest⟩ } := hfollows.keep rfl rfl
      split
      · exact hactivated.enqueueBootstrapRecord _
      · exact (hactivated.enqueueBootstrapRecord _).enqueueBootstrapAfterAdvance _ _ _

theorem applyMembershipControl (entry : InstanceRef × Bytes) :
    Follows start (node.applyMembershipControl entry) := by
  rw [VoterNode.applyMembershipControl]
  split
  · exact hfollows
  · split
    · exact hfollows
    · rename_i command _
      cases command.operation with
      | prepare => exact hfollows.applyPrepare _
      | activate => exact hfollows.applyActivate _ _
      | abort => exact hfollows.applyAbort _ _

/-- A call of the node underneath, with what the controls it executed do to the plans. -/
theorem settle {c : Call} {raw : RawNode}
    (hraw : (node.raw.call c).1 = raw) : Follows start (node.settle raw) := by
  rw [VoterNode.settle]
  have hcalled : Follows start { node with raw := raw } := hfollows.call c rfl hraw.symm
  generalize executedControls node.raw raw = controls
  generalize { node with raw := raw } = known at hcalled
  induction controls generalizing known with
  | nil => exact hcalled
  | cons entry rest ih => exact ih _ (hcalled.applyMembershipControl entry)

end

/-! #### Calls -/

section

variable (hfollows : Follows start node)

include hfollows

theorem proposeMembershipAt (ref : InstanceRef)
    (control : Bytes) : Follows start (node.proposeMembershipAt ref control).1 := by
  rw [VoterNode.proposeMembershipAt]
  split
  · exact hfollows
  · split <;> rename_i hcall <;> exact hfollows.settle (congrArg Prod.fst hcall)

theorem closeWith (state : BootstrapState)
    (closed : ClosedConfig) : Follows start (node.closeWith state closed) := by
  have hclosed : Follows start { node with
      closed := node.closed.insert closed.conf.id closed } := hfollows.keep rfl rfl
  exact (hclosed.enqueueBootstrapRecord _).enqueueFrontierUpdate _

theorem beginVoterFence (plan : VoterPlan) :
    Follows start (node.beginVoterFence plan).1 := by
  rw [VoterNode.beginVoterFence]
  split
  · exact hfollows
  · split
    · exact hfollows
    · exact hfollows.attempt fun _ ↦
        (hfollows.closeWith _ _).enqueueBootstrapAfterAdvance _ _ _

theorem adoptFenceQuorum (state : BootstrapState)
    (certificate : FenceQuorum) : Follows start (node.adoptFenceQuorum state certificate).1 := by
  rw [VoterNode.adoptFenceQuorum]
  refine hfollows.attempt fun value ↦ ?_
  dsimp only
  split
  · rename_i hcall
    exact hfollows.call _ rfl (congrArg Prod.fst hcall).symm
  · rename_i raw hcall
    have hcalled : Follows start { node with raw := raw } :=
      hfollows.call _ rfl (congrArg Prod.fst hcall).symm
    dsimp only
    have hall (messages : List BootstrapMessage) {known : VoterNode}
        (hknown : Follows start known) : Follows start (messages.foldl (fun node message ↦
          node.enqueueBootstrapAfterAdvance state.record.plan.request.plan (some message) false)
            known) := by
      induction messages generalizing known with
      | nil => exact hknown
      | cons message rest ih => exact ih (hknown.enqueueBootstrapAfterAdvance _ _ _)
    exact hall _ (hcalled.closeWith _ _)

theorem applyFenceQuorum (certificate : FenceQuorum) :
    Follows start (node.applyFenceQuorum certificate).1 := by
  rw [VoterNode.applyFenceQuorum]
  split
  · exact hfollows
  · refine hfollows.attempt fun _ ↦ ?_
    split
    · exact hfollows
    · exact hfollows.adoptFenceQuorum _ _

theorem recordTargetReady (plan : VoterPlan)
    (proof : VoterReadyProof) : Follows start (node.recordTargetReady plan proof).1 := by
  rw [VoterNode.recordTargetReady]
  split
  · exact hfollows
  · refine hfollows.attempt fun _ ↦ ?_
    split
    · exact hfollows
    · exact hfollows.attempt fun _ ↦
        (hfollows.enqueueBootstrapRecord _).enqueueBootstrapAfterAdvance _ _ _

theorem activateVoter (plan : VoterPlan)
    (snapshot : SnapshotCertificate) (ready : ReadyCertificate) :
    Follows start (node.activateVoter plan snapshot ready).1 := by
  rw [VoterNode.activateVoter]
  split
  · exact hfollows
  · exact hfollows.attempt fun _ ↦ (hfollows.enqueueBootstrapRecord _).proposeMembershipAt _ _

theorem abortVoter (plan : VoterPlan) :
    Follows start (node.abortVoter plan).1 := by
  rw [VoterNode.abortVoter]
  split
  · exact hfollows
  · split
    · exact hfollows
    · split
      · exact hfollows
      · exact hfollows.attempt fun _ ↦ (hfollows.enqueueBootstrapRecord _).proposeMembershipAt _ _

theorem recoverVoterControl (plan : VoterPlan)
    (exit : BootstrapExit) : Follows start (node.recoverVoterControl plan exit).1 := by
  unfold VoterNode.recoverVoterControl
  split
  · exact hfollows
  · split
    · exact hfollows
    · refine hfollows.attempt fun _ ↦ ?_
      dsimp only
      split <;> rename_i hcall <;> exact hfollows.settle (congrArg Prod.fst hcall)

end

/-! #### Messages -/

section

variable (hfollows : Follows start node)

include hfollows

theorem handleFenceAck (state : BootstrapState)
    (sender : ReplicaID) (fence : LocalAdmissionFence) :
    Follows start (node.handleFenceAck state sender fence).1 := by
  rw [VoterNode.handleFenceAck]
  split
  · exact hfollows
  · split
    · exact hfollows
    · dsimp only
      split
      · exact hfollows.withPlans _
      · exact (hfollows.withPlans _).attempt fun certificate ↦
          (hfollows.withPlans _).applyFenceQuorum certificate

theorem handleSnapshotVote (state : BootstrapState)
    (sender : ReplicaID) (descriptor : SnapshotDescriptor)
    (acknowledgement : VoterAcknowledgement) :
    Follows start (node.handleSnapshotVote state sender descriptor acknowledgement).1 := by
  rw [VoterNode.handleSnapshotVote]
  split
  · exact hfollows
  · split
    dsimp only
    split
    · exact hfollows.withPlans _
    · exact hfollows.withPlans _
    · exact (hfollows.withPlans _).enqueueBootstrapRecord _

theorem handleInstallProof (state : BootstrapState)
    (snapshot : SnapshotCertificate) (proof : VoterReadyProof) :
    Follows start (node.handleInstallProof state snapshot proof).1 := by
  rw [VoterNode.handleInstallProof]
  split
  · exact (hfollows.enqueueBootstrapRecord _).recordTargetReady _ _
  · exact hfollows.recordTargetReady _ _

theorem handleReadyAck (state : BootstrapState)
    (sender : ReplicaID) (acknowledgement : VoterAcknowledgement) :
    Follows start (node.handleReadyAck state sender acknowledgement).1 := by
  rw [VoterNode.handleReadyAck]
  split
  · exact hfollows
  · split
    dsimp only
    split
    · exact hfollows.withPlans _
    · exact hfollows.withPlans _
    · exact (hfollows.withPlans _).enqueueBootstrapRecord _

theorem handleReadyResponse (state : BootstrapState)
    (certificate : ReadyCertificate) :
    Follows start (node.handleReadyResponse state certificate).1 := by
  rw [VoterNode.handleReadyResponse]
  split
  · exact hfollows
  · exact hfollows.enqueueBootstrapRecord _

theorem handleBootstrap (state : BootstrapState)
    (message : BootstrapMessage) : Follows start (node.handleBootstrap state message).1 := by
  unfold VoterNode.handleBootstrap
  split
  · split
    · exact hfollows.beginVoterFence _
    · exact hfollows
  · exact hfollows.attempt fun _ ↦ hfollows.handleFenceAck _ _ _
  · exact hfollows.applyFenceQuorum _
  · exact hfollows.attempt fun _ ↦ hfollows.attempt fun _ ↦ hfollows.handleSnapshotVote _ _ _ _
  · exact hfollows.attempt fun _ ↦ hfollows
  · exact hfollows.attempt fun _ ↦ hfollows.attempt fun _ ↦ hfollows.handleInstallProof _ _ _
  · exact hfollows.attempt fun _ ↦ hfollows
  · split
    · exact hfollows
    · split
      · exact hfollows.attempt fun _ ↦ hfollows.handleReadyAck _ _ _
      · exact hfollows
  · exact hfollows.attempt fun _ ↦ hfollows.sendBootstrapMessage _
  · exact hfollows.attempt fun _ ↦ hfollows.handleReadyResponse _ _
  · exact hfollows
  · exact hfollows
  · exact hfollows

end

/-! #### Acknowledged batches -/

section

variable (hfollows : Follows start node)

include hfollows

theorem noteDurable (record : BootstrapRecord) :
    Follows start (node.noteDurable record) := by
  rw [VoterNode.noteDurable]
  split
  · exact hfollows
  · split
    · exact hfollows
    · exact hfollows.keep rfl rfl

theorem discharge (action : BootstrapDurabilityAction) :
    Follows start (node.discharge action) := by
  have hmessage {known : VoterNode} (hknown : Follows start known) :
      Follows start (action.message.elim known known.sendBootstrapMessage) := by
    cases action.message with
    | none => exact hknown
    | some message => exact hknown.sendBootstrapMessage message
  rw [VoterNode.discharge]
  split
  · exact hmessage hfollows
  · exact hmessage (hfollows.keep rfl rfl)

theorem applyBootstrapDurability
    (records : List BootstrapRecord) : Follows start (node.applyBootstrapDurability records) := by
  have hnoted : Follows start (records.foldl VoterNode.noteDurable node) := by
    induction records generalizing node with
    | nil => exact hfollows
    | cons record rest ih => exact ih (hfollows.noteDurable record)
  have hdischarged (actions : List BootstrapDurabilityAction) {known : VoterNode}
      (hknown : Follows start known) :
      Follows start (actions.foldl VoterNode.discharge known) := by
    induction actions generalizing known with
    | nil => exact hknown
    | cons action rest ih => exact ih (hknown.discharge action)
  exact sync (hdischarged _ (hnoted.keep rfl rfl))

theorem callNode (c : Call) :
    Follows start (node.callNode c).1 := by
  unfold VoterNode.callNode
  split
  case h_6 rd =>
    split
    · exact hfollows
    · rename_i raw hcall
      have hqueued : Follows start { node with
          queued := node.queued.drop rd.bootstrapRecords.length } := hfollows.keep rfl rfl
      exact (hqueued.settle (c := .advance rd) (congrArg Prod.fst hcall)).applyBootstrapDurability _
  case h_7 => exact hfollows.settle rfl
  all_goals exact hfollows

end

end Follows

/-! ### Prepares -/

theorem basis_enqueueBootstrapRecord (node : VoterNode) (state : BootstrapState) :
    (node.enqueueBootstrapRecord state).raw.basis = node.raw.basis :=
  (RawNode.basis_reserve ..).trans (RawNode.basis_publish ..)

theorem basis_registerPlan (node : VoterNode) (plan : VoterPlan) :
    (node.registerPlan plan).raw.basis = node.raw.basis :=
  (basis_enqueueBootstrapRecord _ _).trans (RawNode.basis_reserve ..)

/-- A Prepare can always be proposed once the checks of a new plan have passed. -/
theorem err_prepare {request : PrepareVoterRequest} {plan : VoterPlan} {control : Bytes}
    (hcontrol : node.raw.cfg.decodeControl = node.codec.control)
    (hvoter : node.raw.requireLocalVoter = true)
    (hplan : node.newPlan request = .ok (plan, control)) :
    ((node.registerPlan plan).proposeMembershipAt plan.reservations.prepare control).2 = none := by
  obtain ⟨htime, hbase, hlocal, hfree, hvalid, hencode⟩ := newPlan_eq_ok hplan
  have hbasis := node.basis_registerPlan plan
  have hmember : node.raw.currentConf.contains node.raw.id = true := by
    simp only [RawNode.requireLocalVoter, Bool.and_eq_true] at hvoter
    exact hvoter.1
  have hknown : node.raw.confFor plan.request.base.id = plan.request.base := by
    rw [hbase]
    exact RawNode.confFor_currentConf hmember
  have hopen : node.Open plan plan.reservations.prepare control := by
    refine ⟨hknown, hbase ▸ hmember, fun rec hrec ↦ ?_, fun _ _ ↦ htime⟩
    rw [FiniteMap.contains, Option.isSome_eq_false_iff, Option.isNone_iff_eq_none] at hfree
    rw [RawNode.record?, hfree] at hrec
    cases hrec
  have hdecodes : (node.registerPlan plan).raw.cfg.decodeControl = node.codec.control := by
    rw [RawNode.cfg_of_basis hbasis, hcontrol]
  refine (err_proposeMembershipAt_iff hdecodes hencode hvalid rfl (by rintro ⟨⟩) ?_).mpr
    (hopen.congr hbasis)
  exact hlocal.trans (congrArg Prod.fst (congrArg Prod.fst hbasis)).symm

theorem Follows.prepareVoter {start : VoterNode} (hfollows : Follows start node)
    (hcontrol : node.raw.cfg.decodeControl = node.codec.control)
    (request : PrepareVoterRequest) : Follows start (node.prepareVoter request).1 := by
  rw [VoterNode.prepareVoter]
  split
  · exact hfollows
  · rename_i hvoter
    split
    · exact hfollows
    · split
      · exact hfollows.attempt fun _ ↦ hfollows
      · refine attempt_ind hfollows fun value hplan ↦ ?_
        obtain ⟨plan, control⟩ := value
        have hreserved : Follows start { node with
            byBase := node.byBase.insert plan.request.base.id plan.request.plan
            raw := node.raw.reserve node.raw.membership (plan.reservations.abort.inst + 1) } :=
          hfollows.call (.reserve _ _) rfl rfl
        have hregistered : Follows start (node.registerPlan plan) :=
          hreserved.enqueueBootstrapRecord _
        have herr := err_prepare hcontrol (by simpa using hvoter) hplan
        have hproposed := hregistered.proposeMembershipAt plan.reservations.prepare control
        dsimp only
        split
        · rename_i proposed heq
          rwa [heq] at hproposed
        · rename_i proposed fault heq
          rw [heq] at herr
          cases herr

/-! ### Every call -/

theorem Follows.voterCall (hcontrol : node.raw.cfg.decodeControl = node.codec.control)
    (call : VoterCall) : Follows node (node.call call).1 := by
  have hrefl := Follows.refl node
  cases call with
  | node call => exact hrefl.callNode call
  | prepareVoter request => exact hrefl.prepareVoter hcontrol request
  | beginVoterFence plan => exact hrefl.beginVoterFence plan
  | applyFenceQuorum certificate => exact hrefl.applyFenceQuorum certificate
  | recordTargetReady plan proof => exact hrefl.recordTargetReady plan proof
  | activateVoter plan snapshot ready => exact hrefl.activateVoter plan snapshot ready
  | abortVoter plan => exact hrefl.abortVoter plan
  | recoverVoterControl plan exit => exact hrefl.recoverVoterControl plan exit
  | stepBootstrap message authenticated =>
    exact hrefl.attempt fun state ↦ hrefl.handleBootstrap state message

/-- Calls keep the controls readable. -/
theorem Follows.control (hfollows : Follows start node)
    (hcontrol : start.raw.cfg.decodeControl = start.codec.control) :
    node.raw.cfg.decodeControl = node.codec.control := by
  obtain ⟨calls, hcalls⟩ := hfollows.exists_run
  rw [hcalls, RawNode.cfg_of_settings (RawNode.settings_run ..), hfollows.codec, hcontrol]

/-- The node underneath reads the controls as the plane writes them. -/
theorem Reachable.control (hnode : Reachable node) :
    node.raw.cfg.decodeControl = node.codec.control := by
  induction hnode with
  | boot hraw hcontrol hboot =>
    have hfollows := foldlM_keeps (fun hstart hrestore ↦
      Follows.restoreBootstrapRecord hstart hrestore) (Follows.refl _) hboot
    refine hfollows.control ?_
    have hsettings := RawNode.settings_newRawNode hraw
    rw [← hcontrol]
    exact congrArg (fun settings ↦ settings.2.decodeControl) hsettings
  | call _ call ih => exact (Follows.voterCall ih call).control ih

end VoterNode

end Bootstrap

end MoreConsensus
