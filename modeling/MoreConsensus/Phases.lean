import MoreConsensus.Instances

/-!
# Starting the phases of an instance

`commit`, `startAccept`, `startTryPreAccept` and `startPrepareFrom` of `epaxos/node.go`. In a
configuration of one voter a phase decides at once, so preparing leads to accepting, accepting to
committing, and committing to an execution pass, which may prepare further instances. The circle is
cut there: every function takes the pass that a commit ends with as a parameter, `drive`.
-/

set_option autoImplicit false

namespace MoreConsensus

open Library

namespace RawNode

section Drive

variable (drive : RawNode → RawNode)

/-- Drops what is pending for an instance when it enters a new phase. -/
def clearPending (n : RawNode) (ref : InstanceRef) : RawNode :=
  ((n.cancelTimersForRef ref).dropTryEvidenceChecksForTarget ref).removeDeferredPreAccepts ref

/-- The record a commit leaves. -/
def committedRecord (rec : InstanceRecord) (attrs : Attributes) : InstanceRecord :=
  let kept := if rec.attributes ≠ attrs then clearRecordAcceptEvidence rec else rec
  { kept with status := .committed, seq := attrs.seq, deps := attrs.deps,
              fastPathEligible := false, toqPending := false }

def commit (n : RawNode) (ref : InstanceRef) (attrs : Attributes) : RawNode :=
  match n.instances.get? ref with
  | none => n
  | some inst =>
    if inst.phase = .committed && Status.committed ≤ inst.record.status then n
    else
      let next := committedRecord inst.record attrs
      let n := (n.clearPending ref).setInstance ref fun inst ↦
        { inst with record := next, phase := .committed, generation := inst.generation + 1 }
      let n := ((n.noteCommitted ref).enqueueRecord next).broadcast .commit ref
      drive (n.updateInstance ref releaseInstanceVolatile)

/-- The record with which a coordinator enters the Accept phase, carrying its own evidence. -/
def acceptPhaseRecord (n : RawNode) (rec : InstanceRecord) (attrs : Attributes) : InstanceRecord :=
  let next := n.ensureRecordDeps
    { clearRecordAcceptEvidence rec with
      status := .accepted, seq := attrs.seq, deps := attrs.deps, fastPathEligible := false,
      toqPending := false, recordBallot := rec.ballot }
  let evidence := mergeAttrs next.attributes (n.computeAttrs next.command next.ref)
  mergeOwnAcceptEvidence (mergeAcceptEvidence next evidence) n.id evidence

def startAccept (n : RawNode) (ref : InstanceRef) (attrs : Attributes) : RawNode :=
  match n.instances.get? ref with
  | none => n
  | some inst =>
    if inst.phase = .committed then n
    else
      let n := n.clearPending ref
      let next := n.acceptPhaseRecord inst.record attrs
      let n := n.setInstance ref fun inst ↦
        { releaseInstanceVolatile inst with
          record := next, phase := .accept, generation := inst.generation + 1,
          accOK := VoterMask.addOrKeep [] (n.confFor ref.conf) n.id }
      let n := n.enqueueRecord next
      if n.slowQuorumForConf ref.conf = 1 then n.commit drive ref attrs
      else ((n.broadcast .accept ref).schedule ref .accept n.cfg.retryTicks).1

/-- The record with which a coordinator enters the TryPreAccept phase. -/
def tryPhaseRecord (rec : InstanceRecord) (attrs : Attributes) : InstanceRecord :=
  { clearRecordAcceptEvidence rec with
    status := .preAccepted, seq := attrs.seq, deps := attrs.deps, fastPathEligible := false,
    toqPending := false, recordBallot := rec.ballot }

/-- Whether the coordinator's own Prepare answer is a witness of the tuple it tries. -/
def localPrepareWitness (n : RawNode) (inst : Instance) (attrs : Attributes) : Bool :=
  (VoteSet.get inst.prepareOK (n.confFor inst.record.ref.conf) n.id).elim false fun rec ↦
    rec.fastPathEligible && rec.command == inst.record.command && rec.attributes == attrs

/-- The votes a TryPreAccept starts with: the witnesses, the owner, and this node. -/
def initialTryVotes (n : RawNode) (inst : Instance) (attrs : Attributes) (witnesses : VoterMask) :
    VoterMask :=
  let conf := n.confFor inst.record.ref.conf
  let mask := VoterMask.addOrKeep witnesses conf inst.record.ref.replica
  if n.localPrepareWitness inst attrs then VoterMask.addOrKeep mask conf n.id else mask

def startTryPreAccept (n : RawNode) (ref : InstanceRef) (attrs : Attributes)
    (witnesses : VoterMask) : RawNode :=
  match n.instances.get? ref with
  | none => n
  | some inst =>
    if inst.phase = .committed then n
    else
      let votes := n.initialTryVotes inst attrs witnesses
      let next := tryPhaseRecord inst.record attrs
      let n := (n.clearPending ref).setInstance ref fun inst ↦
        { releaseInstanceVolatile inst with
          record := next, phase := .tryPreAccept, generation := inst.generation + 1,
          tryOK := votes }
      let n := n.enqueueRecord next
      if n.slowQuorumForConf ref.conf ≤ VoterMask.len votes (n.confFor ref.conf) then
        n.startAccept drive ref attrs
      else ((n.broadcastTryPreAccept ref).schedule ref .tryPreAccept n.cfg.retryTicks).1

/-- The value decided for an instance of which a Prepare quorum has none: the generated control of
a reserved reference, otherwise a no-op. `none` when the control cannot be generated. -/
def valueOfNone (n : RawNode) (rec : InstanceRecord) : Option InstanceRecord :=
  let blank := { rec with processAt := 0, timingDomain := .untimed, toqPending := false,
                          command := {}, confChange := {} }
  if (n.findBootstrapControl rec.ref).isSome then
    (n.membershipAllNoneCommand rec.ref).map fun payload ↦
      { blank with kind := .membership, protocolControl := payload }
  else some { blank with kind := .noop, protocolControl := [] }

/-- Adopts a value and starts the Accept phase for it with no dependencies. -/
def acceptNone (n : RawNode) (ref : InstanceRef) (rec : InstanceRecord) : RawNode :=
  let n := n.setInstance ref fun inst ↦ { inst with record := rec, processAt := 0 }
  n.startAccept drive ref ⟨1, n.depsForConf ref.conf⟩

def startPrepareFrom (n : RawNode) (ref : InstanceRef) (base : Ballot) : RawNode × Option Err :=
  match n.instances.get? ref with
  | none => (n, none)
  | some inst =>
    let base := if base.less inst.record.ballot then inst.record.ballot else base
    match base.next n.id with
    | none => (n, some .ballotExhausted)
    | some ballot =>
      if (checkedLogicalDeadline n.tick n.cfg.recoveryTicks).isNone ||
          inst.generation = maxUint64 then (n, some .logicalTimeExhausted)
      else
        let n := (n.cancelTimersForRef ref).dropTryEvidenceChecksForTarget ref
        let promised := { n.ensureRecordDeps inst.record with ballot := ballot }
        let conf := n.confFor ref.conf
        let set := fun (votes : VoteSet InstanceRecord) (generation : ℕ) ↦
          n.updateInstance ref fun inst ↦
            { releaseInstanceVolatile inst with
              record := promised, phase := .prepare, prepareOK := votes, generation := generation }
        match VoteSet.add ∅ conf n.id promised with
        | none => (set ∅ inst.generation, some .invalidConfig)
        | some votes =>
          let n := (set votes (inst.generation + 1)).enqueueRecord promised
          if n.slowQuorumForConf ref.conf = 1 then
            -- the only voter takes its own answer to mean that there is no value
            let n := n.note (.decided ref ballot [(n.id, promised)] .noValue)
            match n.valueOfNone promised with
            | none => (n, some .bootstrapControl)
            | some next => (n.acceptNone drive ref next, none)
          else (n.broadcastPrepare promised).schedule ref .prepare n.cfg.recoveryTicks

def startPrepare (n : RawNode) (ref : InstanceRef) : RawNode × Option Err :=
  n.startPrepareFrom drive ref ((n.record? ref).elim {} InstanceRecord.ballot)

end Drive

end RawNode

end MoreConsensus
