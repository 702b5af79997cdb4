import MoreConsensus.Recovery

/-!
# Proposals, timers and deferred PreAccepts

The entry points of `epaxos/node.go` that no message triggers. Every entry point renews the recovery
budget and hands the work on to the handlers, which end in an execution pass (`runExecution`). The
source also checks beforehand that no 64-bit counter would run out during the call; those checks are
left out, and nothing else depends on them.
-/

set_option autoImplicit false

namespace MoreConsensus

open Library

namespace RawNode

/-- The execution pass that ends a call. -/
def runExecution (n : RawNode) : RawNode := tryExecute n.cfg.nesting n

def beginDrive (n : RawNode) : RawNode :=
  { n with dependencyRecoveryStartsLeft := n.cfg.maxDependencyRecoveriesPerDrive }

/-! ### Eligibility and timing domains -/

/-- The eligibility that counts: the durable one in a cluster with identities. -/
def eligibility (n : RawNode) : LocalVoterState :=
  if n.cfg.cluster then n.durableLocalVoter else n.localVoter

def requireLocalVoter (n : RawNode) : Bool :=
  n.currentConf.contains n.id && n.eligibility.isEligible n.currentConf

def requireLocalVoterForConf (n : RawNode) (conf : ConfState) : Bool :=
  conf.contains n.id &&
    (n.eligibility.isEligible conf || decide (conf.id < n.eligibility.conf.id))

def timingDomainEnabled (n : RawNode) : TimingDomain → Bool
  | .untimed => !n.cfg.timeOptimization && !n.cfg.toqEnabled
  | .logical => n.cfg.timeOptimization
  | .toq => n.cfg.toqEnabled

/-- Entries that are never timed. -/
def untimedKind (kind : EntryKind) : Bool :=
  kind == .noop || kind == .membership || kind == .checkpoint

def messageTimingDomainEnabled (n : RawNode) (m : Message) : Bool :=
  let domain := timingDomainFromMessage m
  n.timingDomainEnabled domain || untimedKind m.kind ||
    (domain == .untimed && (m.type == .accept || m.type == .commit) &&
      (n.record? m.ref).elim false fun rec ↦
        rec.timingDomain != .untimed && rec.command == m.command)

/-! ### Deferred PreAccepts -/

/-- The number of deferred PreAccepts. -/
def deferredCount (n : RawNode) : ℕ := n.deferred.index.entries.length

def admitDeferredPreAccept (n : RawNode) (domain : PreAcceptDomain) (m : Message) :
    RawNode × Option Err :=
  match hexisting : n.deferred.index.get? (deferredKeys.key domain m) with
  | some existing => (n, if existing = m then none else some .invalidMessage)
  | none =>
    if n.cfg.maxDeferredPreAccepts ≤ n.deferredCount then (n, some .deferredQueueFull)
    else ({ n with deferred := n.deferred.push domain m hexisting }, none)

/-- Whether a PreAccept would replace a resident record. -/
def wouldReplaceInstance (n : RawNode) (m : Message) (current : InstanceRecord) (ordered : Bool) :
    Bool :=
  if Status.committed ≤ current.status || m.ballot < current.ballot then false
  else if m.ballot = current.ballot && !samePreAccept current m then false
  else if current.status = .accepted then false
  else if current.status = .preAccepted && m.ballot = current.ballot &&
      current.timingDomain = timingDomainFromMessage m then false
  else current.status != .preAccepted || current != n.preAcceptRecord m ordered

/-- Queues a PreAccept whose processing time has not come; `none` when it is to be handled now. -/
def deferPreAccept (n : RawNode) (m : Message) : Option (RawNode × Option Err) :=
  let kept := (n.record? m.ref).elim false fun current ↦ !n.wouldReplaceInstance m current true
  if !m.ballot.isInitialFor m.ref.replica || kept then none
  else if m.toq then
    if n.toqClosedThrough.elim false fun closed ↦ decide (m.processAt ≤ closed) then none
    else some (n.admitDeferredPreAccept .toq m)
  else if n.cfg.timeOptimization && n.tick < m.processAt then
    some (n.admitDeferredPreAccept .logical m)
  else none

/-- Whether a queued PreAccept is the owner's own vote. -/
def isLocalTOQ (n : RawNode) (m : Message) : Bool :=
  m.toq && m.source == n.id && m.target == n.id && m.ref.replica == n.id

/-- What is checked about a queued PreAccept before it is handled. A message that needs a payload is
deferred here already. -/
def deferredPreAcceptStateError (n : RawNode) (m : Message) : RawNode × Option Err :=
  if n.isLocalTOQ m then (n, none)
  else match n.record? m.ref with
    | none => (n, none)
    | some rec =>
      if Status.committed ≤ rec.status then
        match n.requirePayload m.ref m with
        | some deferred => deferred
        | none =>
          (n, if rec.recordBallot = m.ballot && !samePreAccept rec m then some .invalidMessage
            else none)
      else (n, if m.ballot = rec.ballot && !samePreAccept rec m then some .invalidMessage else none)

/-- Handles a PreAccept taken from its queue. -/
def handleDeferred (n : RawNode) (m : Message) : RawNode × Option Err :=
  match n.deferredPreAcceptStateError m with
  | (n, some err) => (n, some err)
  | (n, none) =>
    if n.isLocalTOQ m then (n.handleLocalTOQPreAccept runExecution m, none)
    else n.handlePreAccept m true

/-- Takes a PreAccept from its queue. -/
def detachDeferredPreAcceptEntry (n : RawNode) (domain : PreAcceptDomain) (m : Message) : RawNode :=
  { n with deferred := n.deferred.detach (deferredKeys.key domain m)
           taken := n.taken ++ [(domain, m)] }

/-- Handles the queued PreAccepts that are due. The bound is the size of the heap, which every round
shortens. -/
def processDeferred (domain : PreAcceptDomain) (now : ℕ) :
    ℕ → RawNode × Option Err → RawNode × Option Err
  | 0, state => state
  | bound + 1, (n, firstErr) =>
    match n.deferred.peek domain with
    | none => (n, firstErr)
    | some m =>
      if now < m.processAt then (n, firstErr)
      else
        let (n, err) := (n.detachDeferredPreAcceptEntry domain m).handleDeferred m
        processDeferred domain now bound (n, firstErr.or err)

def processDeferredPreAccepts (n : RawNode) (domain : PreAcceptDomain) (now : ℕ) :
    RawNode × Option Err :=
  processDeferred domain now (n.deferred.heap domain).len (n, none)

/-- The caller's clock sample closes the time up to it. -/
def processTOQ (n : RawNode) (now : ℕ) : RawNode × Option Err :=
  if !n.cfg.toqEnabled then (n, some .invalidConfig)
  else if n.toqLastNow.elim false fun last ↦ decide (now < last) then (n, some .toqClockRollback)
  else
    let n := { n.beginDrive with toqLastNow := some now, toqSampleAvailable := true }
    let (n, err) := n.processDeferredPreAccepts .toq now
    let closed := n.toqClosedThrough.elim now fun closed ↦ max closed now
    ({ n with toqClosedThrough := some closed }.runExecution, err)

/-- Timing inputs of a configuration, normalised by the caller's side of the source. -/
def refreshTOQConfig (n : RawNode) (runtime : ToqRuntime) : RawNode × Option Err :=
  if !n.cfg.toqEnabled then (n, some .invalidConfig)
  else
    let known := n.lookupConf runtime.conf.id
    if known.elim (decide (runtime.conf.id ≤ n.current)) fun conf ↦
        conf.voters != runtime.conf.voters then (n, some .toqConfigUnavailable)
    else
      let n := { n with toqRuntimes := n.toqRuntimes.insert runtime.conf.id runtime }
      (if runtime.conf.id = n.current then n.activateTOQRuntime n.currentConf else n, none)

/-! ### Proposals -/

/-- The first free instance number at or after a candidate. -/
def freeInstance (n : RawNode) : ℕ → InstanceNum → Option InstanceNum
  | 0, _ => none
  | bound + 1, candidate =>
    if !n.instances.contains ⟨n.id, candidate, n.current⟩ then some candidate
    else (instanceSuccessor candidate).bind (freeInstance n bound)

/-- The reference of the next proposal and the counter after it, zero when it is exhausted. -/
def nextLocalRef (n : RawNode) : Option (InstanceRef × InstanceNum) :=
  if n.nextInstance = 0 then none
  else (n.freeInstance (n.instances.entries.length + 1) n.nextInstance).map fun candidate ↦
    (⟨n.id, candidate, n.current⟩, (instanceSuccessor candidate).getD 0)

def nextTOQProcessAt (n : RawNode) (now : ℕ) : Except Err ℕ :=
  match n.toqActive with
  | none => .error .toqConfigUnavailable
  | some runtime =>
    let delays := runtime.group.filterMap fun id ↦
      (runtime.delays.find? fun entry ↦ entry.1 == id).map Prod.snd
    match checkedLogicalAdd now (delays.foldl max 0) with
    | none => .error .toqTimestampOverflow
    | some processAt =>
      match n.toqClosedThrough with
      | none => .ok processAt
      | some closed =>
        if closed < processAt then .ok processAt
        else (checkedLogicalAdd closed 1).elim (.error .toqTimestampOverflow) .ok

/-- The processing time of a proposal, zero when it is not timed. -/
def proposalTime (n : RawNode) (kind : EntryKind) : Except Err ℕ :=
  if kind = .noop || kind = .checkpoint then .ok 0
  else if n.cfg.toqEnabled then
    if n.cfg.maxDeferredPreAccepts ≤ n.deferredCount then .error .deferredQueueFull
    else match n.toqLastNow.filter fun _ ↦ n.toqSampleAvailable with
      | none => .error .toqConfigUnavailable
      | some now => n.nextTOQProcessAt now
  else if n.cfg.timeOptimization then
    (checkedLogicalAdd n.tick n.cfg.timeOptimizationTicks).elim (.error .logicalTimeExhausted) .ok
  else .ok 0

/-- Installs the owner's record with its own vote, then commits it or asks for votes. -/
def installProposal (n : RawNode) (rec : InstanceRecord) : RawNode × Option Err :=
  let conf := n.confFor rec.ref.conf
  let votes := (newAttrVote conf rec.seq rec.deps
    (n.committedDepsMask rec.attributes rec.ref.conf) true).bind fun vote ↦
      VoteSet.add ∅ conf n.id vote
  match votes with
  | none => (n, some .invalidConfig)
  | some votes =>
    let n := n.installInstance
      { record := rec, phase := .preAccept, preOK := votes, processAt := rec.processAt }
    let n := (n.note (.proposed rec.ref rec.value)).enqueueRecord rec
    if n.slowQuorumForConf rec.ref.conf = 1 then
      (n.commit runExecution rec.ref rec.attributes, none)
    else (n.broadcastPreAccept rec.ref).schedule rec.ref .preAccept n.cfg.retryTicks

/-- A TOQ proposal waits for its own processing time like the copies it sends. -/
def proposeTOQ (n : RawNode) (ref : InstanceRef) (nextInstance : InstanceNum) (value : EntryValue)
    (processAt : ℕ) : RawNode × Option Err :=
  let pending : InstanceRecord :=
    { ref := ref, ballot := { replica := n.id }, deps := n.depsForConf ref.conf, kind := value.kind,
      command := value.command, confChange := value.confChange,
      protocolControl := value.protocolControl, processAt := processAt, timingDomain := .toq,
      toqPending := true }
  match n.admitDeferredPreAccept .toq (n.messageFromRecord .preAccept n.id pending) with
  | (n, some err) => (n, some err)
  | (n, none) =>
    let n := { n with toqSampleAvailable := false, nextInstance := nextInstance }
    let n := n.installInstance { record := pending, phase := .preAccept, processAt := processAt }
    let n := (n.note (.proposed ref value)).enqueueRecord pending
    (n.broadcastPreAccept ref).schedule ref .preAccept n.cfg.retryTicks

def proposeEntry (n : RawNode) (value : EntryValue) : RawNode × Option Err :=
  match n.nextLocalRef with
  | none => (n, some .instanceExhausted)
  | some (ref, nextInstance) =>
    if !n.entryValueValidForConfiguration value ref n.currentConf then (n, some .invalidConfig)
    else if (checkedLogicalDeadline n.tick n.cfg.retryTicks).isNone then
      (n, some .logicalTimeExhausted)
    else match n.proposalTime value.kind with
      | .error err => (n, some err)
      | .ok processAt =>
        if n.cfg.toqEnabled && value.kind ≠ .noop && value.kind ≠ .checkpoint then
          n.proposeTOQ ref nextInstance value processAt
        else
          let n := { n with nextInstance := nextInstance }
          let ordering := if value.kind = .command then value.command
            else { footprint := { all := true } }
          let timed := n.cfg.timeOptimization && decide (0 < processAt)
          let attrs := n.computeAttrsAt ordering ref processAt timed
          (n.noteSkips ordering ref processAt timed).installProposal
            { ref := ref, ballot := { replica := n.id }, recordBallot := { replica := n.id },
              status := .preAccepted, seq := attrs.seq, deps := attrs.deps, kind := value.kind,
              command := value.command, confChange := value.confChange,
              protocolControl := value.protocolControl, fastPathEligible := true,
              processAt := processAt,
              timingDomain := if processAt ≠ 0 then .logical else .untimed }

def residentInstancesExceeded (n : RawNode) : Bool :=
  0 < n.cfg.maxResidentInstances && n.cfg.maxResidentInstances ≤ n.engine.residentCount

/-- Why a client's proposal is refused, if it is. -/
def proposalRefusal (n : RawNode) : Option Err :=
  if n.residentInstancesExceeded then some .residentInstancesExceeded
  else if !n.requireLocalVoter then some .bootstrapEligibility
  else if n.pendingConf then some .pendingConfChange
  else if n.cfg.toqEnabled && n.toqActive.isNone then some .toqConfigUnavailable
  else none

/-- A proposal of a command with a canonical footprint. -/
def propose (n : RawNode) (cmd : Command) : RawNode × Option Err :=
  match n.proposalRefusal with
  | some err => (n, some err)
  | none => n.beginDrive.proposeEntry { kind := .command, command := cmd }

def proposeConfChange (n : RawNode) (change : ConfChange) : RawNode × Option Err :=
  if !n.residentInstancesExceeded && change.type = .addVoter then
    (n, some .voterCertificateRequired)
  else match n.proposalRefusal with
    | some err => (n, some err)
    | none =>
      if n.current = maxUint64 || (confChangeQuorumFrom n.currentConf change).isNone then
        (n, some .invalidConfig)
      else
        match { n.beginDrive with pendingConf := true }.proposeEntry
            { kind := .confChange, confChange := change } with
        | (n, some err) => ({ n with pendingConf := false }, some err)
        | (n, none) => (n, none)

/-! ### Membership controls -/

/-- Proposes a membership control under a reference reserved for this node. -/
def proposeMembershipAt (n : RawNode) (ref : InstanceRef) (control : Bytes) :
    RawNode × Option Err :=
  let value : EntryValue := { kind := .membership, protocolControl := control }
  if !n.entryValueValidForConfiguration value ref (n.confFor ref.conf) then
    (n, some .bootstrapControl)
  else match n.record? ref with
    | some existing => (n, if existing.value = value then none else some .bootstrapControl)
    | none =>
      let attrs := n.computeAttrs { footprint := { all := true } } ref
      n.installProposal
        { ref := ref, ballot := { replica := ref.replica },
          recordBallot := { replica := ref.replica },
          status := .preAccepted, seq := attrs.seq, deps := attrs.deps, kind := .membership,
          protocolControl := control, fastPathEligible := true }

/-- An empty record for a reference of which nothing is known. -/
def installBlank (n : RawNode) (ref : InstanceRef) : RawNode :=
  if n.instances.contains ref then n
  else
    let blank : InstanceRecord := { ref := ref, deps := n.depsForConf ref.conf }
    (n.installInstance { record := blank }).enqueueRecord blank

/-- One reference of a closed configuration: it gets a record and a recovery timer. -/
def closeRef (deadline : ℕ) (n : RawNode) (ref : InstanceRef) : RawNode :=
  let n := n.installBlank ref
  match n.instances.get? ref with
  | none => n
  | some inst =>
    if Status.committed ≤ inst.record.status || inst.phase = .prepare ||
        n.tick < inst.waitDeadline then n
    else ((n.updateInstance ref fun inst ↦ { inst with waitDeadline := deadline }).schedule ref
      .prepare n.cfg.recoveryTicks).1

/-- Recovers the references below the fence of a closed configuration. -/
def scheduleBootstrapClosure (n : RawNode) (refs : List InstanceRef) : RawNode × Option Err :=
  let needed := refs.any fun ref ↦
    (n.record? ref).elim true fun rec ↦ decide (rec.status < .committed)
  match checkedLogicalDeadline n.tick n.cfg.recoveryTicks with
  | none => if needed then (n, some .logicalTimeExhausted) else (n, none)
  | some deadline => (refs.foldl (closeRef deadline) n, none)

/-- Recovers a reserved exit. -/
def recoverVoterControl (n : RawNode) (ref : InstanceRef) : RawNode × Option Err :=
  if !n.requireLocalVoter then (n, some .bootstrapEligibility)
  else if (n.findBootstrapControl ref).isNone then (n, some .bootstrapControl)
  else
    let n := n.installBlank ref
    if (n.record? ref).elim false fun rec ↦ decide (Status.committed ≤ rec.status) then (n, none)
    else n.beginDrive.startPrepare runExecution ref

/-! ### Logical time -/

def rebroadcastCommits (n : RawNode) : RawNode :=
  (n.instances.entries.filter fun entry ↦
    decide (Status.committed ≤ entry.2.record.status)).foldl
      (fun node entry ↦ node.broadcast .commit entry.1) n

/-- Whether the owner has waited long enough to fall back to the slow path. -/
def slowPathDue (n : RawNode) (inst : Instance) : Bool :=
  !inst.record.toqPending && (inst.waitDeadline == 0 || decide (inst.waitDeadline ≤ n.tick)) &&
    decide (n.slowQuorumForConf inst.record.ref.conf ≤
      VoteSet.len inst.preOK (n.confFor inst.record.ref.conf))

/-- Repeats a phase's messages and sets its timer again. -/
def retry (n sent : RawNode) (ref : InstanceRef) (kind : TimerKind) (after : ℕ) :
    RawNode × Option Err :=
  if n.tick = maxUint64 then (sent, none) else sent.schedule ref kind after

/-- A recovery timer of an instance that is not being prepared. -/
def recoverOnTimer (n : RawNode) (inst : Instance) : RawNode × Option Err :=
  let ref := inst.record.ref
  if Status.committed ≤ inst.record.status then (n, none)
  else if !n.shouldCoordinateRecovery ref || n.promisedToOtherCoordinator inst ||
      n.dependencyRecoveryStartsLeft = 0 ||
      n.cfg.maxConcurrentRecoveries ≤ n.activeRecoveryCount then n.scheduleRecovery ref
  else match n.startPrepare runExecution ref with
    | (n, some err) => (n, some err)
    | (n, none) =>
      ({ n with dependencyRecoveryStartsLeft := n.dependencyRecoveryStartsLeft - 1 }, none)

def onTimer (n : RawNode) (inst : Instance) (kind : TimerKind) : RawNode × Option Err :=
  let ref := inst.record.ref
  let votes := attrsFromVotes (n.confFor ref.conf) inst.preOK
  match kind with
  | .fastWait =>
    if inst.phase = .preAccept && n.slowPathDue inst then
      (n.startAccept runExecution ref votes, none)
    else (n, none)
  | .preAccept =>
    if inst.phase ≠ .preAccept then (n, none)
    else if n.slowPathDue inst then (n.startAccept runExecution ref votes, none)
    else n.retry (n.broadcastPreAccept ref) ref .preAccept n.cfg.retryTicks
  | .accept =>
    if inst.phase ≠ .accept then (n, none)
    else n.retry (n.broadcast .accept ref) ref .accept n.cfg.retryTicks
  | .tryPreAccept =>
    if inst.phase ≠ .tryPreAccept then (n, none)
    else match n.failPendingTryEvidenceCheck runExecution inst with
      | some failed => (failed, none)
      | none => n.retry (n.broadcastTryPreAccept ref) ref .tryPreAccept n.cfg.retryTicks
  | .prepare =>
    if inst.phase = .prepare then
      n.retry (n.broadcastPrepare inst.record) ref .prepare n.cfg.recoveryTicks
    else n.recoverOnTimer inst

/-- Fires the timers that are due. The bound is their number, which only falls: a timer set while
they fire is due later. -/
def fireTimers : ℕ → RawNode × Option Err → RawNode × Option Err
  | 0, state => state
  | bound + 1, (n, firstErr) =>
    match n.timers with
    | [] => (n, firstErr)
    | timer :: rest =>
      if n.tick < timer.deadline then (n, firstErr)
      else
        let n := { n with timers := rest }
        match (n.instances.get? timer.ref).filter fun inst ↦
            inst.generation == timer.gen && inst.phase != .committed with
        | none => fireTimers bound (n, firstErr)
        | some inst =>
          let (n, err) := n.onTimer inst timer.kind
          fireTimers bound (n, firstErr.or err)

end RawNode

end MoreConsensus
