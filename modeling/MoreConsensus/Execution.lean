import MoreConsensus.Phases
import MoreConsensus.Library.Components

/-!
# Execution

`epaxos/sparse_progress.go` and the configuration changes of `epaxos/node.go`: a pass over the
committed instances finds the strongly connected components of the dependency graph, executes those
whose dependencies are discharged, and repeats until nothing moves; what blocks a component is
recovered. Passes nest through `drive` only in configurations of one voter, and each has a workspace
of its own here.
-/

set_option autoImplicit false

namespace MoreConsensus

open Library

/-! ### Configuration changes -/

def confChangeQuorumFrom (conf : ConfState) (change : ConfChange) : Option VoterSet :=
  match change.type with
  | .addVoter =>
    if change.replica = 0 || conf.contains change.replica then none
    else newQuorum (conf.voters ++ [change.replica])
  | .removeVoter =>
    if conf.contains change.replica then
      newQuorum (conf.voters.filter fun id ↦ id != change.replica)
    else none
  | .unset => none

namespace RawNode

def entryValueValidForConfiguration (n : RawNode) (value : EntryValue) (ref : InstanceRef)
    (conf : ConfState) : Bool :=
  entryValueCanonical value.kind value.command value.confChange value.protocolControl &&
    match value.kind with
    | .command | .noop | .checkpoint => true
    | .confChange => ref.conf != maxUint64 && (confChangeQuorumFrom conf value.confChange).isSome
    | .membership => match n.cfg.decodeControl ref value.protocolControl with
      | .invalid => false
      | _ => true
    | .unset => false

/-- The voters after a configuration change of a base configuration. -/
def confChangeSuccessor (n : RawNode) (ref : InstanceRef) (change : ConfChange) (base : ConfState) :
    Option VoterSet :=
  if n.entryValueValidForConfiguration { kind := .confChange, confChange := change } ref base then
    confChangeQuorumFrom base change
  else none

def activateTOQRuntime (n : RawNode) (conf : ConfState) : RawNode :=
  if !n.cfg.toqEnabled then n
  else { n with toqActive := (n.toqRuntimes.get? conf.id).filter fun runtime ↦
    runtime.conf.voters == conf.voters }

/-- Makes a successor of the current configuration current. -/
def enterSuccessor (n : RawNode) (ref : InstanceRef) (successor : VoterSet) (eligible : Bool) :
    RawNode :=
  if ref.conf ≠ n.current then n
  else
    let conf : ConfState := ⟨ref.conf + 1, successor.voters⟩
    let n := { n with current := ref.conf + 1 }.activateTOQRuntime conf
    { n with currentHardState := { n.currentHardState with conf := conf },
             localVoter := ⟨conf, eligible⟩ }

def applyConfChange (n : RawNode) (ref : InstanceRef) (change : ConfChange) :
    RawNode × ConfChangeResult :=
  let apply : RawNode × ConfChangeResult :=
    match n.lookupConf ref.conf with
    | none => (n, { outcome := .rejectedInvalid })
    | some base =>
      match n.confChangeSuccessor ref change base with
      | none => (n, { outcome := .rejectedInvalid })
      | some successor =>
        if n.appliedConfByBase.contains ref.conf || n.confHistory.contains (ref.conf + 1) then
          (n, { outcome := .rejectedSuperseded })
        else
          let conf : ConfState := ⟨ref.conf + 1, successor.voters⟩
          let changed := decide (ref.conf = n.current)
          let n := { n with confHistory := n.confHistory.insert (ref.conf + 1) successor
                            appliedConfByBase := n.appliedConfByBase.insert ref.conf ref }
          let n := n.enterSuccessor ref successor (conf.contains n.id)
          let n := if changed && n.cfg.cluster then
            n.modifyReady fun ready ↦
              { ready with localVoterState := some n.localVoter, mustSync := true,
                           configHistory := ready.configHistory ++ [⟨conf, ref⟩] } else n
          (n, ⟨.applied, conf⟩)
  (apply.1.refreshPendingConf.note (.reconfigured ref change apply.2), apply.2)

/-- No plan has a base configuration without voters, so a control of an unknown configuration is
invalid. -/
def applyMembershipControl (n : RawNode) (ref : InstanceRef) (control : Bytes) :
    RawNode × ConfChangeResult :=
  match if (n.lookupConf ref.conf).isNone then .invalid else n.cfg.decodeControl ref control with
  | .invalid => (n, {})
  | .prepare plan =>
    ({ n with membership := { n.membership with plans := plan :: n.membership.plans } }, {})
  | .abort plan =>
    if !n.membership.plans.contains plan then (n, {})
    else if n.membership.terminal.contains plan then (n, { outcome := .rejectedSuperseded })
    else ({ n with membership :=
      { n.membership with terminal := plan :: n.membership.terminal } }, {})
  | .activate plan successor =>
    let conf : ConfState := ⟨ref.conf + 1, successor.voters⟩
    let clash := (n.lookupConf (ref.conf + 1)).elim false fun existing ↦ existing != conf
    if !n.membership.plans.contains plan then (n, {})
    else if n.membership.terminal.contains plan || n.appliedConfByBase.contains ref.conf || clash
    then (n, { outcome := .rejectedSuperseded })
    else
      let changed := decide (ref.conf = n.current)
      let n :=
        { n with confHistory := n.confHistory.insert (ref.conf + 1) successor
                 appliedConfByBase := n.appliedConfByBase.insert ref.conf ref
                 membership := { n.membership with terminal := plan :: n.membership.terminal } }
      let n := n.enterSuccessor ref successor true
      let n := n.modifyReady fun ready ↦
        { ready with configHistory := ready.configHistory ++ [⟨conf, ref⟩], mustSync := true,
                     localVoterState := if changed then some n.localVoter
                       else ready.localVoterState }
      (n, ⟨.applied, conf⟩)

/-! ### The dependency graph -/

/-- Whether an instance may be executed: it is committed and not executed yet. -/
def isExecutable (n : RawNode) (ref : InstanceRef) : Bool :=
  !n.executed.contains ref &&
    (n.record? ref).elim false fun rec ↦ decide (Status.committed ≤ rec.status)

def isCheckpoint (n : RawNode) (ref : InstanceRef) : Bool :=
  (n.record? ref).elim false fun rec ↦ rec.kind == .checkpoint

/-- The references of the view that the dependency vector of an instance covers, by slot. -/
def dependencyRefs (n : RawNode) (view : List InstanceRef) (base : InstanceRef) :
    List InstanceRef :=
  match n.record? base with
  | none => []
  | some rec =>
    ((n.votersForConf base.conf).zip rec.deps).flatMap fun slot ↦
      view.filter fun ref ↦ decide (laneFor ref = ⟨base.conf, slot.1⟩) &&
        decide (ref.inst ≤ slot.2) && ref != base

/-- The edges of the execution graph. A dependency known to come after the base is left out, except
at a checkpoint. -/
def executionEdges (n : RawNode) (view : List InstanceRef) (base : InstanceRef) :
    List InstanceRef :=
  (n.dependencyRefs view base).filter fun dependency ↦ n.isExecutable dependency &&
    (n.isCheckpoint base || n.isCheckpoint dependency ||
      !n.dependencyKnownAfter base dependency .committed)

def executionComponents (n : RawNode) (view : List InstanceRef) : List (List InstanceRef) :=
  components (n.executionEdges view) (view.length + 1) (view.filter n.isExecutable)

/-! ### Readiness -/

/-- An instance to recover, with what asked for it. -/
structure RecoveryCandidate where
  source : RecoverySource
  ref : InstanceRef
  deriving BEq, ReflBEq, LawfulBEq, Repr, Inhabited

instance : DecidableEq RecoveryCandidate := instDecidableEqOfLawfulBEq

/-- Whether a covered instance no longer holds the base back. -/
def discharged (n : RawNode) (base : InstanceRef) (inside : List InstanceRef) (ref : InstanceRef) :
    Bool :=
  ref == base || inside.contains ref || n.executed.contains ref ||
    ((n.record? ref).elim false (fun rec ↦ decide (Status.committed ≤ rec.status)) &&
      n.dependencyKnownAfter base ref .committed)

/-- The first instance of a lane prefix that holds the base back. -/
def firstPrefixBlocker (n : RawNode) (base : InstanceRef) (lane : InstanceLane)
    (through : InstanceNum) (inside : List InstanceRef) : Option InstanceRef :=
  let start := n.executed.throughOf lane
  ((List.range (through - start)).map fun offset ↦ lane.ref (start + 1 + offset)).find? fun ref ↦
    !n.discharged base inside ref

/-- Whether a blocker has to be recovered; a committed one is only waited for. -/
def needsRecovery (n : RawNode) (ref : InstanceRef) : Bool :=
  (n.record? ref).elim true fun rec ↦ decide (rec.status < .committed)

/-- Uncommitted instances of the view that conflict with the base and are not known to follow it. -/
def unresolvedKnownConflicts (n : RawNode) (view : List InstanceRef) (base : InstanceRef)
    (inside : List InstanceRef) : List InstanceRef :=
  match n.record? base with
  | none => []
  | some rec => view.filter fun other ↦ other != base && !inside.contains other &&
      !n.executed.contains other && (n.record? other).elim false fun otherRec ↦
        otherRec.status != .none && decide (otherRec.status < .committed) &&
          recordsConflict rec otherRec && !n.dependencyKnownAfter base other .preAccepted

/-- The blockers of one member: whether it is ready, and what to recover. -/
def memberReady (n : RawNode) (view inside : List InstanceRef) (base : InstanceRef) :
    Bool × List RecoveryCandidate :=
  let conflicts := n.unresolvedKnownConflicts view base inside
  let fromConflicts := conflicts.map fun other ↦
    (⟨{ kind := .fromConflict, base := base, conflict := other }, other⟩ : RecoveryCandidate)
  match n.record? base with
  | none => (false, fromConflicts)
  | some rec =>
    let slots := (n.votersForConf base.conf).zip rec.deps
    let blockers := slots.filterMap fun slot ↦
      let lane : InstanceLane := ⟨base.conf, slot.1⟩
      (n.firstPrefixBlocker base lane slot.2 inside).map fun ref ↦ (lane, ref)
    let fromPrefixes := (blockers.filter fun blocker ↦ n.needsRecovery blocker.2).map fun blocker ↦
      (⟨{ kind := .fromPrefix, base := base, lane := blocker.1 }, blocker.2⟩ : RecoveryCandidate)
    (conflicts.isEmpty && blockers.isEmpty, fromConflicts ++ fromPrefixes)

def componentReady (n : RawNode) (view component : List InstanceRef) :
    Bool × List RecoveryCandidate :=
  let members := (component.insertionSort (· ≤ ·)).map (n.memberReady view component)
  (members.all Prod.fst, members.flatMap Prod.snd)

/-! ### Recovery of dependencies -/

inductive RecoveryResult
  | resolved | inFlight | deferred | started
  deriving DecidableEq, Repr, Inhabited

def recoverySourceLess (left right : RecoverySource) : Bool :=
  let rank := fun (kind : RecoverySourceKind) ↦ if kind = .fromPrefix then 1 else 2
  if left.kind ≠ right.kind then decide (rank left.kind < rank right.kind)
  else if left.base ≠ right.base then decide (left.base < right.base)
  else if left.lane ≠ right.lane then decide (left.lane < right.lane)
  else decide (left.conflict < right.conflict)

def recoveryCandidateLess (left right : RecoveryCandidate) : Bool :=
  if left.source ≠ right.source then recoverySourceLess left.source right.source
  else decide (left.ref < right.ref)

/-- Takes an instance out of memory and out of the conflict engine. -/
def dropInstance (n : RawNode) (ref : InstanceRef) : RawNode :=
  { n with instances := n.instances.erase ref
           engine := (n.record? ref).elim n.engine (n.engine.remove ref) }

section Drive

variable (drive : RawNode → RawNode)

def ensureDependencyRecovery (n : RawNode) (ref : InstanceRef) (mayStart : Bool) :
    RawNode × RecoveryResult :=
  let inst := n.instances.get? ref
  let committed := inst.elim false fun inst ↦ decide (Status.committed ≤ inst.record.status)
  let running := inst.elim false fun inst ↦ n.coordinatesInstance inst &&
    (inst.phase == .preAccept || inst.phase == .accept || inst.phase == .prepare ||
      inst.phase == .tryPreAccept)
  if ref.isZero || ref.inst = 0 || n.executed.contains ref || committed then (n, .resolved)
  else if running then (n, .inFlight)
  else if !mayStart then (n, .deferred)
  else if inst.elim false n.promisedToOtherCoordinator then (n, .deferred)
  else if !n.shouldCoordinateRecovery ref then ((n.scheduleRecovery ref).1, .deferred)
  else
    let blank : InstanceRecord := { ref := ref, deps := n.depsForConf ref.conf }
    let n := if inst.isSome then n else n.installInstance { record := blank }
    match n.startPrepare drive ref with
    | (n, none) => (n.observeInstanceRef ref, .started)
    | (n, some _) =>
      (if inst.isSome then n else (n.dropInstance ref).note (.dropped ref),
        .deferred)

/-- Starts recoveries in the given order while the budget of the drive and the bound on concurrent
recoveries last. -/
def startRecoveries (n : RawNode) (active : ℕ) : List RecoveryCandidate → RawNode
  | [] => n
  | candidate :: rest =>
    if n.dependencyRecoveryStartsLeft = 0 || n.cfg.maxConcurrentRecoveries ≤ active then n
    else match n.ensureDependencyRecovery drive candidate.ref true with
      | (n, .started) =>
        startRecoveries
          { n with dependencyRecoveryStartsLeft := n.dependencyRecoveryStartsLeft - 1
                   lastRecoverySource := some candidate.source } (active + 1) rest
      | (n, _) => startRecoveries n active rest

/-- The candidates in order, without repetitions, beginning after the last served source. -/
def rotateCandidates (n : RawNode) (candidates : List RecoveryCandidate) :
    List RecoveryCandidate :=
  let sorted := candidates.insertionSort fun left right ↦ !recoveryCandidateLess right left
  let unique := sorted.dedup
  match n.lastRecoverySource with
  | none => unique
  | some last =>
    let start := unique.takeWhile fun candidate ↦ !recoverySourceLess last candidate.source
    unique.drop start.length ++ start

def scheduleDependencyRecoveries (n : RawNode) (candidates : List RecoveryCandidate) : RawNode :=
  if candidates.isEmpty || n.dependencyRecoveryStartsLeft = 0 ||
      n.cfg.maxConcurrentRecoveries = 0 then n
  else n.startRecoveries drive n.activeRecoveryCount (n.rotateCandidates candidates)

def maybeStartDependencyRecovery (n : RawNode) (ref : InstanceRef) : RawNode × RecoveryResult :=
  if n.dependencyRecoveryStartsLeft = 0 || n.cfg.maxConcurrentRecoveries ≤ n.activeRecoveryCount
  then n.ensureDependencyRecovery drive ref false
  else match n.ensureDependencyRecovery drive ref true with
    | (n, .started) =>
      ({ n with dependencyRecoveryStartsLeft := n.dependencyRecoveryStartsLeft - 1 }, .started)
    | other => other

/-! ### Checkpoint barriers -/

def currentExecutionFrontier (n : RawNode) : ExecutionFrontier :=
  ⟨n.confHistory.entries.map fun entry ↦
    ⟨entry.1, entry.2.voters.map fun voter ↦ ⟨voter, n.executed.throughOf ⟨entry.1, voter⟩⟩⟩⟩

/-- The first instance of a prefix that a checkpoint component has to wait for. -/
def firstUnclosed (n : RawNode) (members : List InstanceRef) (base : InstanceRef)
    (lane : InstanceLane) (through : InstanceNum) (allowKnownAfter : Bool) : Option InstanceRef :=
  ((List.range through).map fun offset ↦ lane.ref (offset + 1)).find? fun ref ↦
    !(members.contains ref || n.executed.contains ref ||
      (allowKnownAfter && !n.isCheckpoint base && (n.record? base).isSome && !n.isCheckpoint ref &&
        (n.record? ref).isSome && n.dependencyKnownAfter base ref .committed))

/-- Checks prefixes one after the other and starts recovering what is missing. -/
def checkPrefixes (members : List InstanceRef) (base : InstanceRef) :
    List (InstanceLane × InstanceNum × Bool) → RawNode × Bool → RawNode × Bool
  | [], state => state
  | (lane, through, allowKnownAfter) :: rest, (n, closed) =>
    match n.firstUnclosed members base lane through allowKnownAfter with
    | none => checkPrefixes members base rest (n, closed)
    | some ref => checkPrefixes members base rest ((n.maybeStartDependencyRecovery drive ref).1,
        false)

def checkpointComponentClosed (n : RawNode) (component : List InstanceRef) : RawNode × Bool :=
  component.foldl (fun state ref ↦
    let state := checkPrefixes drive component ref [(laneFor ref, ref.inst, false)] state
    match state.1.record? ref with
    | none => (state.1, false)
    | some rec =>
      let slots := ((state.1.votersForConf ref.conf).zip rec.deps).map fun slot ↦
        ((⟨ref.conf, slot.1⟩ : InstanceLane), slot.2, true)
      checkPrefixes drive component ref slots state) (n, true)

def beginCheckpoint (n : RawNode) (barrier : InstanceRecord) : RawNode :=
  let through := n.currentExecutionFrontier
  let request : CheckpointRequest :=
    ⟨deriveCheckpointID (checkpointBarrierTupleDigest barrier) through, through⟩
  if n.checkpointRound.elim false fun round ↦ round.request.id == request.id then n
  else
    { n with checkpointRound := some { barrier := barrier.ref, request := request }
             executionPaused := true }.modifyReady fun ready ↦
      { ready with checkpoint := some request }

/-! ### The execution pass -/

def entryCycleKey (rec : InstanceRecord) : Bytes :=
  if rec.kind = .command then rec.command.cycleKey else []

/-- The order of execution inside a component: sequence number, cycle key, reference. -/
def executesBefore (left right : InstanceRecord) : Bool :=
  if left.seq ≠ right.seq then decide (left.seq < right.seq)
  else if entryCycleKey left ≠ entryCycleKey right then
    bytesLess (entryCycleKey left) (entryCycleKey right)
  else decide (left.ref ≤ right.ref)

def executionOrder (n : RawNode) (component : List InstanceRef) : List InstanceRef :=
  component.insertionSort fun left right ↦
    executesBefore ((n.record? left).getD {}) ((n.record? right).getD {})

/-- The instances covered by the dependencies of a member that are neither executed, nor in its
component, nor committed with a larger sequence number and dependencies that cover the member. Only
the history variable keeps them. -/
def heldBy (n : RawNode) (component : List InstanceRef) (ref : InstanceRef)
    (rec : InstanceRecord) : List InstanceRef :=
  ((n.votersForConf ref.conf).zip rec.deps).flatMap fun slot ↦
    ((List.range slot.2).map fun offset ↦ (⟨slot.1, offset + 1, ref.conf⟩ : InstanceRef)).filter
      fun covered ↦ !(n.executed.contains covered || component.contains covered ||
        (n.record? covered).elim false fun other ↦ decide (Status.committed ≤ other.status) &&
          decide (rec.seq < other.seq) && n.attrsDependsOn other.attributes ref covered.conf)

/-- Executes one member of a component. An instance of no kind is only marked. -/
def executeMember (component : List InstanceRef) (n : RawNode) (ref : InstanceRef) : RawNode :=
  match n.instances.get? ref with
  | none => n
  | some inst =>
    if n.executed.contains ref then n
    else
      let held := n.heldBy component ref inst.record
      let n := { n with executed := n.executed.add ref }.note (.executed ref component held)
      let record : InstanceRecord := { inst.record with status := .executed }
      let n := match record.kind with
        | .command => (n.setInstanceRecord ref record).enqueueApply
            ⟨ref, record.seq, record.deps, record.command⟩
        | .confChange =>
          let (n, result) := n.applyConfChange ref record.confChange
          let record := { record with confChangeResult := result }
          (n.setInstanceRecord ref record).enqueueRecord record
        | .membership =>
          let (n, result) := n.applyMembershipControl ref record.protocolControl
          let record := { record with confChangeResult := result }
          (n.setInstanceRecord ref record).enqueueRecord record
        | .noop | .checkpoint => (n.setInstanceRecord ref record).enqueueRecord record
        | .unset => n
      n.updateInstance ref releaseInstanceVolatile

/-- The state of a pass: whether anything was executed, what to recover, and whether a checkpoint
barrier ended it. -/
structure Pass where
  node : RawNode
  progress : Bool := false
  candidates : List RecoveryCandidate := []
  stopped : Bool := false

/-- The last barrier of a component that this pass executes. -/
def barrierOf (n : RawNode) (component : List InstanceRef) : Option InstanceRecord :=
  ((component.filter fun ref ↦ n.isCheckpoint ref && !n.executed.contains ref).getLast?).bind
    n.record?

def executeComponent (view : List InstanceRef) (pass : Pass) (component : List InstanceRef) :
    Pass :=
  if pass.stopped then pass
  else
    let ready := pass.node.componentReady view component
    let pass := { pass with candidates := pass.candidates ++ ready.2 }
    if !ready.1 then pass
    else
      let closed := if component.any pass.node.isCheckpoint then
        pass.node.checkpointComponentClosed drive component else (pass.node, true)
      let n := closed.1
      let pass := { pass with node := n }
      if !closed.2 then pass
      else
        let order := n.executionOrder component
        let executed := order.foldl (executeMember component) n
        let progress := pass.progress || order.any fun ref ↦ !n.executed.contains ref
        match n.barrierOf order with
        | none => { pass with node := executed, progress := progress }
        | some barrier =>
          { pass with node := executed.beginCheckpoint { barrier with status := .executed },
                      progress := progress, stopped := true }

/-- Passes are repeated while they execute something; each executes an instance of the view. -/
def executePasses (view : List InstanceRef) : ℕ → RawNode → RawNode
  | 0, n => n
  | bound + 1, n =>
    let pass := (n.executionComponents view).foldl (executeComponent drive view)
        ⟨n, false, [], false⟩
    if pass.stopped then pass.node
    else if pass.progress then executePasses view bound pass.node
    else pass.node.scheduleDependencyRecoveries drive pass.candidates

end Drive

/-- The execution pass of the source; the argument bounds how deep passes nest. -/
def tryExecute : ℕ → RawNode → RawNode
  | 0, n => n
  | nesting + 1, n =>
    if n.executionPaused then n
    else n.executePasses (tryExecute nesting) n.instances.keys (n.instances.keys.length + 1)

end RawNode

end MoreConsensus
