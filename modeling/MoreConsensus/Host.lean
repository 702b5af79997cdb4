import MoreConsensus.Restart

/-!
# Hosts

A host is a replica as an application runs it: a node, its storage and the batch that was stored but
not acknowledged yet. The application stores a batch, then sends its messages and applies its
commands, and only then acknowledges it. After a crash the node is built again from storage. `Call`
lists what an application may ask of a node. A refused call leaves the node as the source leaves it,
so every list of calls or operations is a run.
-/

set_option autoImplicit false

namespace MoreConsensus

open Library

/-- What an application asks of a node. -/
inductive Call
  /-- A client proposes a command, or a configuration change. -/
  | propose (cmd : Command)
  | proposeConfChange (change : ConfChange)
  /-- A message arrives. -/
  | step (m : Message)
  /-- Logical time moves; a clock is sampled; timing inputs change. -/
  | tick
  | processTOQ (now : ℕ)
  | refreshTOQ (runtime : ToqRuntime)
  /-- A batch is taken, and a part of it acknowledged. -/
  | ready
  | advance (rd : Ready)
  /-- The application answers a request. -/
  | provideRecordLoad (ref : InstanceRef) (found : Option LoadedRecord)
  | provideCheckpoint (result : CheckpointResult)
  /-- The membership plane changes its reservations and fences, queues its own records and messages,
  proposes a control in a lane of its own, closes a configuration, or recovers a reserved exit. -/
  | reserve (membership : Membership) (floor : InstanceNum)
  | publish (records : List BootstrapRecord) (frontiers : List FrontierUpdate)
      (messages : List BootstrapMessage)
  | proposeMembershipAt (ref : InstanceRef) (control : Bytes)
  | closeConfig (refs : List InstanceRef)
  | recoverVoterControl (ref : InstanceRef)

namespace RawNode

/-- New reservations and fences, with the counter of the owner moved past them. -/
def reserve (n : RawNode) (membership : Membership) (floor : InstanceNum) : RawNode :=
  { n with membership := membership
           nextInstance := if n.nextInstance = 0 then 0 else max n.nextInstance floor
           allocatorFloor := max n.allocatorFloor floor }.modifyReady fun ready ↦
    { ready with allocatorFloor :=
        if n.allocatorFloor < floor then floor else ready.allocatorFloor }

/-- Queues what the membership plane has to store and to send. -/
def publish (n : RawNode) (records : List BootstrapRecord) (frontiers : List FrontierUpdate)
    (messages : List BootstrapMessage) : RawNode :=
  n.modifyReady fun ready ↦
    { ready with bootstrapRecords := ready.bootstrapRecords ++ records
                 frontierUpdates := ready.frontierUpdates ++ frontiers
                 bootstrapMessages := ready.bootstrapMessages ++ messages }

/-- Whether a reference lies in a lane of a configuration this node votes in, as all references of
the membership plane do. -/
def ownsRef (n : RawNode) (ref : InstanceRef) : Bool :=
  Message.validRef (n.confFor ref.conf) ref && (n.confFor ref.conf).contains n.id

def call (n : RawNode) : Call → RawNode × Option Err
  | .propose cmd => n.propose cmd
  | .proposeConfChange change => n.proposeConfChange change
  | .step m => n.step m
  | .tick => n.advanceTick
  | .processTOQ now => n.processTOQ now
  | .refreshTOQ runtime => n.refreshTOQConfig runtime
  | .ready => (n.ready, none)
  | .advance rd => n.advance rd
  | .provideRecordLoad ref found => n.provideRecordLoad ref found
  | .provideCheckpoint result => n.provideCheckpoint result
  | .reserve membership floor => (n.reserve membership floor, none)
  | .publish records frontiers messages => (n.publish records frontiers messages, none)
  | .proposeMembershipAt ref control =>
    if n.ownsRef ref && ref.replica = n.id then n.beginDrive.proposeMembershipAt ref control
    else (n, some .bootstrapControl)
  | .closeConfig refs => n.scheduleBootstrapClosure (refs.filter n.ownsRef)
  | .recoverVoterControl ref =>
    if n.ownsRef ref then n.recoverVoterControl ref else (n, some .bootstrapEligibility)

def run (n : RawNode) (calls : List Call) : RawNode := calls.foldl (fun n c ↦ (n.call c).1) n

/-- Every call of a run meets a condition on the node it is made on. -/
def RunMeets (P : RawNode → Call → Prop) : RawNode → List Call → Prop
  | _, [] => True
  | n, c :: rest => P n c ∧ RunMeets P (n.call c).1 rest

instance decidableRunMeets (P : RawNode → Call → Prop) [∀ n c, Decidable (P n c)] :
    ∀ (n : RawNode) (calls : List Call), Decidable (RunMeets P n calls)
  | _, [] => inferInstanceAs (Decidable True)
  | n, c :: rest =>
    have := decidableRunMeets P (n.call c).1 rest
    inferInstanceAs (Decidable (_ ∧ _))

end RawNode

/-! ### Hosts -/

/-- A replica: what it was configured with, its node, unless it failed to restart, and its
storage. -/
structure Host where
  id : ReplicaID
  cfg : Config
  base : VoterSet
  node : Option RawNode
  storage : Storage := {}
  /-- The batch that was stored last and waits for its acknowledgement. -/
  stored : Option Ready := none
  /-- The batches stored so far, by all incarnations of the node. -/
  log : List Ready := []
  /-- The batches acknowledged so far, by all incarnations of the node. -/
  acked : List Ready := []
  /-- The journals of all incarnations of the node. -/
  history : List Event := []

/-- What can happen at a host. -/
inductive HostOp
  | call (call : Call)
  /-- A part of the frozen batch is stored and carried out; it is acknowledged. -/
  | persist (rd : Ready)
  | acknowledge
  /-- The application answers a record load from storage. -/
  | load (ref : InstanceRef)
  /-- The node is lost and built again from storage. -/
  | restart

/-- The calls an application makes as it likes; a batch is only acknowledged after it was stored,
and a record load is only answered from storage. -/
def Call.free : Call → Bool
  | .advance _ | .provideRecordLoad _ _ | .reserve _ _ => false
  | _ => true

namespace Host

/-- Replaces the node, moving its journal to the history. -/
def setNode (host : Host) (n : RawNode) : Host :=
  { host with node := some { n with journal := [] }, history := host.history ++ n.journal }

/-- Stores a batch that may be acknowledged. -/
def persist (host : Host) (rd : Ready) : Host :=
  match host.node, host.storage.applyReady rd with
  | some n, some storage =>
    if host.stored.isNone && n.awaitAdvance && n.validateReadyAck rd then
      { host with storage := storage, stored := some rd, log := host.log ++ [rd] }
    else host
  | _, _ => host

/-- Acknowledges the batch that was stored. -/
def acknowledge (host : Host) : Host :=
  match host.node, host.stored with
  | some n, some rd =>
    { host with stored := none, acked := host.acked ++ [rd] }.setNode (n.advance rd).1
  | _, _ => host

def restart (host : Host) : Host :=
  let host := { host with stored := none, node := none }
  match RawNode.newRawNode host.id host.cfg host.base host.storage with
  | none => host
  | some n => host.setNode n

/-- The membership plane stores its reservations and fences at once. -/
def reserve (host : Host) (membership : Membership) (floor : InstanceNum) : Host :=
  { host with
    node := host.node.map fun n ↦ n.reserve membership floor
    storage := { host.storage with
      membership := membership, allocatorFloor := max host.storage.allocatorFloor floor } }

def step (host : Host) : HostOp → Host
  | .call (.reserve membership floor) => host.reserve membership floor
  | .call c => match host.node with
    | none => host
    | some n => if c.free then host.setNode (n.call c).1 else host
  | .persist rd => host.persist rd
  | .acknowledge => host.acknowledge
  | .load ref => match host.node with
    | none => host
    | some n => host.setNode (n.provideRecordLoad ref
      ((host.storage.loadInstance ref).map fun rec ↦ { record := rec })).1
  | .restart => host.restart

def run (host : Host) (ops : List HostOp) : Host := ops.foldl step host

/-- A host that has not stored anything yet. -/
def start (id : ReplicaID) (cfg : Config) (base : VoterSet) : Host :=
  { id := id, cfg := cfg, base := base, node := RawNode.newRawNode id cfg base {} }

/-- The batch that is frozen at a host. -/
def frozen (host : Host) : Ready := host.node.elim {} RawNode.frozenReady

/-! ### What an operation does -/

/-- What an operation can do to a host. -/
inductive Effect (host : Host) : HostOp → Host → Prop
  | skip (op : HostOp) : Effect host op host
  | call {n : RawNode} {c : Call} (hnode : host.node = some n) (hfree : c.free = true) :
      Effect host (.call c) (host.setNode (n.call c).1)
  | reserve (membership : Membership) (floor : InstanceNum) :
      Effect host (.call (.reserve membership floor)) (host.reserve membership floor)
  | persist {n : RawNode} {rd : Ready} {storage : Storage} (hnode : host.node = some n)
      (hstorage : host.storage.applyReady rd = some storage) (hstored : host.stored = none)
      (hawaits : n.awaitAdvance = true) (hvalid : n.validateReadyAck rd = true) :
      Effect host (.persist rd)
        { host with storage := storage, stored := some rd, log := host.log ++ [rd] }
  | acknowledge {n : RawNode} {rd : Ready} (hnode : host.node = some n)
      (hstored : host.stored = some rd) : Effect host .acknowledge
        ({ host with stored := none, acked := host.acked ++ [rd] }.setNode (n.advance rd).1)
  | load {n : RawNode} (ref : InstanceRef) (hnode : host.node = some n) : Effect host (.load ref)
      (host.setNode (n.provideRecordLoad ref
        ((host.storage.loadInstance ref).map fun rec ↦ { record := rec })).1)
  | fail : Effect host .restart { host with stored := none, node := none }
  | restart {n : RawNode}
      (hnew : RawNode.newRawNode host.id host.cfg host.base host.storage = some n) :
      Effect host .restart ({ host with stored := none, node := none }.setNode n)

theorem effect_call (host : Host) (c : Call) : host.Effect (.call c) (host.step (.call c)) := by
  by_cases hreserve : ∃ membership floor, c = .reserve membership floor
  · obtain ⟨membership, floor, rfl⟩ := hreserve
    exact .reserve membership floor
  · have hstep : host.step (.call c) = match host.node with
        | none => host
        | some n => if c.free then host.setNode (n.call c).1 else host := by
      cases c with
      | reserve membership floor => exact absurd ⟨membership, floor, rfl⟩ hreserve
      | _ => rfl
    rw [hstep]
    split
    · exact .skip _
    · next n hnode =>
      split_ifs with hfree
      · exact .call hnode hfree
      · exact .skip _

/-- Every operation has one of these effects. -/
theorem effect_step (host : Host) (op : HostOp) : host.Effect op (host.step op) := by
  cases op with
  | call c => exact host.effect_call c
  | persist rd =>
    simp only [step, persist]
    split
    · next n storage hnode hstorage =>
      split_ifs with hready
      · simp only [Bool.and_eq_true, Option.isNone_iff_eq_none] at hready
        exact .persist hnode hstorage hready.1.1 hready.1.2 hready.2
      · exact .skip _
    · exact .skip _
  | acknowledge =>
    simp only [step, acknowledge]
    split
    · next n rd hnode hstored => exact .acknowledge hnode hstored
    · exact .skip _
  | load ref =>
    simp only [step]
    split
    · exact .skip _
    · next n hnode => exact .load ref hnode
  | restart =>
    simp only [step, restart]
    split
    · exact .fail
    · next n hnew => exact .restart hnew

end Host

end MoreConsensus
