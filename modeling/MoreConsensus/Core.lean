import MoreConsensus.Host

/-!
# The core of a node

What the invariants of a node speak about: its configurations, its instances without what only paces
them, its trackers and the work it has put off. The rest (timers, ticks, recovery budgets,
checkpoint rounds) decides when something happens, not what. `core` forgets it, `outbox` is the work
queued for the application, and the lemmas say what the elementary operations do to both.
-/

set_option autoImplicit false

namespace MoreConsensus

open Library

/-! ### Effects and queues -/

/-- What the parts of a batch that are appended to hold. -/
@[ext]
structure Batch where
  records : List InstanceRecord := []
  messages : List Message := []
  applies : List ApplyCommand := []
  configs : List ConfigHistoryEntry := []
  bootstrapRecords : List BootstrapRecord := []
  frontiers : List FrontierUpdate := []
  bootstrapMessages : List BootstrapMessage := []

namespace Batch

instance : Append Batch :=
  ⟨fun first second ↦
    { records := first.records ++ second.records
      messages := first.messages ++ second.messages
      applies := first.applies ++ second.applies
      configs := first.configs ++ second.configs
      bootstrapRecords := first.bootstrapRecords ++ second.bootstrapRecords
      frontiers := first.frontiers ++ second.frontiers
      bootstrapMessages := first.bootstrapMessages ++ second.bootstrapMessages }⟩

variable (first second third : Batch)

@[simp] theorem records_append : (first ++ second).records = first.records ++ second.records := rfl

@[simp] theorem messages_append : (first ++ second).messages = first.messages ++ second.messages :=
  rfl

@[simp] theorem applies_append : (first ++ second).applies = first.applies ++ second.applies := rfl

@[simp] theorem configs_append : (first ++ second).configs = first.configs ++ second.configs := rfl

@[simp] theorem bootstrapRecords_append : (first ++ second).bootstrapRecords =
    first.bootstrapRecords ++ second.bootstrapRecords := rfl

@[simp] theorem frontiers_append : (first ++ second).frontiers =
    first.frontiers ++ second.frontiers := rfl

@[simp] theorem bootstrapMessages_append : (first ++ second).bootstrapMessages =
    first.bootstrapMessages ++ second.bootstrapMessages := rfl

@[simp] theorem append_empty : first ++ ({} : Batch) = first := by
  ext1 <;> simp

@[simp] theorem empty_append : ({} : Batch) ++ first = first := by
  ext1 <;> simp

theorem append_assoc : first ++ second ++ third = first ++ (second ++ third) := by
  ext1 <;> simp

end Batch

/-- What a call hands to the application, and what it notes in the history variable. -/
@[ext]
structure Effects extends Batch where
  events : List Event := []

def Ready.batch (rd : Ready) : Batch :=
  ⟨rd.records, rd.messages, rd.apply, rd.configHistory, rd.bootstrapRecords, rd.frontierUpdates,
    rd.bootstrapMessages⟩

/-- The queues of a node: the frozen batch, what is pending behind it, what came up since, and
everything that was ever queued or acknowledged. -/
structure Outbox where
  awaits : Bool
  frozen : Ready
  pending : Batch
  next : Batch
  enqueued : Batch
  acked : Batch
  pendingLoads : List InstanceRef
  nextLoads : List InstanceRef
  ackedLoads : List InstanceRef

namespace Outbox

/-- Queues something where new work goes. -/
def push (box : Outbox) (batch : Batch) : Outbox :=
  if box.awaits then
    { box with next := box.next ++ batch, enqueued := box.enqueued ++ batch }
  else { box with pending := box.pending ++ batch, enqueued := box.enqueued ++ batch }

/-- Asks for a record where new work goes. -/
def ask (box : Outbox) (ref : InstanceRef) : Outbox :=
  if box.awaits then { box with nextLoads := RawNode.insertRef ref box.nextLoads }
  else { box with pendingLoads := RawNode.insertRef ref box.pendingLoads }

/-- The frozen batch loses an acknowledged part. -/
def consume (box : Outbox) (rd : Ready) : Outbox :=
  { box with
    frozen := RawNode.consumeReady box.frozen rd
    acked := box.acked ++ (RawNode.returnedPart box.frozen rd).batch
    ackedLoads := box.ackedLoads ++ (RawNode.returnedPart box.frozen rd).recordLoads }

/-- The queues of a node that has not done anything. -/
def idle : Outbox :=
  { awaits := false, frozen := {}, pending := {}, next := {}, enqueued := {}, acked := {}
    pendingLoads := [], nextLoads := [], ackedLoads := [] }

/-- Nothing is frozen any more. -/
def thaw (box : Outbox) : Outbox :=
  { box with awaits := false, frozen := {}, pending := box.pending ++ box.next, next := {} }

variable (box : Outbox) (first second : Batch)

@[simp] theorem push_empty : box.push {} = box := by
  cases box
  simp [push]

@[simp] theorem awaits_push : (box.push first).awaits = box.awaits := by
  unfold push
  split_ifs <;> rfl

end Outbox

/-! ### The core -/

/-- An instance without what only paces it. -/
def Instance.bare (inst : Instance) : Instance :=
  { inst with tryDeferred := [], tryIgnored := [], waitDeadline := 0, generation := 0 }

/-- An instance as it is installed: a committed one has no use for what a coordinator gathered. -/
def Instance.settled (inst : Instance) : Instance :=
  if Status.committed ≤ inst.record.status then releaseInstanceVolatile inst else inst

/-- What the invariants of a node speak about. -/
structure Core where
  id : ReplicaID
  cfg : Config
  confHistory : FiniteMap ConfID VoterSet
  current : ConfID
  applied : FiniteMap ConfID InstanceRef
  control : InstanceRef → Option (Option Bytes)
  slots : InstanceRef → Option Instance
  executed : ExecutedTracker
  durableExecuted : ExecutedTracker
  retired : FiniteMap InstanceLane RetiredLane
  logical : List Message
  toq : List Message
  loads : FiniteMap InstanceRef RecordLoadWait
  outbox : Outbox
  journal : List Event

namespace Core

/-- The core with some effects queued and noted. -/
def emit (c : Core) (out : Effects) : Core :=
  { c with outbox := c.outbox.push out.toBatch, journal := c.journal ++ out.events }

@[simp] theorem emit_empty (c : Core) : c.emit {} = c := by
  simp [emit]

end Core

namespace RawNode

/-- The instance of a reference, without what only paces it. -/
def slot (n : RawNode) (ref : InstanceRef) : Option Instance :=
  (n.instances.get? ref).map Instance.bare

def outbox (n : RawNode) : Outbox :=
  { awaits := n.awaitAdvance, frozen := n.frozenReady, pending := n.pendingReady.batch
    next := n.nextReady.batch, enqueued := n.enqueued.batch, acked := n.acknowledged.batch
    pendingLoads := n.pendingReady.recordLoads, nextLoads := n.nextReady.recordLoads
    ackedLoads := n.acknowledged.recordLoads }

def core (n : RawNode) : Core :=
  { id := n.id, cfg := n.cfg, confHistory := n.confHistory, current := n.current
    applied := n.appliedConfByBase, control := n.findBootstrapControl, slots := n.slot
    executed := n.executed
    durableExecuted := n.durableExecuted, retired := n.retired, logical := n.logicalPreAccepts
    toq := n.toqPreAccepts, loads := n.pendingRecordLoads, outbox := n.outbox
    journal := n.journal }

variable (n : RawNode)

/-! ### Queues -/

theorem core_modifyReady {f : Ready → Ready} (out : Effects) (hevents : out.events = [])
    (hf : ∀ rd, (f rd).batch = rd.batch ++ out.toBatch)
    (hloads : ∀ rd, (f rd).recordLoads = rd.recordLoads) :
    (n.modifyReady f).core = n.core.emit out := by
  unfold modifyReady
  cases hawaits : n.awaitAdvance <;>
    simp [core, outbox, Core.emit, Outbox.push, logicalPreAccepts, toqPreAccepts, hawaits, hf,
      hevents, hloads] <;> exact ⟨rfl, rfl⟩

/-- An update of a batch that leaves the parts that are appended to alone. -/
theorem core_modifyReady_other {f : Ready → Ready} (hf : ∀ rd, (f rd).batch = rd.batch)
    (hloads : ∀ rd, (f rd).recordLoads = rd.recordLoads) : (n.modifyReady f).core = n.core := by
  rw [n.core_modifyReady {} rfl (fun rd ↦ by simp [hf]) hloads, Core.emit_empty]

@[simp] theorem core_note (event : Event) :
    (n.note event).core = n.core.emit { events := [event] } := by
  simp only [Core.emit, Outbox.push_empty]
  rfl

/-- A message as it is queued: an answer without dependencies gets a vector of zeros. -/
def widen (m : Message) : Message :=
  if m.deps.isEmpty && m.isResponse then { m with deps := n.depsForConf m.ref.conf } else m

@[simp] theorem core_enqueueMessage (m : Message) :
    (n.enqueueMessage m).core = n.core.emit { messages := [n.widen m] } :=
  n.core_modifyReady _ rfl (fun rd ↦ by ext1 <;> simp [Ready.batch, widen]) fun _ ↦ rfl

@[simp] theorem core_enqueueApply (command : ApplyCommand) :
    (n.enqueueApply command).core = n.core.emit { applies := [command] } :=
  n.core_modifyReady _ rfl (fun rd ↦ by ext1 <;> simp [Ready.batch]) fun _ ↦ rfl

theorem core_enqueueRecord {rec : InstanceRecord} (hfull : n.payloadAbsent rec.ref = false) :
    (n.enqueueRecord rec).core = n.core.emit { records := [rec] } := by
  unfold enqueueRecord
  rw [hfull, if_neg Bool.false_ne_true]
  exact n.core_modifyReady _ rfl (fun rd ↦ by ext1 <;> simp [Ready.batch]) fun _ ↦ rfl

/-! ### Instances -/

theorem get?_updateInstance (ref other : InstanceRef) (f : Instance → Instance) :
    (n.updateInstance ref f).instances.get? other =
      if other = ref then (n.instances.get? ref).map f else n.instances.get? other := by
  unfold updateInstance
  cases hget : n.instances.get? ref with
  | none =>
    split_ifs with hother
    · rw [hother, hget]
      rfl
    · rfl
  | some inst => simp [FiniteMap.get?_insert]

/-- The conflict engine apart, setting an instance is changing it. -/
theorem setInstance_eq (ref : InstanceRef) (f : Instance → Instance) :
    n.setInstance ref f = { n.updateInstance ref f with engine :=
      (n.setInstance ref f).engine } := by
  unfold setInstance updateInstance
  cases n.instances.get? ref <;> rfl

theorem get?_setInstance (ref other : InstanceRef) (f : Instance → Instance) :
    (n.setInstance ref f).instances.get? other =
      if other = ref then (n.instances.get? ref).map f else n.instances.get? other := by
  rw [setInstance_eq]
  exact n.get?_updateInstance ref other f

end RawNode

end MoreConsensus
