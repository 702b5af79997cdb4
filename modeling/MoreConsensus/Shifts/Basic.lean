import MoreConsensus.Chain
import MoreConsensus.Conflicts.Coherence
import MoreConsensus.Trackers

/-!
# Shifts

Some properties hold of any node, whatever its records say, and also after an application has
answered a record load with a record of its own making: work is queued at the end of the queues,
record loads are asked for once, and configurations follow each other in a chain. They only concern
the frame of a node. A shift is a step of the frame, and every function is a sequence of shifts.
-/

set_option autoImplicit false

namespace MoreConsensus

open Library

@[ext]
theorem VoterSet.ext {first second : VoterSet} (hvoters : first.voters = second.voters) :
    first = second := by
  cases first
  cases second
  congr

/-! ### Votes -/

theorem VoteSet.add_eq_some {α : Type} {votes votes' : VoteSet α} {conf : ConfState}
    {sender : ReplicaID} {vote : α} (hadd : VoteSet.add votes conf sender vote = some votes') :
    conf.contains sender = true ∧ FiniteMap.get? votes sender = none ∧
      votes' = FiniteMap.insert votes sender vote := by
  unfold VoteSet.add at hadd
  split_ifs at hadd with hrefused
  simp only [Bool.or_eq_true, not_or, Bool.not_eq_true, Bool.not_eq_false',
    FiniteMap.contains, Option.isSome_eq_false_iff, Option.isNone_iff_eq_none] at hrefused
  exact ⟨hrefused.1, hrefused.2, (Option.some.inj hadd).symm⟩

theorem VoteSet.get?_addOrKeep {α : Type} {votes : VoteSet α} {conf : ConfState}
    {sender id : ReplicaID} {vote value : α}
    (hget : FiniteMap.get? (VoteSet.addOrKeep votes conf sender vote) id = some value) :
    FiniteMap.get? votes id = some value ∨ id = sender ∧ value = vote := by
  unfold VoteSet.addOrKeep at hget
  cases hadd : VoteSet.add votes conf sender vote with
  | none => exact Or.inl (by simpa [hadd] using hget)
  | some next =>
    obtain ⟨-, -, rfl⟩ := VoteSet.add_eq_some hadd
    simp only [hadd, Option.getD_some, FiniteMap.get?_insert] at hget
    split_ifs at hget with hid
    · exact Or.inr ⟨hid, (Option.some.inj hget).symm⟩
    · exact Or.inl hget

/-! ### Frames -/

/-- What a batch asks of the application besides what is appended to it. -/
structure Asks where
  snapshot : Option Snapshot := none
  checkpoint : Option CheckpointRequest := none
  compact : List CompactionRange := []

def Ready.asks (rd : Ready) : Asks := ⟨rd.snapshot, rd.checkpoint, rd.compact⟩

/-- The clocks of a node, the PreAccepts that wait for them and those that were taken from their
queues. -/
structure Timing where
  tick : ℕ
  closed : Option ℕ
  deferred : DeferredPreAccepts
  taken : List (PreAcceptDomain × Message)

/-- Time does not pass and nothing is queued or taken. Some waiting PreAccepts may be given up. -/
structure Timing.Thins (t u : Timing) : Prop where
  tick : u.tick = t.tick
  closed : u.closed = t.closed
  taken : u.taken = t.taken
  queue : ∀ domain, (u.deferred.queue domain).Sublist (t.deferred.queue domain)

theorem Timing.Thins.refl (t : Timing) : t.Thins t :=
  ⟨rfl, rfl, rfl, fun _ ↦ List.Sublist.refl _⟩

theorem Timing.Thins.trans {t u v : Timing} (hfirst : t.Thins u) (hsecond : u.Thins v) :
    t.Thins v where
  tick := hsecond.tick.trans hfirst.tick
  closed := hsecond.closed.trans hfirst.closed
  taken := hsecond.taken.trans hfirst.taken
  queue := fun domain ↦ (hsecond.queue domain).trans (hfirst.queue domain)

/-- What a node has of plans, execution and checkpoints, of time and of messages that wait for a
record: `asks` is of the batch that is being filled, `rest` of the other one that is not frozen. -/
structure Plane where
  plans : List ℕ
  executed : ExecutedTracker
  durable : Checkpoint
  paused : Bool
  compacting : Bool
  asks : Asks
  rest : Asks
  timing : Timing
  held : ℕ

/-- What a node has of queues, record loads, configurations, checkpoints, indexed instances and
history. -/
structure Frame where
  id : ReplicaID
  cfg : Config
  chain : Chain
  plane : Plane
  index : Index
  loads : FiniteMap InstanceRef RecordLoadWait
  outbox : Outbox
  journal : List Event

/-- Whether an event is about something other than the chain of configurations. -/
def Event.plain : Event → Bool
  | .reconfigured _ _ _ => false
  | _ => true

namespace Frame

/-- The frame with some effects queued and noted. -/
def emit (f : Frame) (out : Effects) : Frame :=
  { f with outbox := f.outbox.push out.toBatch, journal := f.journal ++ out.events }

def reindexed (f : Frame) (next : Index) : Frame := { f with index := next }

/-- The steps of a frame. -/
inductive Shift (f : Frame) : Frame → Prop
  | emit {out : Effects} (hevents : ∀ event ∈ out.events, event.plain = true) : Shift f (f.emit out)
  /-- A record load is asked for; what waits for it changes. -/
  | ask {ref : InstanceRef} (hnew : f.loads.get? ref = none) :
      Shift f { f with loads := f.loads.insert ref {}, outbox := f.outbox.ask ref }
  | wait {ref : InstanceRef} {wait : RecordLoadWait} (next : RecordLoadWait)
      (hwait : f.loads.get? ref = some wait) : Shift f { f with loads := f.loads.insert ref next }
  /-- A configuration change is executed. -/
  | change {ref : InstanceRef} {change : ConfChange} {configs : List ConfigHistoryEntry} :
      Shift f ({ f with chain := (f.chain.change ref change).1 }.emit
        { configs := configs
          events := [.reconfigured ref change (f.chain.change ref change).2] })
  /-- The plane moves on. -/
  | plane (next : Plane) : Shift f { f with plane := next }
  /-- Resident instances and their index change. -/
  | reindex (next : Index) : Shift f (f.reindexed next)
  /-- A known plan is activated. -/
  | activate {plan : ℕ} {ref : InstanceRef} {voters : VoterSet}
      {configs : List ConfigHistoryEntry} (hplan : plan ∈ f.plane.plans)
      (hextends : f.chain.Extends ref voters) :
      Shift f ({ f with chain := f.chain.extend ref voters }.emit { configs := configs })

end Frame

namespace Plane

/-- What a plane keeps while no batch is acknowledged, no record loaded and no offer taken. -/
structure Calm (p q : Plane) : Prop where
  durable : q.durable = p.durable
  compacting : q.compacting = p.compacting
  compact : q.asks.compact = p.asks.compact
  rest : q.rest = p.rest
  /-- No snapshot to install is asked for. -/
  install : ∀ checkpoint, q.asks.snapshot = some ⟨.install, checkpoint⟩ →
    p.asks.snapshot = some ⟨.install, checkpoint⟩
  /-- Nothing is executed while execution is paused. -/
  paused : p.paused = true → q.paused = true ∧
    ∀ ref, q.executed.contains ref = true → p.executed.contains ref = true

theorem Calm.refl (p : Plane) : p.Calm p where
  durable := rfl
  compacting := rfl
  compact := rfl
  rest := rfl
  install := fun _ hinstall ↦ hinstall
  paused := fun hpaused ↦ ⟨hpaused, fun _ hin ↦ hin⟩

theorem Calm.trans {p q r : Plane} (hfirst : p.Calm q) (hsecond : q.Calm r) : p.Calm r where
  durable := hsecond.durable.trans hfirst.durable
  compacting := hsecond.compacting.trans hfirst.compacting
  compact := hsecond.compact.trans hfirst.compact
  rest := hsecond.rest.trans hfirst.rest
  install := fun checkpoint hinstall ↦ hfirst.install _ (hsecond.install checkpoint hinstall)
  paused := fun hpaused ↦
    have hmiddle := hfirst.paused hpaused
    have hlast := hsecond.paused hmiddle.1
    ⟨hlast.1, fun ref hin ↦ hmiddle.2 ref (hlast.2 ref hin)⟩

variable {p q : Plane}

theorem Calm.of_plans (hcalm : p.Calm q) (plans : List ℕ) : p.Calm { q with plans := plans } :=
  ⟨hcalm.durable, hcalm.compacting, hcalm.compact, hcalm.rest, hcalm.install, hcalm.paused⟩

/-- What is executed while execution was not paused at first. -/
theorem Calm.of_executed (hcalm : p.Calm q) (hrunning : p.paused = false)
    (executed : ExecutedTracker) : p.Calm { q with executed := executed } :=
  ⟨hcalm.durable, hcalm.compacting, hcalm.compact, hcalm.rest, hcalm.install,
    fun hpaused ↦ absurd hpaused (by simp [hrunning])⟩

theorem Calm.of_forget (hcalm : p.Calm q) (lane : InstanceLane) (through : InstanceNum) :
    p.Calm { q with executed := q.executed.forgetExactThrough lane through } :=
  ⟨hcalm.durable, hcalm.compacting, hcalm.compact, hcalm.rest, hcalm.install, fun hpaused ↦
    ⟨(hcalm.paused hpaused).1, fun ref hin ↦ (hcalm.paused hpaused).2 ref
      (ExecutedTracker.contains_of_forgetExactThrough hin)⟩⟩

/-- A round that begins while execution was not paused at first. -/
theorem Calm.of_begin (hcalm : p.Calm q) (hrunning : p.paused = false)
    (request : CheckpointRequest) :
    p.Calm { q with paused := true, asks := { q.asks with checkpoint := request } } :=
  ⟨hcalm.durable, hcalm.compacting, hcalm.compact, hcalm.rest, hcalm.install,
    fun hpaused ↦ absurd hpaused (by simp [hrunning])⟩

/-- A snapshot of the application is asked to be kept. -/
theorem Calm.of_persistLocal (hcalm : p.Calm q) (checkpoint : Checkpoint) :
    p.Calm { q with asks := { q.asks with snapshot := some ⟨.persistLocal, checkpoint⟩ } } :=
  ⟨hcalm.durable, hcalm.compacting, hcalm.compact, hcalm.rest,
    fun _ hinstall ↦ by simp at hinstall, hcalm.paused⟩

end Plane

/-- Whether an instance is resident with its payload. -/
def Index.Full (x : Index) (ref : InstanceRef) : Prop :=
  ∃ inst, x.instances.get? ref = some inst ∧ inst.payloadAbsent = none

/-- The messages that wait for a record are counted. -/
def Frame.Counted (f : Frame) : Prop := f.plane.held = f.loads.total fun wait ↦ wait.messages.length

/-- How far shifts reach: whether time passes, and whether instances or their payloads are taken
away. -/
structure Scope where
  time : Bool
  drops : Bool

namespace Scope

/-- The handlers of messages do neither. -/
def handler : Scope := ⟨false, false⟩

/-- The calls of the application, short of the following. -/
def call : Scope := ⟨true, false⟩

/-- The work after an acknowledgement or a record load. -/
def upkeep : Scope := ⟨false, true⟩

def any : Scope := ⟨true, true⟩

end Scope

/-- Any number of shifts that are calm together, keep the conflict engine coherent and the waiting
messages counted, and do not reach past a scope. -/
structure Frame.Shifts (scope : Scope) (f g : Frame) : Prop where
  steps : Relation.ReflTransGen Frame.Shift f g
  calm : f.plane.Calm g.plane
  keyed : f.index.Keyed → g.index.Keyed
  coherent : f.index.Coherent → g.index.Coherent
  counted : f.Counted → g.Counted
  full : scope.drops = false → ∀ ref, f.index.Full ref → g.index.Full ref
  thins : scope.time = false → f.plane.timing.Thins g.plane.timing

def Core.frame (c : Core) (plane : Plane) (index : Index) : Frame :=
  { id := c.id, cfg := c.cfg, chain := ⟨c.confHistory, c.current, c.applied⟩, plane := plane
    index := index, loads := c.loads, outbox := c.outbox, journal := c.journal }

namespace RawNode

def plane (n : RawNode) : Plane :=
  { plans := n.membership.plans
    executed := n.executed
    durable := n.durableCheckpoint
    paused := n.executionPaused
    compacting := n.checkpointCompacting
    asks := (if n.awaitAdvance then n.nextReady else n.pendingReady).asks
    rest := (if n.awaitAdvance then n.pendingReady else n.nextReady).asks
    timing := ⟨n.tick, n.toqClosedThrough, n.deferred, n.taken⟩
    held := n.pendingRecordLoadMessages }

def frame (n : RawNode) : Frame := n.core.frame n.plane n.index

/-- Any number of shifts within a scope. -/
def Shifts (scope : Scope) (n n' : RawNode) : Prop := n.frame.Shifts scope n'.frame

variable {scope : Scope} {n m m' : RawNode} {ref : InstanceRef}

theorem core_requestRecordLoad (hnew : n.pendingRecordLoads.get? ref = none) :
    (n.requestRecordLoad ref).core =
      { n.core with loads := n.pendingRecordLoads.insert ref {}, outbox := n.outbox.ask ref } := by
  unfold requestRecordLoad modifyReady
  rw [if_neg (by simp [FiniteMap.contains, hnew])]
  cases hawaits : n.awaitAdvance <;>
    simp [core, outbox, Outbox.ask, logicalPreAccepts, toqPreAccepts, hawaits, Ready.batch] <;>
    exact ⟨rfl, rfl⟩

theorem get?_requestRecordLoad (n : RawNode) (ref : InstanceRef) :
    ∃ wait, (n.requestRecordLoad ref).pendingRecordLoads.get? ref = some wait := by
  cases hget : n.pendingRecordLoads.get? ref with
  | none =>
    have hloads : (n.requestRecordLoad ref).pendingRecordLoads =
        n.pendingRecordLoads.insert ref {} :=
      congrArg Core.loads (core_requestRecordLoad hget)
    exact ⟨{}, by rw [hloads, FiniteMap.get?_insert_self]⟩
  | some wait =>
    unfold requestRecordLoad
    rw [if_pos (by simp [FiniteMap.contains, hget])]
    exact ⟨wait, hget⟩

namespace Shifts

theorem refl (n : RawNode) : Shifts scope n n where
  steps := Relation.ReflTransGen.refl
  calm := Plane.Calm.refl _
  keyed := fun hn ↦ hn
  coherent := fun hn ↦ hn
  counted := fun hn ↦ hn
  full := fun _ _ hfull ↦ hfull
  thins := fun _ ↦ Timing.Thins.refl _

/-- Where the scope does not matter. -/
theorem rfl_any (n : RawNode) : Shifts .any n n := refl n

section

variable (hshifts : Shifts scope n m)

include hshifts

theorem steps : Relation.ReflTransGen Frame.Shift n.frame m.frame :=
  Frame.Shifts.steps hshifts

theorem calm : n.plane.Calm m.plane := Frame.Shifts.calm hshifts

theorem keyed (hn : n.index.Keyed) : m.index.Keyed :=
  Frame.Shifts.keyed hshifts hn

theorem coherent (hn : n.index.Coherent) : m.index.Coherent :=
  Frame.Shifts.coherent hshifts hn

theorem counted (hn : n.frame.Counted) : m.frame.Counted :=
  Frame.Shifts.counted hshifts hn

theorem full (hscope : scope.drops = false) (hfull : n.index.Full ref) :
    m.index.Full ref :=
  Frame.Shifts.full hshifts hscope ref hfull

end

theorem thins (hshifts : Shifts .handler n m) : n.plane.timing.Thins m.plane.timing :=
  Frame.Shifts.thins hshifts rfl

/-- Handlers stay within every scope. -/
theorem within (hshifts : Shifts .handler n m) : Shifts scope n m where
  steps := hshifts.steps
  calm := hshifts.calm
  keyed := hshifts.keyed
  coherent := hshifts.coherent
  counted := hshifts.counted
  full := fun _ _ hfull ↦ hshifts.full rfl hfull
  thins := fun _ ↦ hshifts.thins

theorem widen (hshifts : Shifts scope n m) : Shifts .any n m where
  steps := hshifts.steps
  calm := hshifts.calm
  keyed := hshifts.keyed
  coherent := hshifts.coherent
  counted := hshifts.counted
  full := nofun
  thins := nofun

theorem trans (hfirst : Shifts scope n m) (hsecond : Shifts scope m m') : Shifts scope n m' where
  steps := hfirst.steps.trans hsecond.steps
  calm := hfirst.calm.trans hsecond.calm
  keyed := fun hn ↦ hsecond.keyed (hfirst.keyed hn)
  coherent := fun hn ↦ hsecond.coherent (hfirst.coherent hn)
  counted := fun hn ↦ hsecond.counted (hfirst.counted hn)
  full := fun hscope _ hfull ↦ hsecond.full hscope (hfirst.full hscope hfull)
  thins := fun hscope ↦
    (Frame.Shifts.thins hfirst hscope).trans (Frame.Shifts.thins hsecond hscope)

/-- A shift that leaves the plane and the index alone. -/
theorem shift (hshifts : Shifts scope n m) (hshift : m.frame.Shift m'.frame)
    (hplane : m'.plane = m.plane) (hindex : m'.index = m.index)
    (hcounted : m.frame.Counted → m'.frame.Counted) : Shifts scope n m' where
  steps := hshifts.steps.tail hshift
  calm := (hplane ▸ hshifts.calm : n.plane.Calm m'.plane)
  keyed := fun hn ↦ (hindex ▸ hshifts.keyed hn : m'.index.Keyed)
  coherent := fun hn ↦ (hindex ▸ hshifts.coherent hn : m'.index.Coherent)
  counted := fun hn ↦ hcounted (hshifts.counted hn)
  full := fun hscope ref hfull ↦ (hindex ▸ hshifts.full hscope hfull : m'.index.Full ref)
  thins := fun hscope ↦
    (hplane ▸ Frame.Shifts.thins hshifts hscope : n.plane.timing.Thins m'.plane.timing)

theorem counted_of_loads {f g : Frame} (hplane : g.plane = f.plane) (hloads : g.loads = f.loads)
    (hf : f.Counted) : g.Counted := by
  unfold Frame.Counted at *
  rw [hplane, hloads]
  exact hf

section

variable (hshifts : Shifts scope n m)

include hshifts

theorem of_frame (hframe : m'.frame = m.frame) : Shifts scope n m' := by
  unfold Shifts at *
  rw [hframe]
  exact hshifts

theorem shift_to {g : Frame} (hshift : m.frame.Shift g)
    (hplane : g.plane = m.plane) (hindex : g.index = m.index)
    (hloads : g.loads = m.pendingRecordLoads) (hframe : m'.frame = g) : Shifts scope n m' := by
  subst hframe
  exact hshifts.shift hshift hplane hindex (counted_of_loads hplane hloads)

/-- A change of nothing but the plane. -/
theorem of_plane
    (hframe : m'.frame = { m.frame with plane := m'.plane }) (hcalm : n.plane.Calm m'.plane)
    (hheld : m'.plane.held = m.plane.held)
    (hthins : scope.time = false → m.plane.timing.Thins m'.plane.timing) : Shifts scope n m' := by
  have hindex : m'.index = m.index := congrArg Frame.index hframe
  have hloads : m'.pendingRecordLoads = m.pendingRecordLoads := congrArg Frame.loads hframe
  refine ⟨hshifts.steps.tail ?_, hcalm,
    fun hn ↦ (hindex ▸ hshifts.keyed hn : m'.index.Keyed), fun hn ↦ ?_, fun hn ↦ ?_,
    fun hscope ref hfull ↦ ?_,
    fun hscope ↦ (Frame.Shifts.thins hshifts hscope).trans (hthins hscope)⟩
  · rw [hframe]
    exact .plane _
  · exact (hindex ▸ hshifts.coherent hn : m'.index.Coherent)
  · have hm : m.plane.held = m.pendingRecordLoads.total _ := hshifts.counted hn
    rw [← hheld, ← hloads] at hm
    exact hm
  · exact (hindex ▸ hshifts.full hscope hfull : m'.index.Full ref)

/-- A change of nothing but what the plane has of plans, execution and checkpoints. -/
theorem of_calm
    (hframe : m'.frame = { m.frame with plane := m'.plane }) (hcalm : n.plane.Calm m'.plane)
    (hheld : m'.plane.held = m.plane.held) (htiming : m'.plane.timing = m.plane.timing) :
    Shifts scope n m' :=
  hshifts.of_plane hframe hcalm hheld fun _ ↦ htiming ▸ Timing.Thins.refl _

/-- A change of nothing but the clocks and the waiting PreAccepts. -/
theorem of_timing {timing : Timing}
    (hframe : m'.frame = { m.frame with plane := { m.plane with timing := timing } })
    (hthins : scope.time = false → m.plane.timing.Thins timing) : Shifts scope n m' := by
  have hplane : m'.plane = { m.plane with timing := timing } := congrArg Frame.plane hframe
  refine hshifts.of_plane (by rw [hframe, hplane]) ?_ (by rw [hplane])
    (by rw [hplane]; exact hthins)
  rw [hplane]
  have hcalm := hshifts.calm
  exact ⟨hcalm.durable, hcalm.compacting, hcalm.compact, hcalm.rest, hcalm.install, hcalm.paused⟩

/-- A change of nothing but the resident instances and their index. -/
theorem of_reindex {next : Index}
    (hframe : m'.frame = m.frame.reindexed next)
    (hkeyed : n.index.Keyed → m.index.Keyed → next.Keyed)
    (hcoherent : n.index.Coherent → m.index.Coherent → next.Coherent)
    (hfull : scope.drops = false → ∀ ref, n.index.Full ref → m.index.Full ref → next.Full ref) :
    Shifts scope n m' := by
  unfold Shifts
  rw [hframe]
  exact ⟨hshifts.steps.tail (.reindex next), hshifts.calm,
    fun hn ↦ hkeyed hn (hshifts.keyed hn), fun hn ↦ hcoherent hn (hshifts.coherent hn),
    hshifts.counted,
    fun hscope ref hn ↦ hfull hscope ref hn (hshifts.full hscope hn),
    fun hscope ↦ (Frame.Shifts.thins hshifts hscope :)⟩

/-- An operation that queues and notes something. -/
theorem of_emit {out : Effects} (hcore : m'.core = m.core.emit out)
    (hplane : m'.plane = m.plane) (hindex : m'.index = m.index)
    (hevents : ∀ event ∈ out.events, event.plain = true) : Shifts scope n m' := by
  refine hshifts.shift ?_ hplane hindex
    (counted_of_loads hplane (congrArg Core.loads hcore :))
  have hframe : m'.frame = m.frame.emit out := by
    unfold frame
    rw [hcore, hplane, hindex]
    rfl
  rw [hframe]
  exact .emit hevents

end

/-! ### Queues -/

variable {f : Ready → Ready}

/-- An update of a batch that asks the application for something. -/
theorem plane_modifyReady_asks (n : RawNode) {g : Asks → Asks}
    (hf : ∀ rd, (f rd).asks = g rd.asks) :
    (n.modifyReady f).plane = { n.plane with asks := g n.plane.asks } := by
  unfold modifyReady plane
  split_ifs <;> simp [hf]

theorem plane_modifyReady (n : RawNode) (hf : ∀ rd, (f rd).asks = rd.asks) :
    (n.modifyReady f).plane = n.plane :=
  plane_modifyReady_asks n (g := fun asks ↦ asks) hf

theorem held_modifyReady (n : RawNode) (f : Ready → Ready) :
    (n.modifyReady f).plane.held = n.plane.held := by
  unfold modifyReady
  split_ifs <;> rfl

theorem timing_modifyReady (n : RawNode) (f : Ready → Ready) :
    (n.modifyReady f).plane.timing = n.plane.timing := by
  unfold modifyReady
  split_ifs <;> rfl

theorem index_modifyReady (n : RawNode) (f : Ready → Ready) :
    (n.modifyReady f).index = n.index := by
  unfold modifyReady
  split_ifs <;> rfl

theorem note (hshifts : Shifts scope n m) {event : Event} (hevent : event.plain = true) :
    Shifts scope n (m.note event) :=
  hshifts.of_emit (core_note ..) rfl rfl fun other hother ↦ by
    rw [List.mem_singleton.mp hother]
    exact hevent

theorem enqueueMessage (hshifts : Shifts scope n m) (msg : Message) :
    Shifts scope n (m.enqueueMessage msg) :=
  hshifts.of_emit (core_enqueueMessage ..) (plane_modifyReady _ fun _ ↦ rfl)
    (index_modifyReady ..) (by simp)

theorem enqueueApply (hshifts : Shifts scope n m) (command : ApplyCommand) :
    Shifts scope n (m.enqueueApply command) :=
  hshifts.of_emit (core_enqueueApply ..) (plane_modifyReady _ fun _ ↦ rfl)
    (index_modifyReady ..) (by simp)

/-- An update of a batch that leaves the parts that are appended to alone. -/
theorem frame_modifyReady_other (m : RawNode)
    (hf : ∀ rd, (f rd).batch = rd.batch) (hloads : ∀ rd, (f rd).recordLoads = rd.recordLoads) :
    (m.modifyReady f).frame = { m.frame with plane := (m.modifyReady f).plane } := by
  unfold frame
  rw [core_modifyReady_other _ hf hloads, index_modifyReady]
  rfl

theorem frame_modifyReady (m : RawNode) (batch : Batch)
    (hf : ∀ rd, (f rd).batch = rd.batch ++ batch)
    (hloads : ∀ rd, (f rd).recordLoads = rd.recordLoads) (hasks : ∀ rd, (f rd).asks = rd.asks) :
    (m.modifyReady f).frame = m.frame.emit ⟨batch, []⟩ := by
  unfold frame
  rw [core_modifyReady _ ⟨batch, []⟩ rfl hf hloads, plane_modifyReady m hasks, index_modifyReady]
  rfl

theorem modifyReady (hshifts : Shifts scope n m) (batch : Batch)
    (hf : ∀ rd, (f rd).batch = rd.batch ++ batch)
    (hloads : ∀ rd, (f rd).recordLoads = rd.recordLoads) (hasks : ∀ rd, (f rd).asks = rd.asks) :
    Shifts scope n (m.modifyReady f) := by
  have hframe := frame_modifyReady m batch hf hloads hasks
  refine hshifts.shift_to (g := m.frame.emit ⟨batch, []⟩) (.emit (by simp)) rfl rfl rfl hframe

/-! ### Record loads -/

section

variable (hshifts : Shifts scope n m)

include hshifts

theorem requestRecordLoad (ref : InstanceRef) :
    Shifts scope n (m.requestRecordLoad ref) := by
  cases hget : m.pendingRecordLoads.get? ref with
  | some wait =>
    unfold RawNode.requestRecordLoad
    rw [if_pos (by simp [FiniteMap.contains, hget])]
    exact hshifts
  | none =>
    have hplane : (m.requestRecordLoad ref).plane = m.plane := by
      unfold RawNode.requestRecordLoad
      rw [if_neg (by simp [FiniteMap.contains, hget]), plane_modifyReady]
      · rfl
      · exact fun _ ↦ rfl
    have hindex : (m.requestRecordLoad ref).index = m.index := by
      unfold RawNode.requestRecordLoad
      rw [if_neg (by simp [FiniteMap.contains, hget]), index_modifyReady]
      rfl
    have hframe : (m.requestRecordLoad ref).frame =
        { m.frame with loads := m.pendingRecordLoads.insert ref {}
                       outbox := m.outbox.ask ref } := by
      unfold frame
      rw [core_requestRecordLoad hget, hplane, hindex]
      rfl
    refine hshifts.shift ?_ hplane hindex fun hm ↦ ?_
    · rw [hframe]
      exact .ask hget
    · have htotal := m.pendingRecordLoads.total_insert (fun wait ↦ wait.messages.length) ref {}
      rw [hget] at htotal
      rw [hframe]
      exact hm.trans htotal.symm

/-- What waits for a record that was asked for changes. Assumes: the messages are counted. -/
theorem setWait {wait : RecordLoadWait} (next : RecordLoadWait)
    (held : ℕ) (hwait : m.pendingRecordLoads.get? ref = some wait)
    (hheld : held + wait.messages.length = m.pendingRecordLoadMessages + next.messages.length) :
    Shifts scope n { m with pendingRecordLoads := m.pendingRecordLoads.insert ref next
                            pendingRecordLoadMessages := held } := by
  have hcalm := hshifts.calm
  refine ⟨(hshifts.steps.tail (.wait next hwait)).tail (.plane { m.plane with held := held }),
    ⟨hcalm.durable, hcalm.compacting, hcalm.compact, hcalm.rest, hcalm.install, hcalm.paused⟩,
    hshifts.keyed, hshifts.coherent, fun hn ↦ ?_, fun hscope ref hfull ↦
      (hshifts.full hscope hfull :),
    fun hscope ↦ (Frame.Shifts.thins hshifts hscope :)⟩
  have hm : m.pendingRecordLoadMessages = m.pendingRecordLoads.total _ := hshifts.counted hn
  have htotal := m.pendingRecordLoads.total_insert (fun wait ↦ wait.messages.length) ref next
  rw [hwait, Option.elim_some] at htotal
  change held = (m.pendingRecordLoads.insert ref next).total _
  omega

theorem deferRecordLoadWith (ref : InstanceRef) (message : Option Message)
    (required : Bool) : Shifts scope n (m.deferRecordLoadWith ref message required).1 := by
  unfold RawNode.deferRecordLoadWith
  dsimp only
  split
  · exact hshifts
  have hasked := hshifts.requestRecordLoad ref
  obtain ⟨wait, hwait⟩ := get?_requestRecordLoad m ref
  split
  · exact hasked.setWait _ _ hwait (by simp [hwait])
  · split_ifs
    · exact hasked.setWait _ _ hwait (by simp [hwait])
    · exact hasked.setWait _ _ hwait (by simp [hwait]; omega)

theorem updateRecordLoad (ref : InstanceRef)
    (f : RecordLoadWait → RecordLoadWait) (hf : ∀ wait, (f wait).messages = wait.messages) :
    Shifts scope n (m.updateRecordLoad ref f) := by
  unfold RawNode.updateRecordLoad
  split
  · exact hshifts
  · next wait hwait => exact hshifts.setWait _ _ hwait (by rw [hf])

theorem deferRecordLoadExport (ref : InstanceRef) (type : MessageType)
    (target : ReplicaID) : Shifts scope n (m.deferRecordLoadExport ref type target) :=
  (hshifts.deferRecordLoadWith ref none true).updateRecordLoad ref _ fun wait ↦ by
    split_ifs <;> rfl

theorem enqueueRecord (rec : InstanceRecord) :
    Shifts scope n (m.enqueueRecord rec) := by
  cases hfull : m.payloadAbsent rec.ref with
  | false =>
    refine hshifts.of_emit (core_enqueueRecord _ hfull) ?_ ?_ (by simp)
    · unfold RawNode.enqueueRecord
      rw [hfull, if_neg Bool.false_ne_true, plane_modifyReady]
      exact fun _ ↦ rfl
    · unfold RawNode.enqueueRecord
      rw [hfull, if_neg Bool.false_ne_true, index_modifyReady]
  | true =>
    unfold RawNode.enqueueRecord
    rw [if_pos hfull]
    exact (hshifts.deferRecordLoadWith rec.ref none true).updateRecordLoad rec.ref _
      (by exact fun _ ↦ rfl)

end

/-! ### Instances and timers -/

section Silent

variable (m : RawNode) (ref : InstanceRef)

theorem frame_updateInstance (f : Instance → Instance) :
    (m.updateInstance ref f).frame = m.frame.reindexed (m.updateInstance ref f).index := by
  unfold RawNode.updateInstance
  split <;> rfl

theorem frame_setInstance (f : Instance → Instance) :
    (m.setInstance ref f).frame = m.frame.reindexed (m.setInstance ref f).index := by
  unfold RawNode.setInstance
  split <;> rfl

theorem frame_schedule (kind : TimerKind) (after : ℕ) :
    (m.schedule ref kind after).1.frame = m.frame := by
  unfold RawNode.schedule
  split <;> rfl

theorem instances_schedule (kind : TimerKind) (after : ℕ) :
    (m.schedule ref kind after).1.instances = m.instances :=
  congrArg (fun f : Frame ↦ f.index.instances) (frame_schedule m ref kind after)

theorem frame_advanceCommitted (lane : InstanceLane) (bound : ℕ) :
    (m.advanceCommitted lane bound).frame = m.frame := by
  induction bound generalizing m with
  | zero => rfl
  | succ bound ih =>
    unfold RawNode.advanceCommitted
    split
    · rfl
    split
    · rfl
    split_ifs
    · rfl
    · exact ih _

theorem frame_noteCommitted : (m.noteCommitted ref).frame = m.frame := by
  unfold RawNode.noteCommitted
  dsimp only
  split_ifs
  · rfl
  · rfl
  · exact frame_advanceCommitted ..

theorem frame_observeInstanceRef : (m.observeInstanceRef ref).frame = m.frame := by
  unfold RawNode.observeInstanceRef
  split_ifs <;> rfl

theorem frame_markPendingConf (rec : InstanceRecord) : (m.markPendingConf rec).frame = m.frame := by
  unfold RawNode.markPendingConf
  split_ifs <;> rfl

theorem frame_refreshPendingConf : m.refreshPendingConf.frame = m.frame := by
  have hfold : ∀ (entries : List (InstanceRef × Instance)) (node : RawNode),
      (entries.foldl (fun node entry ↦ node.markPendingConf entry.2.record) node).frame
        = node.frame := by
    intro entries
    induction entries with
    | nil => exact fun node ↦ rfl
    | cons entry rest ih => exact fun node ↦ (ih _).trans (frame_markPendingConf ..)
  exact hfold _ _

/-- Installing an instance marks it when it is executed. -/
theorem installInstance_eq (inst : Instance) : ∃ node : RawNode,
    node.frame = m.frame.reindexed (m.index.install inst) ∧
    m.installInstance inst = if inst.record.status = .executed then
      { node with executed := node.executed.add inst.record.ref } else node := by
  unfold RawNode.installInstance
  extract_lets ref pruned dropped committed installed inserted noted
  have hpruned : pruned.frame = m.frame := by
    unfold pruned
    split_ifs <;> rfl
  have hsettled : installed = inst.settled := by
    unfold installed committed Instance.settled
    simp only [decide_eq_true_eq]
  have hinserted : inserted.frame = m.frame.reindexed (m.index.install inst) := by
    have hindex : pruned.index = m.index := congrArg Frame.index hpruned
    have hframe : inserted.frame = pruned.frame.reindexed
        { pruned.index with instances := pruned.index.instances.insert ref installed
                            engine := pruned.index.engine.apply (pruned.index.record? ref)
                              inst.record } := rfl
    rw [hframe, hpruned, hindex, hsettled]
    rfl
  refine ⟨noted, ?_, rfl⟩
  unfold noted
  split_ifs
  · exact (frame_noteCommitted ..).trans hinserted
  · exact hinserted

theorem index_installInstance (inst : Instance) :
    (m.installInstance inst).index = m.index.install inst := by
  obtain ⟨node, hnode, hinst⟩ := installInstance_eq m inst
  have hindex : node.index = m.index.install inst := congrArg Frame.index hnode
  rw [hinst]
  split_ifs <;> exact hindex

theorem frame_installInstance_plane (inst : Instance) : (m.installInstance inst).frame =
    { m.frame.reindexed (m.index.install inst) with plane := (m.installInstance inst).plane } := by
  obtain ⟨node, hnode, hinst⟩ := installInstance_eq m inst
  rw [hinst, ← hnode]
  split_ifs <;> rfl

theorem frame_installInstance {inst : Instance} (hstatus : inst.record.status ≠ .executed) :
    (m.installInstance inst).frame = m.frame.reindexed (m.index.install inst) := by
  obtain ⟨node, hnode, hinst⟩ := installInstance_eq m inst
  rw [hinst, if_neg hstatus]
  exact hnode

end Silent

/-- A change of one resident instance keeps every payload. Assumes: it keeps its own. -/
theorem full_change {x y : Index} {f : Instance → Instance}
    (hget : ∀ other, y.instances.get? other =
      if other = ref then (x.instances.get? ref).map f else x.instances.get? other)
    (hf : ∀ inst, inst.payloadAbsent = none → (f inst).payloadAbsent = none)
    {other : InstanceRef} (hfull : x.Full other) : y.Full other := by
  obtain ⟨inst, hresident, hpayload⟩ := hfull
  by_cases hother : other = ref
  · subst hother
    exact ⟨f inst, by rw [hget, if_pos rfl, hresident, Option.map_some], hf inst hpayload⟩
  · exact ⟨inst, by rw [hget, if_neg hother, hresident], hpayload⟩

theorem full_install {x : Index} {inst : Instance} (hpayload : inst.payloadAbsent = none)
    {other : InstanceRef} (hfull : x.Full other) : (x.install inst).Full other := by
  obtain ⟨found, hresident, hfound⟩ := hfull
  by_cases hother : other = inst.record.ref
  · subst hother
    refine ⟨inst.settled, FiniteMap.get?_insert_self .., ?_⟩
    rw [← hpayload]
    unfold Instance.settled
    split_ifs <;> rfl
  · exact ⟨found, (FiniteMap.get?_insert_of_ne _ _ hother).trans hresident, hfound⟩

section

variable (hshifts : Shifts scope n m)

include hshifts

/-- A change of an instance past the engine. Assumes: it leaves alone what the index keeps. -/
theorem changeInstance (ref : InstanceRef) (f : Instance → Instance)
    (hpayload : ∀ inst, inst.payloadAbsent = none → (f inst).payloadAbsent = none)
    (hf : n.index.Keyed → m.index.Keyed → ∀ inst, m.instances.get? ref = some inst →
      (f inst).Keyed ref ∧ ConflictEngine.Alike (f inst).record inst.record) :
    Shifts scope n (m.updateInstance ref f) := by
  refine hshifts.of_reindex (frame_updateInstance ..)
    (fun hn hm ↦ hm.of_change (fun other ↦ get?_updateInstance ..) fun inst hget ↦
      (hf hn hm inst hget).1) (fun hn hm ↦ ?_) fun _ other _ hfull ↦
    full_change (fun other ↦ get?_updateInstance ..) hpayload hfull
  unfold RawNode.updateInstance
  cases hget : m.instances.get? ref with
  | none => exact hm
  | some inst =>
    have hinst := hf hn.keyed hm.keyed inst hget
    exact hm.change hget hinst.1 hinst.2

/-- A change of what a coordinator keeps of an instance. -/
theorem updateInstance (ref : InstanceRef) (f : Instance → Instance)
    (hf : ∀ inst, (f inst).record = inst.record ∧ (f inst).prepareOK = inst.prepareOK ∧
      (f inst).prepareEvidence = inst.prepareEvidence ∧
      (f inst).payloadAbsent = inst.payloadAbsent) :
    Shifts scope n (m.updateInstance ref f) := by
  refine hshifts.changeInstance ref f (fun inst hpayload ↦ ?_) fun _ hm inst hget ↦ ?_
  · rw [(hf inst).2.2.2, hpayload]
  obtain ⟨hrecord, hanswers, hevidence, -⟩ := hf inst
  have hkeyed : inst.Keyed ref := hm ref inst hget
  refine ⟨hkeyed.of_record (by rw [hrecord, hkeyed.record]) hanswers hevidence, ?_⟩
  rw [hrecord]
  exact .refl _

theorem releaseInstance (ref : InstanceRef) :
    Shifts scope n (m.updateInstance ref releaseInstanceVolatile) :=
  hshifts.changeInstance ref _ (fun _ hpayload ↦ hpayload) fun _ hm inst hget ↦
    ⟨(hm ref inst hget).release, .refl _⟩

theorem setInstance (ref : InstanceRef) (f : Instance → Instance)
    (hpayload : scope.drops = false → ∀ inst, inst.payloadAbsent = none →
      (f inst).payloadAbsent = none)
    (hf : n.index.Keyed → m.index.Keyed → ∀ inst, m.instances.get? ref = some inst →
      (f inst).Keyed ref) : Shifts scope n (m.setInstance ref f) := by
  refine hshifts.of_reindex (frame_setInstance ..)
    (fun hn hm ↦ hm.of_change (fun other ↦ get?_setInstance ..) fun inst hget ↦
      hf hn hm inst hget) (fun hn hm ↦ ?_) fun hscope other _ hfull ↦
    full_change (fun other ↦ get?_setInstance ..) (hpayload hscope) hfull
  unfold RawNode.setInstance
  cases hget : m.instances.get? ref with
  | none => exact hm
  | some inst =>
    have hinstalled := Index.Coherent.set hm (hf hn.keyed hm.keyed inst hget)
    have hrecord : m.index.record? ref = some inst.record := by
      change (m.instances.get? ref).map _ = _
      rw [hget, Option.map_some]
    rwa [hrecord] at hinstalled

theorem setInstanceRecord {rec : InstanceRecord}
    (hrec : n.index.Keyed → rec.ref = ref) : Shifts scope n (m.setInstanceRecord ref rec) :=
  hshifts.setInstance ref _ (fun _ _ hpayload ↦ hpayload) fun hn hm inst hget ↦
    (hm ref inst hget).of_record (hrec hn) rfl rfl

/-- A record that is changed past the engine. -/
theorem amend (ref : InstanceRef) {rec : InstanceRecord}
    (f : Instance → Instance) (hf : ∀ inst, (f inst).record = rec ∧
      (f inst).prepareOK = inst.prepareOK ∧ (f inst).prepareEvidence = inst.prepareEvidence ∧
      (f inst).payloadAbsent = inst.payloadAbsent)
    (hrec : n.index.Keyed → rec.ref = ref) (halike : ∀ inst, m.instances.get? ref = some inst →
      ConflictEngine.Alike rec inst.record) : Shifts scope n (m.updateInstance ref f) := by
  refine hshifts.changeInstance ref f (fun inst hpayload ↦ ?_) fun hn hm inst hget ↦ ?_
  · rw [(hf inst).2.2.2, hpayload]
  obtain ⟨hrecord, hanswers, hevidence, -⟩ := hf inst
  rw [hrecord]
  exact ⟨(hm ref inst hget).of_record (by rw [hrecord, hrec hn]) hanswers hevidence,
    halike inst hget⟩

theorem dropInstance (ref : InstanceRef)
    (habsent : scope.drops = false → ¬n.index.Full ref) : Shifts scope n (m.dropInstance ref) := by
  have hframe : (m.dropInstance ref).frame = m.frame.reindexed (m.dropInstance ref).index := rfl
  refine hshifts.of_reindex hframe (fun _ hm ↦ hm.erase ref _ _) (fun _ hm ↦ ?_)
    fun hscope other hn hfull ↦ ?_
  swap
  · obtain ⟨inst, hresident, hpayload⟩ := hfull
    have hother : other ≠ ref := fun heq ↦ habsent hscope (heq ▸ hn)
    have hkept : (m.dropInstance ref).instances.get? other = m.instances.get? other :=
      (FiniteMap.get?_erase ..).trans (if_neg hother)
    exact ⟨inst, hkept.trans hresident, hpayload⟩
  cases hget : m.instances.get? ref with
  | none =>
    have hrecord : m.record? ref = none := by rw [record?, hget, Option.map_none]
    unfold RawNode.dropInstance
    rw [hrecord]
    exact hm.drop_absent hget
  | some inst =>
    have hdrop := hm.drop hget
    have hrecord : m.record? ref = some inst.record := by rw [record?, hget, Option.map_some]
    unfold RawNode.dropInstance
    rw [hrecord]
    exact hdrop

theorem schedule (ref : InstanceRef) (kind : TimerKind) (after : ℕ) :
    Shifts scope n (m.schedule ref kind after).1 :=
  hshifts.of_frame (frame_schedule ..)

theorem scheduleRecovery (ref : InstanceRef) :
    Shifts scope n (m.scheduleRecovery ref).1 := by
  unfold RawNode.scheduleRecovery
  split
  · exact hshifts
  split
  · exact hshifts
  split
  · exact hshifts
  · exact (hshifts.schedule ref _ _).updateInstance ref _
      (by exact fun _ ↦ ⟨rfl, rfl, rfl, rfl⟩)

theorem noteCommitted (ref : InstanceRef) :
    Shifts scope n (m.noteCommitted ref) :=
  hshifts.of_frame (frame_noteCommitted ..)

theorem observeInstanceRef (ref : InstanceRef) :
    Shifts scope n (m.observeInstanceRef ref) :=
  hshifts.of_frame (frame_observeInstanceRef ..)

theorem markPendingConf (rec : InstanceRecord) :
    Shifts scope n (m.markPendingConf rec) :=
  hshifts.of_frame (frame_markPendingConf ..)

theorem installInstance {inst : Instance}
    (hstatus : inst.record.status ≠ .executed)
    (hkeyed : inst.Keyed inst.record.ref) (hpayload : inst.payloadAbsent = none) :
    Shifts scope n (m.installInstance inst) :=
  hshifts.of_reindex (frame_installInstance _ hstatus)
    (fun _ hm ↦ hm.insert (Index.keyed_settled hkeyed) _) (fun _ hm ↦ hm.install hkeyed)
    fun _ _ _ hfull ↦ full_install hpayload hfull

theorem removeDeferredPreAccepts (ref : InstanceRef) :
    Shifts scope n (m.removeDeferredPreAccepts ref) := by
  refine hshifts.of_timing rfl fun _ ↦ ⟨rfl, rfl, rfl, fun domain ↦ ?_⟩
  change ((m.deferred.detachAll _).queue domain).Sublist (m.deferred.queue domain)
  rw [IndexedHeaps.queue_detachAll]
  exact List.filter_sublist

theorem clearPending (ref : InstanceRef) :
    Shifts scope n (m.clearPending ref) :=
  hshifts.removeDeferredPreAccepts ref

end

/-! ### Loops and messages -/

section

variable (hshifts : Shifts scope n m)

include hshifts

/-- A loop whose body is a sequence of shifts. -/
theorem foldl {α : Type} {f : RawNode → α → RawNode}
    (hf : ∀ {node : RawNode} (a : α), Shifts scope n node → Shifts scope n (f node a))
    (as : List α) :
    Shifts scope n (as.foldl f m) := by
  induction as generalizing m with
  | nil => exact hshifts
  | cons a rest ih => exact ih (hf a hshifts)

theorem sendAll (conf : ConfID) (message : ReplicaID → Message) :
    Shifts scope n (m.sendAll conf message) :=
  hshifts.foldl (fun target hnode ↦ hnode.enqueueMessage (message target)) _

theorem broadcastPreAccept (ref : InstanceRef) :
    Shifts scope n (m.broadcastPreAccept ref) := by
  unfold RawNode.broadcastPreAccept
  split
  · exact hshifts.deferRecordLoadExport ..
  · exact hshifts.sendAll ..

theorem broadcast (type : MessageType) (ref : InstanceRef) :
    Shifts scope n (m.broadcast type ref) := by
  unfold RawNode.broadcast
  split
  · exact hshifts.deferRecordLoadExport ..
  · exact hshifts.sendAll ..

theorem broadcastTryPreAcceptIgnore (ref ignore : InstanceRef) :
    Shifts scope n (m.broadcastTryPreAcceptIgnore ref ignore) := by
  unfold RawNode.broadcastTryPreAcceptIgnore
  split
  · exact hshifts.deferRecordLoadExport ..
  · exact hshifts.sendAll ..

theorem broadcastTryPreAccept (ref : InstanceRef) :
    Shifts scope n (m.broadcastTryPreAccept ref) := by
  unfold RawNode.broadcastTryPreAccept
  split
  · exact hshifts
  split_ifs
  · exact hshifts.broadcast ..
  · exact hshifts.foldl (fun ignore hnode ↦ hnode.broadcastTryPreAcceptIgnore ref ignore) _

theorem sendCommitTo (target : ReplicaID) (ref : InstanceRef) :
    Shifts scope n (m.sendCommitTo target ref) := by
  unfold RawNode.sendCommitTo
  split
  · exact hshifts.deferRecordLoadExport ..
  · exact hshifts.enqueueMessage _

theorem requirePayload {msg : Message} {result : RawNode × Option Err}
    (hresult : m.requirePayload ref msg = some result) : Shifts scope n result.1 := by
  unfold RawNode.requirePayload at hresult
  split_ifs at hresult
  rw [← Option.some.inj hresult]
  exact hshifts.deferRecordLoadWith ..

end

/-! ### Phases -/

section Drive

variable {drive : RawNode → RawNode} (hdrive : ∀ node, Shifts scope node (drive node))

include hdrive

section

variable (hshifts : Shifts scope n m)

include hshifts

theorem commit (ref : InstanceRef) (attrs : Attributes) :
    Shifts scope n (m.commit drive ref attrs) := by
  unfold RawNode.commit
  split
  · exact hshifts
  next inst hget =>
  split_ifs
  · exact hshifts
  · have hset := (hshifts.clearPending ref).setInstance ref
      (fun inst' ↦ { inst' with record := committedRecord inst.record attrs, phase := .committed
                                generation := inst'.generation + 1 })
      (fun _ _ hpayload ↦ hpayload) fun _ hm inst' hget' ↦ (hm ref inst' hget').of_record
        ((ref_committedRecord ..).trans (hm ref inst hget).record) rfl rfl
    exact ((((hset.noteCommitted ref).enqueueRecord _).broadcast .commit ref).releaseInstance
      ref).trans (hdrive _)

theorem startAccept (ref : InstanceRef) (attrs : Attributes) :
    Shifts scope n (m.startAccept drive ref attrs) := by
  unfold RawNode.startAccept
  split
  · exact hshifts
  next inst hget =>
  split
  · exact hshifts
  extract_lets cleared next set queued
  have hset : Shifts scope n set := (hshifts.clearPending ref).setInstance ref _
    (fun _ _ hpayload ↦ hpayload) fun _ hm _ _ ↦
    .of_empty ((ref_acceptPhaseRecord ..).trans (hm ref inst hget).record) rfl rfl
  split_ifs
  · exact (hset.enqueueRecord _).commit hdrive ref attrs
  · exact ((hset.enqueueRecord _).broadcast .accept ref).schedule ref .accept _

theorem startTryPreAccept (ref : InstanceRef) (attrs : Attributes)
    (witnesses : VoterMask) : Shifts scope n (m.startTryPreAccept drive ref attrs witnesses) := by
  unfold RawNode.startTryPreAccept
  split
  · exact hshifts
  next inst hget =>
  split
  · exact hshifts
  extract_lets votes next set queued
  have hset : Shifts scope n set := (hshifts.clearPending ref).setInstance ref _
    (fun _ _ hpayload ↦ hpayload) fun _ hm _ _ ↦
    .of_empty (hm ref inst hget).record rfl rfl
  split_ifs
  · exact (hset.enqueueRecord _).startAccept hdrive ref attrs
  · exact ((hset.enqueueRecord _).broadcastTryPreAccept ref).schedule ref .tryPreAccept _

theorem acceptNone {rec : InstanceRecord}
    (hrec : n.index.Keyed → rec.ref = ref) : Shifts scope n (m.acceptNone drive ref rec) := by
  refine Shifts.startAccept hdrive (hshifts.setInstance ref _ (by exact fun _ _ hpayload ↦ hpayload)
    fun hn hm inst hget ↦ ?_) ref _
  exact (hm ref inst hget).of_record (hrec hn) rfl rfl

theorem startPrepareFrom (ref : InstanceRef) (base : Ballot) :
    Shifts scope n (m.startPrepareFrom drive ref base).1 := by
  unfold RawNode.startPrepareFrom
  split
  · exact hshifts
  next inst hget =>
  extract_lets least cleared padded conf
  split
  · exact hshifts
  next ballot hballot =>
  split_ifs
  · exact hshifts
  extract_lets promised set
  have hcleared : Shifts scope n cleared := hshifts
  have hgiven : cleared.instances.get? ref = some inst := hget
  have hpromised : n.index.Keyed → promised.ref = ref := fun hn ↦
    (ref_ensureRecordDeps ..).trans (hshifts.keyed hn ref inst hget).record
  have hset : ∀ votes generation, (∀ id rec, FiniteMap.get? votes id = some rec →
      rec = promised) → Shifts scope n (set votes generation) := by
    intro votes generation hvotes
    refine hcleared.changeInstance ref _ (fun _ hpayload ↦ hpayload) fun hn hm found hfound ↦
      ⟨⟨hpromised hn, ?_, ?_⟩, ?_⟩
    · intro id rec hrec
      rw [hvotes id rec hrec, hpromised hn]
    · simp [releaseInstanceVolatile]
    · rw [hgiven] at hfound
      rw [← Option.some.inj hfound]
      exact ⟨(alike_ensureRecordDeps ..).facts, (alike_ensureRecordDeps ..).footprint⟩
  split
  · exact hset _ _ (by simp)
  next votes hadd =>
  have hvotes : ∀ id rec, FiniteMap.get? votes id = some rec → rec = promised := by
    intro id rec hrec
    rw [(VoteSet.add_eq_some hadd).2.2, FiniteMap.get?_insert] at hrec
    split_ifs at hrec
    · exact (Option.some.inj hrec).symm
    · simp at hrec
  extract_lets queued noted
  have hqueued : Shifts scope n queued := (hset _ _ hvotes).enqueueRecord _
  split_ifs
  · have hnoted : Shifts scope n noted := hqueued.note rfl
    split
    · exact hnoted
    · next value hvalue =>
      exact hnoted.acceptNone hdrive fun hn ↦ (ref_valueOfNone _ hvalue).trans (hpromised hn)
  · exact (hqueued.sendAll _ _).schedule ref .prepare _

theorem startPrepare (ref : InstanceRef) :
    Shifts scope n (m.startPrepare drive ref).1 :=
  hshifts.startPrepareFrom hdrive ref _

end

end Drive

end Shifts

end RawNode

end MoreConsensus
