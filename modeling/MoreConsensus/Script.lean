import MoreConsensus.Cluster

/-!
# Scripts

The batches and messages of a run depend on its states, so a run is inconvenient to write down. A
script names them by what they are: the batch that is due at a host, the latest message of a kind
between two hosts. What a script does is a run (`script_run`).
-/

set_option autoImplicit false

namespace MoreConsensus

open Library

/-- One line of a script. -/
inductive Act
  | op (op : Op)
  /-- The application takes a batch, stores all of it, carries it out and acknowledges it. -/
  | flush (id : ReplicaID)
  /-- The application takes a batch and stores all of it. -/
  | store (id : ReplicaID)
  /-- The latest message of a type between two hosts about a reference is delivered. -/
  | deliver (type : MessageType) (source target : ReplicaID) (ref : InstanceRef)
  /-- Logical time moves by a number of ticks. -/
  | ticks (id : ReplicaID) (count : ℕ)
  /-- The application answers the checkpoint request of a host with a one-byte snapshot. -/
  | snapshot (id : ReplicaID)

namespace Cluster

/-- The batch that is frozen at a host. -/
def frozen (c : Cluster) (id : ReplicaID) : Ready := (c.host? id).elim {} Host.frozen

/-- The latest message of a type between two hosts about a reference. -/
def latest (c : Cluster) (type : MessageType) (source target : ReplicaID) (ref : InstanceRef) :
    Option Message :=
  c.net.reverse.find? fun m ↦
    m.type == type && m.source == source && m.target == target && m.ref == ref

/-- The checkpoint a host waits for. -/
def requested (c : Cluster) (id : ReplicaID) : Option CheckpointRequest :=
  ((c.node? id).bind RawNode.checkpointRound).map CheckpointRound.request

/-- The operations a line stands for. -/
def opsOf (c : Cluster) : Act → List Op
  | .op op => [op]
  | .flush id =>
    let take : Op := ⟨id, .call .ready⟩
    [take, ⟨id, .persist ((c.step take).frozen id)⟩, ⟨id, .acknowledge⟩]
  | .store id =>
    let take : Op := ⟨id, .call .ready⟩
    [take, ⟨id, .persist ((c.step take).frozen id)⟩]
  | .deliver type source target ref =>
    ((c.latest type source target ref).map fun m ↦ ⟨target, .call (.step m)⟩).toList
  | .ticks id count => List.replicate count ⟨id, .call .tick⟩
  | .snapshot id => ((c.requested id).map fun request ↦
      ⟨id, .call (.provideCheckpoint ⟨request.id, [0], 1⟩)⟩).toList

def script (c : Cluster) (acts : List Act) : Cluster :=
  acts.foldl (fun c act ↦ c.run (c.opsOf act)) c

theorem run_append (c : Cluster) (first second : List Op) :
    c.run (first ++ second) = (c.run first).run second := List.foldl_append

/-- The operations a script stands for. -/
def lines (c : Cluster) : List Act → List Op
  | [] => []
  | act :: rest => c.opsOf act ++ (c.run (c.opsOf act)).lines rest

theorem run_lines (acts : List Act) (c : Cluster) : c.run (c.lines acts) = c.script acts := by
  induction acts generalizing c with
  | nil => rfl
  | cons act rest ih => rw [lines, run_append, ih]; rfl

theorem script_run (acts : List Act) (c : Cluster) : ∃ ops, c.run ops = c.script acts :=
  ⟨c.lines acts, run_lines acts c⟩

/-- Every host of a script has a run. -/
theorem host?_script (c : Cluster) (acts : List Act) (id : ReplicaID) :
    (c.script acts).host? id =
      (c.host? id).map fun host ↦ host.run (c.opsAt id (c.lines acts)) := by
  rw [← run_lines acts c]
  exact host?_run _ id c

end Cluster

/-- All that is ready at a host is taken, in the order in which it gets ready. -/
def settle (id : ReplicaID) : List Act := [.flush id, .flush id]

/-- The first replica proposes a command at a reference and commits it with the second one. -/
def agree (cmd : Command) (ref : InstanceRef) : List Act :=
  [.op ⟨1, .call (.propose cmd)⟩, .flush 1, .deliver .preAccept 1 2 ref, .flush 2,
    .deliver .preAcceptResp 2 1 ref] ++ settle 1

/-- One line of a script of a node: a call, or all of a batch is taken and acknowledged. -/
inductive NodeAct
  | call (call : Call)
  | flush

namespace RawNode

/-- The calls a line stands for. -/
def callsOf (n : RawNode) : NodeAct → List Call
  | .call c => [c]
  | .flush => [.ready, .advance n.ready.frozenReady]

/-- The calls a script stands for. -/
def script (n : RawNode) : List NodeAct → List Call
  | [] => []
  | act :: rest => n.callsOf act ++ (n.run (n.callsOf act)).script rest

end RawNode

end MoreConsensus
