import MoreConsensus.Host

/-!
# Clusters

A cluster is a set of hosts and a network that remembers every message it was ever given: delivery
may repeat a message, leave it out or reorder it at will. The messages of a batch are sent when the
batch has been stored.

An operation that is not enabled leaves the cluster as it is, so every list of operations is a run.
-/

set_option autoImplicit false

namespace MoreConsensus

open Library

structure Cluster where
  hosts : FiniteMap ReplicaID Host
  net : List Message := []

/-- What can happen in a cluster: something happens at one host. -/
structure Op where
  host : ReplicaID
  op : HostOp

namespace Cluster

def host? (c : Cluster) (id : ReplicaID) : Option Host := c.hosts.get? id

def node? (c : Cluster) (id : ReplicaID) : Option RawNode := (c.host? id).bind Host.node

/-- Whether an operation is possible: only messages that were sent arrive. -/
def enabled (c : Cluster) : HostOp → Bool
  | .call (.step m) => decide (m ∈ c.net)
  | _ => true

/-- The messages an operation sends: those of the batches it stores. -/
def sent (before after : Host) : List Message :=
  (after.log.drop before.log.length).flatMap Ready.messages

def step (c : Cluster) (op : Op) : Cluster :=
  match c.host? op.host with
  | none => c
  | some host =>
    if c.enabled op.op then
      let next := host.step op.op
      ⟨c.hosts.insert op.host next, c.net ++ sent host next⟩
    else c

def run (c : Cluster) (ops : List Op) : Cluster := ops.foldl step c

/-- The start of a run: every voter of a configuration, each with its own parameters. -/
def start (base : VoterSet) (cfg : ReplicaID → Config) : Cluster :=
  { hosts := base.voters.foldl
      (fun hosts id ↦ hosts.insert id (Host.start id (cfg id) base)) ∅ }

/-! ### Hosts of a run -/

/-- What happens at one host in a run. -/
def opsAt (id : ReplicaID) (c : Cluster) : List Op → List HostOp
  | [] => []
  | op :: rest => (if op.host = id && c.enabled op.op then [op.op] else []) ++
    (c.step op).opsAt id rest

theorem host?_step (c : Cluster) (op : Op) (id : ReplicaID) :
    (c.step op).host? id = (c.host? id).map fun host ↦
      host.run (if op.host = id && c.enabled op.op then [op.op] else []) := by
  unfold step
  by_cases hid : op.host = id
  · subst hid
    cases hhost : c.host? op.host with
    | none => simpa using hhost
    | some host =>
      cases c.enabled op.op with
      | false => simpa [Host.run] using hhost
      | true => simp [host?, Host.run]
  · have hsame : (c.host? id).map (fun host ↦ host.run []) = c.host? id := by simp [Host.run]
    simp only [hid, decide_false, Bool.false_and, Bool.false_eq_true, if_false, hsame]
    split
    · rfl
    · split_ifs
      · have hne : id ≠ op.host := fun heq ↦ hid heq.symm
        simp [host?, FiniteMap.get?_insert, hne]
      · rfl

/-- A run of a cluster is a run of every host. -/
theorem host?_run (ops : List Op) (id : ReplicaID) (c : Cluster) :
    (c.run ops).host? id = (c.host? id).map fun host ↦ host.run (c.opsAt id ops) := by
  induction ops generalizing c with
  | nil => simp [run, opsAt, Host.run]
  | cons op rest ih =>
    rw [show c.run (op :: rest) = (c.step op).run rest from rfl, ih, c.host?_step, Option.map_map]
    simp [Function.comp_def, opsAt, Host.run, List.foldl_append]

end Cluster

end MoreConsensus
