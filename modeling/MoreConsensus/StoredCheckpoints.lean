import MoreConsensus.Compaction

/-!
# Stored checkpoints

A node acts on checkpoints that its host has stored: the checkpoint it starts from, the checkpoint
it compacts and the ranges it asks to be compacted go back to a certified snapshot in a stored
batch. `Traceable` is that invariant of a host, and `traceable_run` proves it for every run,
whatever messages arrive and however often the host restarts.

`compaction_preserves` is what a finished compaction then keeps: nothing is lost when everything
above the frontier is resident. A folded instance above the frontier is not, and in
`compaction_forgets` a replica forgets that it executed one.
-/

set_option autoImplicit false

namespace MoreConsensus

open Library

/-- A certified checkpoint whose frontier a stored batch has as a certified snapshot. -/
def Vouched (log : List Ready) (checkpoint : Checkpoint) : Prop :=
  checkpointCertified checkpoint = true → checkpoint.descriptor.through.Proper ∧
    ∃ rd ∈ log, ∃ snapshot, rd.snapshot = some snapshot ∧
      checkpointCertified snapshot.checkpoint = true ∧
      snapshot.checkpoint.descriptor = checkpoint.descriptor

/-- A range all of whose references a certified checkpoint of a stored batch covers. -/
def Covered (log : List Ready) (range : CompactionRange) : Prop :=
  ∃ rd ∈ log, ∃ snapshot, rd.snapshot = some snapshot ∧
    checkpointCertified snapshot.checkpoint = true ∧
    ∀ inst ≤ range.through, frontierCovers snapshot.checkpoint.descriptor.through
      ⟨range.replica, inst, range.conf⟩ = true

section

variable {log : List Ready} {rd : Ready} {storage next : Storage}
  {history : List ConfigHistoryEntry} {checkpoint : Checkpoint}

theorem Vouched.append (hvouched : Vouched log checkpoint) (rd : Ready) :
    Vouched (log ++ [rd]) checkpoint := fun hcertified ↦ by
  obtain ⟨hproper, found, hfound, hsnapshot⟩ := hvouched hcertified
  exact ⟨hproper, found, List.mem_append_left _ hfound, hsnapshot⟩

theorem Covered.append {range : CompactionRange} (hcovered : Covered log range) (rd : Ready) :
    Covered (log ++ [rd]) range := by
  obtain ⟨found, hfound, hsnapshot⟩ := hcovered
  exact ⟨found, List.mem_append_left _ hfound, hsnapshot⟩

/-- Only the descriptor and the certificate count. -/
theorem Vouched.congr {first second : Checkpoint}
    (hdescriptor : second.descriptor = first.descriptor)
    (hcertificate : second.certificate = first.certificate) (hfirst : Vouched log first) :
    Vouched log second := by
  intro hcertified
  have hsame : checkpointCertified second = checkpointCertified first := by
    unfold checkpointCertified Checkpoint.empty
    rw [hdescriptor, hcertificate]
  rw [hdescriptor]
  exact hfirst (hsame ▸ hcertified)

theorem Vouched.empty (log : List Ready) : Vouched log {} := fun hcertified ↦
  absurd hcertified (by decide)

/-- The ranges of a checkpoint are lanes of its frontier. -/
theorem Vouched.covered (hvouched : Vouched log checkpoint) :
    ∀ range ∈ canonicalCompactionRanges checkpoint, Covered log range := by
  intro range hrange
  unfold canonicalCompactionRanges at hrange
  split_ifs at hrange with hcertified
  · obtain ⟨hproper, rd, hrd, snapshot, hsnapshot, hstored, hdescriptor⟩ := hvouched hcertified
    obtain ⟨entry, hentry, rfl⟩ := List.mem_map.mp hrange
    refine ⟨rd, hrd, snapshot, hsnapshot, hstored, fun inst hle ↦ ?_⟩
    have hlane := ExecutionFrontier.lane?_eq_some hproper (List.mem_of_mem_filter hentry)
    unfold frontierCovers
    rw [hdescriptor]
    exact (congrArg (fun lane? : Option ExecutionLaneFrontier ↦
      lane?.elim false fun lane ↦ decide (inst ≤ lane.through)) hlane).trans (decide_eq_true hle)
  · simp at hrange

/-- A batch that is stored has a valid snapshot, and it becomes the checkpoint. -/
theorem Storage.nextCheckpoint_eq (hnext : storage.nextCheckpoint history rd = some checkpoint) :
    (∀ snapshot, rd.snapshot = some snapshot →
      validateCheckpoint snapshot.checkpoint (Storage.confsOf history) = true) ∧
    checkpoint.descriptor = (rd.snapshot.elim storage.checkpoint Snapshot.checkpoint).descriptor ∧
    checkpoint.certificate =
      (rd.snapshot.elim storage.checkpoint Snapshot.checkpoint).certificate := by
  unfold Storage.nextCheckpoint at hnext
  obtain ⟨replaced, hreplaced, hcompact⟩ := Option.bind_eq_some_iff.mp hnext
  have hsame : checkpoint.descriptor = replaced.descriptor ∧
      checkpoint.certificate = replaced.certificate := by
    split_ifs at hcompact
    · exact Option.some.inj hcompact ▸ ⟨rfl, rfl⟩
    · exact Option.some.inj hcompact ▸ ⟨rfl, rfl⟩
  cases hsnapshot : rd.snapshot with
  | none =>
    rw [hsnapshot] at hreplaced
    obtain rfl := Option.some.inj hreplaced
    exact ⟨by simp, hsame⟩
  | some snapshot =>
    rw [hsnapshot] at hreplaced
    obtain ⟨hchecks, hsome⟩ := Option.ite_none_left_eq_some.mp hreplaced
    obtain rfl := Option.some.inj hsome
    simp only [Bool.or_eq_true, not_or, Bool.not_eq_true, Bool.not_eq_false'] at hchecks
    refine ⟨fun other hother ↦ ?_, hsame⟩
    obtain rfl := Option.some.inj hother
    exact hchecks.1.2

theorem Storage.applyReady_checkpoint (hnext : storage.applyReady rd = some next) :
    ∃ history, storage.nextCheckpoint history rd = some next.checkpoint := by
  unfold Storage.applyReady at hnext
  obtain ⟨-, hbind⟩ := Option.ite_none_left_eq_some.mp hnext
  obtain ⟨history, -, hmap⟩ := Option.bind_eq_some_iff.mp hbind
  obtain ⟨checkpoint, hcheckpoint, rfl⟩ := Option.map_eq_some_iff.mp hmap
  exact ⟨history, hcheckpoint⟩

/-- What is stored is traceable once the batch is in the log. -/
theorem Vouched.applyReady (hvouched : Vouched log storage.checkpoint)
    (hnext : storage.applyReady rd = some next) :
    (∀ snapshot, rd.snapshot = some snapshot → Vouched (log ++ [rd]) snapshot.checkpoint) ∧
      Vouched (log ++ [rd]) next.checkpoint := by
  obtain ⟨history, hcheckpoint⟩ := Storage.applyReady_checkpoint hnext
  obtain ⟨hvalid, hdescriptor, hcertificate⟩ := Storage.nextCheckpoint_eq hcheckpoint
  have hsnapshot : ∀ snapshot, rd.snapshot = some snapshot →
      Vouched (log ++ [rd]) snapshot.checkpoint := fun snapshot hsome hcertified ↦
    ⟨proper_of_validateCheckpoint hcertified (hvalid snapshot hsome), rd, by simp, snapshot, hsome,
      hcertified, rfl⟩
  refine ⟨hsnapshot, ?_⟩
  cases hsome : rd.snapshot with
  | none =>
    rw [hsome] at hdescriptor hcertificate
    exact (hvouched.append rd).congr hdescriptor hcertificate
  | some snapshot =>
    rw [hsome] at hdescriptor hcertificate
    exact (hsnapshot snapshot hsome).congr hdescriptor hcertificate

end

/-! ### Scripts -/

/-- Every replica executes a command; the second and the third one also execute a checkpoint barrier
of the third one. -/
def barrierScript : List Act :=
  agree { payload := [1], footprint := { points := [[7]] } } ⟨1, 1, 1⟩ ++
    [.deliver .commit 1 2 ⟨1, 1, 1⟩] ++ settle 2 ++ [.deliver .commit 1 3 ⟨1, 1, 1⟩] ++ settle 3 ++
    [.ticks 3 1, .flush 3, .deliver .preAccept 3 2 ⟨3, 1, 1⟩, .flush 2,
      .deliver .preAcceptResp 2 3 ⟨3, 1, 1⟩] ++ settle 3 ++
    [.deliver .commit 3 2 ⟨3, 1, 1⟩] ++ settle 2

/-- The second and the third replica certify the checkpoint. -/
def certifyScript : List Act :=
  [.snapshot 2] ++ settle 2 ++ [.snapshot 3] ++ settle 3 ++
    [.deliver .checkpointVote 2 3 ⟨3, 1, 1⟩, .flush 3]

/-- Replicas that keep one executed instance of a lane. -/
def folding : Config := { retainExecutedPerLane := 1, recoveryTicks := 1 }

def foldingCluster : Cluster := .start threeReplicas fun _ ↦ folding

namespace Host

variable {host : Host} {n m : RawNode}

/-! ### Runs of a host -/

/-- Everything a host knows about certified checkpoints goes back to a stored batch, and its node
keeps instances under their own references. -/
structure Traceable (host : Host) : Prop where
  storage : Vouched host.log host.storage.checkpoint
  stored : ∀ rd, host.stored = some rd → ∀ snapshot, rd.snapshot = some snapshot →
    Vouched host.log snapshot.checkpoint
  node : ∀ n, host.node = some n → n.Backed (Vouched host.log) (Covered host.log)
  keyed : ∀ n, host.node = some n → n.index.Keyed

theorem Traceable.setNode (hhost : host.Traceable)
    (hnode : m.Backed (Vouched host.log) (Covered host.log)) (hkeyed : m.index.Keyed) :
    (host.setNode m).Traceable where
  storage := hhost.storage
  stored := hhost.stored
  node := fun node hsome ↦ by
    obtain rfl := Option.some.inj hsome
    exact ⟨hnode.durable, hnode.frozen, hnode.asks, hnode.rest⟩
  keyed := fun node hsome ↦ Option.some.inj hsome ▸ hkeyed

theorem backed_newRawNode {log : List Ready} {id : ReplicaID} {cfg : Config} {base : VoterSet}
    {storage : Storage} (hstorage : Vouched log storage.checkpoint)
    (hnew : RawNode.newRawNode id cfg base storage = some n) :
    n.Backed (Vouched log) (Covered log) := by
  have hbooting := RawNode.booting_newRawNode hnew
  refine ⟨?_, ?_, ?_, ?_⟩
  · rcases hbooting.durable with hsame | hempty
    · exact hsame ▸ hstorage
    · exact hempty ▸ Vouched.empty log
  · rw [hbooting.frozen]
    simp
  · rw [hbooting.compact]
    simp
  · rw [hbooting.rest]
    simp

theorem traceable_start (id : ReplicaID) (cfg : Config) (base : VoterSet) :
    (start id cfg base).Traceable where
  storage := Vouched.empty []
  stored := fun _ hnone ↦ absurd hnone (by simp [start])
  node := fun _ hnew ↦
    have hnothing : Vouched [] ({} : Storage).checkpoint := Vouched.empty []
    backed_newRawNode hnothing hnew
  keyed := fun _ hnew ↦ RawNode.keyed_newRawNode hnew

theorem Traceable.call (hhost : host.Traceable) (hnode : host.node = some n) {c : Call}
    (hfree : c.free = true) : (host.setNode (n.call c).1).Traceable := by
  have hbacked := hhost.node n hnode
  have hkeyed := RawNode.keyed_call (hhost.keyed n hnode) c
  by_cases hready : c = .ready
  · subst hready
    exact hhost.setNode hbacked.ready hkeyed
  · refine hhost.setNode (hbacked.steady (RawNode.Steady.call n hready fun rd hadvance ↦ ?_)) hkeyed
    subst hadvance
    exact Bool.false_ne_true hfree

/-- One operation keeps what a host knows traceable. -/
theorem Traceable.step (hhost : host.Traceable) (op : HostOp) : (host.step op).Traceable := by
  have hlost : { host with stored := none, node := none }.Traceable :=
    ⟨hhost.storage, by simp, by simp, by simp⟩
  have heffect := host.effect_step op
  generalize host.step op = next at heffect ⊢
  cases heffect with
  | skip => exact hhost
  | call hnode hfree => exact hhost.call hnode hfree
  | reserve membership floor =>
    refine ⟨hhost.storage, hhost.stored, fun node hsome ↦ ?_, fun node hsome ↦ ?_⟩ <;>
      obtain ⟨n, hnode, rfl⟩ := Option.map_eq_some_iff.mp hsome
    · exact (hhost.node n hnode).steady (.reserve n membership floor)
    · exact RawNode.keyed_call (hhost.keyed n hnode) (.reserve membership floor)
  | @persist _ rd _ _ hstorage =>
    -- the log only grows, and the new checkpoint is in it
    obtain ⟨hsnapshot, hnext⟩ := hhost.storage.applyReady hstorage
    refine ⟨hnext, fun stored hstored ↦ ?_, fun node hsome ↦ ?_, hhost.keyed⟩
    · exact Option.some.inj hstored ▸ hsnapshot
    · have hbacked := hhost.node node hsome
      exact ⟨hbacked.durable.append rd, fun range hin ↦ (hbacked.frozen range hin).append rd,
        fun range hin ↦ (hbacked.asks range hin).append rd,
        fun range hin ↦ (hbacked.rest range hin).append rd⟩
  | @acknowledge n rd hnode hstored =>
    have hbacked := (hhost.node n hnode).advance Vouched.covered Vouched.congr
      (hhost.stored rd hstored)
    have hclosed : { host with stored := none, acked := host.acked ++ [rd] }.Traceable :=
      ⟨hhost.storage, by simp, hhost.node, hhost.keyed⟩
    exact hclosed.setNode hbacked (RawNode.keyed_call (hhost.keyed n hnode) (.advance rd))
  | @load n ref hnode =>
    exact hhost.setNode ((hhost.node n hnode).steady (RawNode.Steady.provideRecordLoad n ref _))
      (RawNode.keyed_call (hhost.keyed n hnode) (.provideRecordLoad ref _))
  | fail => exact hlost
  | restart hnew =>
    exact hlost.setNode (backed_newRawNode hhost.storage hnew) (RawNode.keyed_newRawNode hnew)

theorem traceable_run (hhost : host.Traceable) (ops : List HostOp) : (host.run ops).Traceable := by
  induction ops generalizing host with
  | nil => exact hhost
  | cons op rest ih => exact ih (hhost.step op)

/-! ### Compactions -/

theorem compaction_preserves (hhost : host.Traceable) {rd : Ready} (hnode : host.node = some n)
    (hstored : host.stored = some rd) (hcompletes : n.Completes rd m) (hm : m.ResidentAbove) :
    m.Preserves m.compactCheckpointMetadata := by
  refine RawNode.compactCheckpointMetadata_preserves (hcompletes.keyed (hhost.keyed n hnode))
    (fun hcertified ↦ ?_) hm
  have hbacked : Vouched host.log m.durableCheckpoint := by
    have hacked := (n.acked_acknowledge rd)
    have hn := (hhost.node n hnode).acked Vouched.covered Vouched.congr hacked
      (hhost.stored rd hstored)
    rcases hcompletes with ⟨-, -, rfl⟩ | ⟨-, rfl⟩
    · rw [n.durable_afterAck rd]
      exact hn.durable
    · have hdurable := n.durable_afterInstall rd
      exact hdurable ▸ hn.durable
  rw [hcompletes.compactedThrough]
  exact (hbacked hcertified).1

/-- In every run of a host, a certified checkpoint that the host has stored covers every range a
batch asks to be compacted; and a compaction that finds everything above its frontier resident
forgets nothing that was executed or committed, removes no instance above the frontier, and leaves
the resident instances as they are, with their entries in the conflict index. Assumes: above the
compacted frontier, all that the trackers of the node count is resident when the compaction ends. -/
theorem compaction_safe (id : ReplicaID) (cfg : Config) (base : VoterSet) (ops : List HostOp) :
    (∀ range ∈ ((start id cfg base).run ops).frozen.compact,
      Covered ((start id cfg base).run ops).log range) ∧
    ∀ (n m : RawNode) (rd : Ready), ((start id cfg base).run ops).node = some n →
      ((start id cfg base).run ops).stored = some rd → n.Completes rd m → m.ResidentAbove →
      m.Preserves m.compactCheckpointMetadata := by
  have hhost := traceable_run (traceable_start id cfg base) ops
  refine ⟨fun range hrange ↦ ?_, fun n m rd hnode hstored hcompletes hm ↦ ?_⟩
  · unfold frozen at hrange
    cases hnode : ((start id cfg base).run ops).node with
    | none => simp [hnode] at hrange
    | some n =>
      rw [hnode] at hrange
      exact (hhost.node n hnode).frozen range hrange
  · exact compaction_preserves hhost hnode hstored hcompletes hm

/-- The compaction of the third replica after its checkpoint was certified. -/
theorem compaction_safe_certified : ∃ (ops : List HostOp) (n m : RawNode) (rd : Ready),
    ((start 3 folding threeReplicas).run ops).node = some n ∧
      ((start 3 folding threeReplicas).run ops).stored = some rd ∧ n.Completes rd m ∧
      m.ResidentAbove ∧ m.Preserves m.compactCheckpointMetadata := by
  have hops := foldingCluster.host?_script (barrierScript ++ certifyScript ++ [.store 3]) 3
  have hstored : ∀ host ∈ (foldingCluster.script
      (barrierScript ++ certifyScript ++ [.store 3])).host? 3,
      (host.node.isSome ∧ host.stored.isSome) ∧ ∀ n ∈ host.node, ∀ rd ∈ host.stored,
        n.finishes rd = true ∧ { n.afterInstall rd with
          checkpointCompacting := false, checkpointRound := none }.ResidentAbove := by
    decide +kernel
  have hstart : foldingCluster.host? 3 = some (start 3 folding threeReplicas) := rfl
  rw [hops, hstart] at hstored
  obtain ⟨⟨hnode, hrd⟩, hall⟩ := hstored _ rfl
  obtain ⟨n, hn⟩ := Option.isSome_iff_exists.mp hnode
  obtain ⟨rd, hrd⟩ := Option.isSome_iff_exists.mp hrd
  obtain ⟨hfinishes, hresident⟩ := hall n hn rd hrd
  refine ⟨_, n, _, rd, hn, hrd, Or.inr ⟨hfinishes, rfl⟩, hresident, ?_⟩
  exact (compaction_safe 3 folding threeReplicas _).2 n _ rd hn hrd (Or.inr ⟨hfinishes, rfl⟩)
    hresident

end Host

/-- The first replica executes the barrier, restarts, executes two more commands and folds the first
of them. Then the offer of the checkpoint arrives, and it is installed and compacted. -/
def forgetScript : List Act :=
  barrierScript ++ [.deliver .commit 3 1 ⟨3, 1, 1⟩] ++ settle 1 ++ [.op ⟨1, .restart⟩] ++
    certifyScript ++ settle 3 ++
    agree { payload := [1], footprint := { points := [[7]] } } ⟨1, 2, 1⟩ ++
    agree { payload := [1], footprint := { points := [[7]] } } ⟨1, 3, 1⟩ ++ settle 1 ++
    [.deliver .checkpointOffer 3 1 ⟨3, 1, 1⟩, .flush 1, .store 1]

/-- The first replica at the end of the script. -/
def forgetfulHost : Host := ((foldingCluster.script forgetScript).host? 1).get (by decide +kernel)

/-- The replica has executed the second command when the compaction ends, and afterwards it has
not: the command is neither covered by the checkpoint nor resident. -/
theorem compaction_forgets : ∃ (ops : List Op) (host : Host) (n : RawNode) (rd : Ready),
    (foldingCluster.run ops).host? 1 = some host ∧ host.node = some n ∧ host.stored = some rd ∧
      n.finishes rd = true ∧ n.executed.contains ⟨1, 2, 1⟩ = true ∧
      (n.advance rd).1.executed.contains ⟨1, 2, 1⟩ = false := by
  obtain ⟨ops, hops⟩ := Cluster.script_run forgetScript foldingCluster
  have hhost : (foldingCluster.script forgetScript).host? 1 = some forgetfulHost :=
    (Option.some_get _).symm
  have hforgets : (forgetfulHost.node.isSome ∧ forgetfulHost.stored.isSome) ∧
      ∀ n ∈ forgetfulHost.node, ∀ rd ∈ forgetfulHost.stored,
        n.finishes rd = true ∧ n.executed.contains ⟨1, 2, 1⟩ = true ∧
          (n.advance rd).1.executed.contains ⟨1, 2, 1⟩ = false := by decide +kernel
  obtain ⟨⟨hnode, hrd⟩, hall⟩ := hforgets
  obtain ⟨n, hn⟩ := Option.isSome_iff_exists.mp hnode
  obtain ⟨rd, hrd⟩ := Option.isSome_iff_exists.mp hrd
  exact ⟨ops, forgetfulHost, n, rd, hops ▸ hhost, hn, hrd, hall n hn rd hrd⟩

end MoreConsensus
