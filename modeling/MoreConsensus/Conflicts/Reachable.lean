import MoreConsensus.Delivery
import MoreConsensus.StoredCheckpoints

/-!
# The conflict engine over whole runs

The engine of a node is the index of its resident instances in every state of every run, up to one
exception. A compaction rebuilds the engine from the record of its barrier, which it takes to be
executed, and the instances it keeps. A node that has only answered a Prepare for the barrier has a
promise there, without a value; it stays resident while the engine counts it as executed.
`engine_exact` is about runs in which no compaction finds such a promise, `engine_ahead` a run in
which one does.
-/

set_option autoImplicit false

namespace MoreConsensus

open Library ConflictEngine

/-! ### Making an index -/

namespace ConflictEngine

variable {e : ConflictEngine} {records : InstanceRef → Option InstanceRecord}

theorem indexes_empty : Indexes {} fun _ ↦ none where
  sound := sound_empty
  slots _ := rfl
  posted conf resource lane inst := by simp [not_posted_empty]

/-- An index with some more records. Assumes: a record that was there already is the same. -/
theorem Indexes.setAll (hindexes : Indexes e records)
    (others : InstanceRef → Option InstanceRecord) {entries : List (InstanceRef × Instance)}
    (hdistinct : (entries.map Prod.fst).Nodup)
    (hkey : ∀ entry ∈ entries, entry.2.record.ref = entry.1)
    (hstale : ∀ entry ∈ entries, ∀ old, records entry.1 = some old → old = entry.2.record)
    (hadded : ∀ entry ∈ entries, others entry.1 = some entry.2.record)
    (hkept : ∀ ref, ref ∉ entries.map Prod.fst → others ref = records ref) :
    Indexes (entries.foldl (fun e entry ↦ e.apply none entry.2.record) e) others ∧
      ∀ conf resource lane, ((entries.foldl (fun e entry ↦ e.apply none entry.2.record)
        e).keyLane conf resource lane).retiredFloor =
          (e.keyLane conf resource lane).retiredFloor := by
  induction entries generalizing e records with
  | nil =>
    have hsame : others = records := funext fun ref ↦ hkept ref (by simp)
    rw [hsame]
    exact ⟨hindexes, fun _ _ _ ↦ rfl⟩
  | cons entry rest ih =>
    rw [List.map_cons, List.nodup_cons] at hdistinct
    have hentry : entry.2.record.ref = entry.1 := hkey entry List.mem_cons_self
    have hset : Indexes (e.apply none entry.2.record)
        (Function.update records entry.1 (some entry.2.record)) := by
      rw [← hentry]
      refine hindexes.set fun old hold resource hlisted ↦ ?_
      rw [hentry] at hold
      rwa [← hstale entry List.mem_cons_self old hold]
    have hother : ∀ other ∈ rest, other.1 ≠ entry.1 := fun other hmem heq ↦
      hdistinct.1 (heq ▸ List.mem_map_of_mem (f := Prod.fst) hmem)
    obtain ⟨hrest, hfloors⟩ := ih hset hdistinct.2
      (fun other hmem ↦ hkey other (List.mem_cons_of_mem _ hmem))
      (fun other hmem old hold ↦ by
        rw [Function.update_of_ne (hother other hmem)] at hold
        exact hstale other (List.mem_cons_of_mem _ hmem) old hold)
      (fun other hmem ↦ hadded other (List.mem_cons_of_mem _ hmem))
      (fun ref hnot ↦ by
        by_cases href : ref = entry.1
        · rw [href, Function.update_self]
          exact hadded entry List.mem_cons_self
        · rw [Function.update_of_ne href]
          refine hkept ref ?_
          rw [List.map_cons, List.mem_cons, not_or]
          exact ⟨href, hnot⟩)
    refine ⟨hrest, fun conf resource lane ↦ (hfloors conf resource lane).trans ?_⟩
    exact (set_spec hindexes.sound entry.2.record).2.2.1 conf resource lane

end ConflictEngine

/-! ### Compaction -/

namespace RawNode

variable {n m : RawNode} {rd : Ready}

/-- The barrier of the durable checkpoint is not resident as a mere promise. -/
def BarrierSettled (m : RawNode) : Prop :=
  ∀ rec ∈ m.record? m.durableCheckpoint.descriptor.barrier, rec.status ≠ .none

instance (m : RawNode) : Decidable m.BarrierSettled :=
  inferInstanceAs (Decidable (∀ rec ∈ m.record? _, rec.status ≠ .none))

/-- An index made anew from a barrier and what is kept. Assumes: the barrier has a value. -/
theorem coherent_compacted {x : Index} (hx : x.Coherent) {barrier : InstanceRef} {stub : Instance}
    (hstub : stub.Keyed barrier) {first : InstanceRecord}
    (hfirst : (x.record? barrier).getD stub.record = first) (hvalue : first.status ≠ .none)
    {covers : InstanceRef → Bool} {instances : FiniteMap InstanceRef Instance}
    (hget : ∀ ref, instances.get? ref =
      if ref = barrier then (x.instances.get? barrier).or (some stub)
      else if covers ref then none else x.instances.get? ref) :
    Index.Coherent ⟨instances, compactedEngine first
      (x.instances.entries.filter fun entry ↦ !covers entry.1), ∅⟩ := by
  have hretained : ∀ entry ∈ x.instances.entries.filter fun entry ↦ !covers entry.1,
      x.instances.get? entry.1 = some entry.2 ∧ covers entry.1 = false := by
    intro entry hentry
    rw [List.mem_filter, FiniteMap.mem_entries] at hentry
    exact ⟨hentry.1, by simpa using hentry.2⟩
  have hkey : first.ref = barrier := by
    rw [← hfirst]
    cases hrecord : x.record? barrier with
    | none => exact hstub.record
    | some rec => exact hx.keyed.record_key rec hrecord
  obtain ⟨marked, hmarked, halike, hengine⟩ : ∃ marked : InstanceRecord, marked.ref = barrier ∧
      Alike first marked ∧ compactedEngine first
        (x.instances.entries.filter fun entry ↦ !covers entry.1) =
          (x.instances.entries.filter fun entry ↦ !covers entry.1).foldl
            (fun e entry ↦ e.apply none entry.2.record) (({} : ConflictEngine).apply none marked) :=
    ⟨{ first with status := .executed }, hkey, alike_executed hvalue, rfl⟩
  rw [hengine]
  have hstart : Indexes (({} : ConflictEngine).apply none marked)
      (Function.update (fun _ ↦ none) barrier (some first)) := by
    have hset : Indexes (({} : ConflictEngine).apply none marked)
        (Function.update (fun _ ↦ none) marked.ref (some marked)) :=
      indexes_empty.set fun old hold ↦ by simp at hold
    rw [hmarked] at hset
    refine hset.congr fun ref ↦ ?_
    simp only [Function.update_apply]
    split_ifs
    · exact .some halike
    · exact .none
  have hrecord : ∀ ref, Index.record? ⟨instances, {}, ∅⟩ ref =
      if ref = barrier then some first
      else if covers ref then none else x.record? ref := by
    intro ref
    change (instances.get? ref).map Instance.record = _
    rw [hget, ← hfirst]
    split_ifs with href
    · unfold Index.record?
      cases x.instances.get? barrier <;> rfl
    · rfl
    · rfl
  have hstale : ∀ entry ∈ x.instances.entries.filter fun entry ↦ !covers entry.1, ∀ old,
      Function.update (fun _ ↦ none) barrier (some first) entry.1 = some old →
        old = entry.2.record := by
    intro entry hentry old hold
    rw [Function.update_apply] at hold
    split_ifs at hold with hat
    rw [← Option.some.inj hold, ← hfirst, ← hat, Index.record?, (hretained entry hentry).1]
    rfl
  have hadded : ∀ entry ∈ x.instances.entries.filter fun entry ↦ !covers entry.1,
      Index.record? ⟨instances, {}, ∅⟩ entry.1 = some entry.2.record := by
    intro entry hentry
    obtain ⟨hfound, hcovers⟩ := hretained entry hentry
    rw [hrecord]
    split_ifs with hat hcovered
    · rw [← hfirst, ← hat, Index.record?, hfound]
      rfl
    · rw [hcovers] at hcovered
      exact absurd hcovered Bool.false_ne_true
    · rw [Index.record?, hfound, Option.map_some]
  have hkept : ∀ ref,
      ref ∉ (x.instances.entries.filter fun entry ↦ !covers entry.1).map Prod.fst →
      Index.record? ⟨instances, {}, ∅⟩ ref =
        Function.update (fun _ ↦ none) barrier (some first) ref := by
    intro ref hnot
    rw [hrecord, Function.update_apply]
    split_ifs with hat hcovered
    · rfl
    · rfl
    · rw [Index.record?]
      cases hfound : x.instances.get? ref with
      | none => rfl
      | some inst =>
        refine absurd (List.mem_map_of_mem (f := Prod.fst) (a := (ref, inst)) ?_) hnot
        rw [List.mem_filter, FiniteMap.mem_entries]
        exact ⟨hfound, by simpa using hcovered⟩
  have hall := hstart.setAll _
    (List.Nodup.sublist (List.filter_sublist.map _) x.instances.nodup_keys)
    (fun entry hentry ↦ (hx.keyed _ _ (hretained entry hentry).1).record) hstale hadded hkept
  refine ⟨hall.1, fun ref inst hfound ↦ ?_, fun conf resource lane ↦ ?_⟩
  · change instances.get? ref = some inst at hfound
    rw [hget] at hfound
    split_ifs at hfound with href
    · rw [href]
      rcases Option.or_eq_some_iff.mp hfound with hres | ⟨-, hnew⟩
      · exact hx.keyed _ _ hres
      · rwa [← Option.some.inj hnew]
    · exact hx.keyed _ _ hfound
  · refine (hall.2 conf resource lane).le.trans ?_
    rw [indexes_empty.floors_apply rfl (by simp)]
    exact Nat.zero_le _

theorem coherent_compactCheckpointMetadata (hm : m.index.Coherent) (hsettled : m.BarrierSettled) :
    m.compactCheckpointMetadata.index.Coherent := by
  unfold compactCheckpointMetadata
  extract_lets checkpoint barrierRef barrier retained covered noted left instances through engine
    compacted
  split
  · exact hm
  have hnoted : noted.index = m.index := index_noteReleased ..
  have hinstances : noted.instances = m.instances := congrArg Index.instances hnoted
  change (retained.foldl recount compacted).index.Coherent
  rw [index_recounts]
  have hrecord : noted.record? barrierRef = m.record? barrierRef :=
    congrArg (fun x : Index ↦ x.record? barrierRef) hnoted
  have hcompacted : compacted.index = ⟨instances, compactedEngine
      ((noted.record? barrierRef).getD barrier.record) retained, ∅⟩ := rfl
  rw [hcompacted, hrecord]
  refine coherent_compacted hm (.of_empty rfl rfl rfl : barrier.Keyed barrierRef) rfl ?_
    fun ref ↦ ?_
  · change ((m.record? barrierRef).getD barrier.record).status ≠ .none
    cases hfound : m.record? barrierRef with
    | none =>
      change Status.executed ≠ .none
      decide
    | some rec => exact hsettled rec hfound
  · unfold instances left covered
    rw [hinstances]
    exact get?_compact barrierRef checkpoint.compactedThrough barrier m.instances ref

/-! ### Calls -/

theorem coherent_afterAck (hn : n.index.Coherent) (rd : Ready) :
    (n.afterAck rd).index.Coherent :=
  n.afterAck_keeps (fun hshifts hm ↦ hshifts.coherent hm) hn rd

theorem BarrierSettled.congr (hsettled : n.BarrierSettled)
    (hrecord : m.record? = n.record?) (hdurable : m.durableCheckpoint = n.durableCheckpoint) :
    m.BarrierSettled := by
  unfold BarrierSettled at hsettled ⊢
  rwa [hrecord, hdurable]

theorem coherent_resumeAfterCompaction (hm : m.index.Coherent) (hsettled : m.BarrierSettled) :
    m.resumeAfterCompaction.index.Coherent :=
  (Shifts.rfl_any _).runExecution.coherent (coherent_compactCheckpointMetadata hm hsettled)

theorem coherent_snapshotInstalled (hm : m.index.Coherent) (hsettled : m.BarrierSettled) :
    m.snapshotInstalled.index.Coherent := by
  unfold snapshotInstalled
  split_ifs
  · exact coherent_resumeAfterCompaction hm hsettled
  · rw [Shifts.index_modifyReady]
    exact hm

theorem coherent_afterInstall (hn : n.index.Coherent)
    (hsettled : n.startsUp rd = true → (n.afterAck rd).BarrierSettled) :
    (n.afterInstall rd).index.Coherent := by
  have hacked := coherent_afterAck hn rd
  unfold afterInstall
  split_ifs with hstarts
  · exact coherent_snapshotInstalled hacked (hsettled hstarts)
  · exact hacked

theorem coherent_advance (hn : n.index.Coherent)
    (hstarts : n.startsUp rd = true → (n.afterAck rd).BarrierSettled)
    (hfinishes : n.finishes rd = true → (n.afterInstall rd).BarrierSettled) :
    (n.advance rd).1.index.Coherent := by
  by_cases hawaits : n.awaitAdvance = true
  swap
  · unfold advance
    rw [if_pos (by simpa using hawaits)]
    exact hn
  by_cases hvalid : n.validateReadyAck rd = true
  swap
  · unfold advance
    rw [if_neg (by simp [hawaits]), if_pos (by simpa using hvalid)]
    exact hn
  have hinstalled := coherent_afterInstall hn hstarts
  rw [advance_eq hawaits hvalid]
  generalize n.afterInstall rd = node at hinstalled hfinishes ⊢
  split_ifs with hlast
  · exact coherent_resumeAfterCompaction (m := { node with
      checkpointCompacting := false, checkpointRound := none }) hinstalled
      ((hfinishes hlast).congr rfl rfl)
  · exact hinstalled

theorem coherent_step (hn : n.index.Coherent) (msg : Message) : (n.step msg).1.index.Coherent := by
  rcases Shifts.step n msg with hshifts | ⟨round, localized, htaken⟩
  · exact hshifts.coherent hn
  · rw [htaken]
    unfold proposeSnapshot
    rw [Shifts.index_modifyReady]
    exact hn

theorem coherent_provideRecordLoad (hn : n.index.Coherent) (ref : InstanceRef)
    (found : Option LoadedRecord) : (n.provideRecordLoad ref found).1.index.Coherent := by
  refine provideRecordLoad_keeps (P := fun node ↦ node.index.Coherent) hn (fun rec hkey ↦ ?_)
    (fun rec hkey ↦ ?_) (fun node wait _ hnode ↦ hnode)
    (fun node msg hnode ↦ coherent_step hnode msg)
    (fun node node' hshifts hnode ↦ hshifts.coherent hnode) found
  · rw [Shifts.index_installInstance]
    exact hn.install (.of_empty rfl rfl rfl)
  · refine ((Shifts.rfl_any n).setInstance ref _ nofun fun _ hm old hget ↦ ?_).coherent hn
    exact (hm ref old hget).of_record hkey rfl rfl

/-- No acknowledgement ends a compaction that finds its barrier resident as a mere promise. -/
def SettlesBarrier (n : RawNode) : Call → Prop
  | .advance rd => (n.startsUp rd = true → (n.afterAck rd).BarrierSettled) ∧
      (n.finishes rd = true → (n.afterInstall rd).BarrierSettled)
  | _ => True

instance (n : RawNode) (c : Call) : Decidable (n.SettlesBarrier c) := by
  apply c.casesOn (motive := fun c ↦ Decidable (n.SettlesBarrier c))
  case advance => exact fun rd ↦ instDecidableAnd
  all_goals intros; exact instDecidableTrue

theorem coherent_call (hn : n.index.Coherent) {c : Call} (hc : n.SettlesBarrier c) :
    (n.call c).1.index.Coherent := by
  by_cases hquiet : quietCall c = true
  · exact (n.shifts_call hquiet).coherent hn
  · cases c with
    | step msg => exact coherent_step hn msg
    | ready =>
      change n.ready.index.Coherent
      unfold ready
      split_ifs <;> exact hn
    | advance rd => exact coherent_advance hn hc.1 hc.2
    | provideRecordLoad ref found => exact coherent_provideRecordLoad hn ref found
    | reserve membership floor => exact (Shifts.index_modifyReady ..).symm ▸ hn
    | _ => exact absurd rfl hquiet

theorem coherent_run (hn : n.index.Coherent) {calls : List Call}
    (hmeets : RunMeets SettlesBarrier n calls) : (n.run calls).index.Coherent := by
  induction calls generalizing n with
  | nil => exact hn
  | cons c rest ih => exact ih (coherent_call hn hmeets.1) hmeets.2

/-! ### Starts -/

theorem coherent_loadRecord (hn : n.index.Coherent) {rec : InstanceRecord}
    (hres : n.loadRecord rec = some m) : m.index.Coherent := by
  obtain ⟨conf, -, hload⟩ := Option.bind_eq_some_iff.mp hres
  obtain ⟨-, hload⟩ := Option.ite_none_left_eq_some.mp hload
  obtain rfl := Option.some.inj hload
  have hinstalled : (n.installInstance (n.seedLocalRestartVote
      { record := rec, phase := n.restartPhase rec
        processAt := rec.processAt })).index.Coherent := by
    rw [Shifts.index_installInstance]
    exact hn.install (n.keyed_loaded rec (n.restartPhase rec))
  refine (Shifts.settle _ rec).coherent ?_
  split
  · exact hinstalled
  · exact hinstalled

theorem coherent_restorePreparedCheckpoint (hn : n.index.Coherent) {checkpoint : Checkpoint}
    (hres : n.restorePreparedCheckpoint checkpoint = some m) : m.index.Coherent := by
  unfold restorePreparedCheckpoint at hres
  split at hres
  · exact Option.some.inj hres ▸ hn
  split at hres
  · simp at hres
  split at hres
  · simp at hres
  · obtain rfl := Option.some.inj hres
    refine (((Shifts.rfl_any _).broadcastCheckpointControl _ _
      _).maybeCertifyCheckpoint).coherent ?_
    exact hn

theorem coherent_newRawNode {id : ReplicaID} {cfg : Config} {base : VoterSet} {storage : Storage}
    (hnew : newRawNode id cfg base storage = some n) : n.index.Coherent := by
  obtain ⟨b, start, loaded, resumed, restored, hb, hstart, -, -, hloaded, hresumed, hrestored, hn,
    -⟩ := newRawNode_stages hnew
  have hkeyed := hb.keyed
  have hblank : b.index.Coherent := by
    rw [hb.index] at hkeyed ⊢
    exact ⟨indexes_empty, hkeyed, fun _ _ _ ↦ le_rfl⟩
  have hloads : loaded.index.Coherent := foldlM_preserves _
    (fun node rec node' _ hnode hrec ↦ coherent_loadRecord hnode hrec) (hstart.coherent hblank)
    hloaded
  have hresumes : Shifts .call loaded resumed := foldlM_preserves _
    (fun node rec node' _ hnode hrec ↦ Shifts.resumeRecord hnode hrec) (.refl loaded) hresumed
  exact hn.coherent (coherent_restorePreparedCheckpoint (hresumes.coherent hloads) hrestored)

/-- In every state that a node reaches, from any storage and by any calls, the conflict engine is
the index of the resident instances: its slots are those of the resident records, its postings those
of the resources of the eligible ones without global scope, and every aggregate is that of its own
part of a tree. Assumes: no acknowledgement of the run ends a compaction that finds its barrier
resident as a mere promise. -/
theorem engine_exact {id : ReplicaID} {cfg : Config} {base : VoterSet} {storage : Storage}
    (hnew : newRawNode id cfg base storage = some n) {calls : List Call}
    (hmeets : RunMeets SettlesBarrier n calls) :
    (n.run calls).engine.Indexes (n.run calls).record? :=
  (coherent_run (coherent_newRawNode hnew) hmeets).indexes

/-- A sole voter executes a command and a barrier, takes a checkpoint, certifies it and compacts
it. -/
def checkpointCalls (n : RawNode) : List Call :=
  let first := n.script [.call (.propose { payload := [1], footprint := { points := [[7]] } }),
    .flush, .flush, .call .tick, .flush, .flush]
  let asked := n.run first
  let answer : Call := .provideCheckpoint
    ⟨asked.checkpointRound.elim {} fun round ↦ round.request.id, [0], 1⟩
  first ++ answer :: (asked.call answer).1.script [.flush, .flush, .flush, .flush]

theorem engine_exact_checkpoint :
    ∃ n, newRawNode 1 { retainExecutedPerLane := 1 } soleVoter {} = some n ∧
      ∃ calls, RunMeets SettlesBarrier n calls ∧
        (n.run calls).durableCheckpoint.compactedThrough =
          (n.run calls).durableCheckpoint.descriptor.through ∧
        (n.run calls).record? ⟨1, 1, 1⟩ = none ∧ ((n.run calls).record? ⟨1, 2, 1⟩).isSome = true ∧
        (n.run calls).engine.Indexes (n.run calls).record? := by
  have hsome : (newRawNode 1 { retainExecutedPerLane := 1 } soleVoter {}).isSome = true := by
    decide +kernel
  have hrun : ∀ n ∈ newRawNode 1 { retainExecutedPerLane := 1 } soleVoter {},
      RunMeets SettlesBarrier n n.checkpointCalls ∧
        (n.run n.checkpointCalls).durableCheckpoint.compactedThrough =
          (n.run n.checkpointCalls).durableCheckpoint.descriptor.through ∧
        (n.run n.checkpointCalls).record? ⟨1, 1, 1⟩ = none ∧
        ((n.run n.checkpointCalls).record? ⟨1, 2, 1⟩).isSome = true := by decide +kernel
  obtain ⟨n, hn⟩ := Option.isSome_iff_exists.mp hsome
  obtain ⟨hmeets, hcompacted, hfolded, hbarrier⟩ := hrun n hn
  exact ⟨n, hn, _, hmeets, hcompacted, hfolded, hbarrier, engine_exact hn hmeets⟩

end RawNode

/-- The second replica begins to recover the barrier of the third one and asks the first for a
promise. Its vote has left before, so the barrier is committed and the checkpoint certified, and the
first replica, which has only the promise, installs and compacts it. -/
def promiseScript : List Act :=
  agree { payload := [1], footprint := { points := [[7]] } } ⟨1, 1, 1⟩ ++
    [.deliver .commit 1 3 ⟨1, 1, 1⟩] ++ settle 3 ++
    [.ticks 3 1, .flush 3, .deliver .preAccept 3 2 ⟨3, 1, 1⟩, .flush 2, .ticks 2 2, .flush 2,
      .deliver .prepare 2 1 ⟨3, 1, 1⟩, .flush 1,
        .deliver .preAcceptResp 2 3 ⟨3, 1, 1⟩] ++ settle 3 ++
    [.deliver .commit 1 2 ⟨1, 1, 1⟩, .deliver .commit 3 2 ⟨3, 1, 1⟩] ++ settle 2 ++ certifyScript ++
    settle 3 ++ [.deliver .checkpointOffer 3 1 ⟨3, 1, 1⟩] ++ settle 1

/-- The first replica at the end of the script. -/
def promisedNode : RawNode :=
  ((foldingCluster.script promiseScript).node? 1).get (by decide +kernel)

/-- The resident record of the barrier has no value, and its slot in the engine is an eligible
one. -/
theorem engine_ahead : ∃ (ops : List Op) (n : RawNode) (rec : InstanceRecord) (slot : LaneSlot),
    (foldingCluster.run ops).node? 1 = some n ∧ n.record? ⟨3, 1, 1⟩ = some rec ∧
      n.engine.slot ⟨3, 1, 1⟩ = some slot ∧ recordConflictEligible rec = false ∧
      slot.eligible = true ∧ ¬ n.engine.Indexes n.record? := by
  obtain ⟨ops, hops⟩ := Cluster.script_run promiseScript foldingCluster
  have hnode : (foldingCluster.script promiseScript).node? 1 = some promisedNode :=
    (Option.some_get _).symm
  have hahead : ((promisedNode.record? ⟨3, 1, 1⟩).isSome ∧
      (promisedNode.engine.slot ⟨3, 1, 1⟩).isSome) ∧ ∀ rec ∈ promisedNode.record? ⟨3, 1, 1⟩,
        ∀ slot ∈ promisedNode.engine.slot ⟨3, 1, 1⟩,
          recordConflictEligible rec = false ∧ slot.eligible = true := by decide +kernel
  obtain ⟨⟨hrec, hslot⟩, hall⟩ := hahead
  obtain ⟨rec, hrec⟩ := Option.isSome_iff_exists.mp hrec
  obtain ⟨slot, hslot⟩ := Option.isSome_iff_exists.mp hslot
  obtain ⟨hpromise, heligible⟩ := hall rec hrec slot hslot
  rw [← hops] at hnode
  refine ⟨ops, promisedNode, rec, slot, hnode, hrec, hslot, hpromise, heligible,
    fun hindexes ↦ ?_⟩
  have hfacts := hindexes.slots ⟨3, 1, 1⟩
  rw [hslot, hrec] at hfacts
  have hsame : slot.eligible = recordConflictEligible rec :=
    congrArg (fun facts : ℕ × Bool × Bool ↦ facts.2.1) (Option.some.inj hfacts)
  rw [hpromise, heligible] at hsame
  exact absurd hsame (by decide)

end MoreConsensus
