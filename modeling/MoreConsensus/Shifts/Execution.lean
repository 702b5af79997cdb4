import MoreConsensus.Passes
import MoreConsensus.Shifts.Basic

/-!
# The execution pass as shifts

Executing a configuration change is the step of the chain that the abstract model takes
(`frame_applyConfChange`); an activation of the membership plane extends the chain under the same
conditions. The rest of a pass queues work and asks for records.
-/

set_option autoImplicit false

namespace MoreConsensus

open Library

namespace RawNode

variable {scope : Scope} {n m : RawNode} {ref : InstanceRef}

/-! ### Configuration changes -/

/-- The successor of a configuration depends on the chain of configurations alone. -/
theorem successor_chain (n : RawNode) (ref : InstanceRef) (change : ConfChange) :
    n.chain.successor ref change =
      (n.lookupConf ref.conf).bind (n.confChangeSuccessor ref change) := by
  unfold Chain.successor lookupConf
  change Option.bind (n.confHistory.get? ref.conf) _ = _
  cases hbase : n.confHistory.get? ref.conf with
  | none => rfl
  | some base =>
    have hvalid : n.entryValueValidForConfiguration { kind := .confChange, confChange := change }
        ref ⟨ref.conf, base.voters⟩ = (entryValueCanonical .confChange {} change [] &&
          (ref.conf != maxUint64 &&
            (confChangeQuorumFrom ⟨ref.conf, base.voters⟩ change).isSome)) := rfl
    simp only [Option.bind_some, Option.map_some, confChangeSuccessor, hvalid]
    cases hnext : confChangeQuorumFrom ⟨ref.conf, base.voters⟩ change <;> simp

theorem core_enterSuccessor (n : RawNode) (ref : InstanceRef) (successor : VoterSet)
    (eligible : Bool) : (n.enterSuccessor ref successor eligible).core =
      { n.core with current := if ref.conf = n.current then ref.conf + 1 else n.current } := by
  unfold enterSuccessor
  by_cases hcurrent : ref.conf = n.current
  · rw [if_neg (by simpa using hcurrent), if_pos hcurrent]
    dsimp only
    unfold activateTOQRuntime
    split_ifs <;> rfl
  · rw [if_pos hcurrent, if_neg hcurrent]
    rfl

theorem frame_enterSuccessor (n : RawNode) (ref : InstanceRef) (successor : VoterSet)
    (eligible : Bool) : (n.enterSuccessor ref successor eligible).frame =
      { n.frame with chain := { n.chain with
          current := if ref.conf = n.current then ref.conf + 1 else n.current } } := by
  have hplane : (n.enterSuccessor ref successor eligible).plane = n.plane := by
    unfold enterSuccessor activateTOQRuntime
    dsimp only
    split_ifs <;> rfl
  have hindex : (n.enterSuccessor ref successor eligible).index = n.index := by
    unfold enterSuccessor activateTOQRuntime
    dsimp only
    split_ifs <;> rfl
  unfold frame
  rw [core_enterSuccessor, hplane, hindex]
  rfl

/-- Executing a configuration change is one step of the chain. -/
theorem frame_applyConfChange (n : RawNode) (ref : InstanceRef) (change : ConfChange) :
    (n.applyConfChange ref change).2 = (n.chain.change ref change).2 ∧
      ∃ configs, (n.applyConfChange ref change).1.frame =
        { n.frame with chain := (n.chain.change ref change).1 }.emit
          { configs := configs
            events := [.reconfigured ref change (n.chain.change ref change).2] } := by
  -- the node before the change is noted
  suffices happly : (n.applyConfChange ref change).2 = (n.chain.change ref change).2 ∧
      ∃ (node : RawNode) (configs : List ConfigHistoryEntry),
        node.frame = { n.frame with chain := (n.chain.change ref change).1 }.emit
          { configs := configs } ∧
        (n.applyConfChange ref change).1 = node.refreshPendingConf.note
          (.reconfigured ref change (n.applyConfChange ref change).2) by
    obtain ⟨hresult, node, configs, hnode, happlied⟩ := happly
    refine ⟨hresult, configs, ?_⟩
    have hnoted : ∀ (node : RawNode) (event : Event), (node.note event).frame =
        { node.frame with journal := node.frame.journal ++ [event] } := fun _ _ ↦ rfl
    rw [happlied, hnoted, Shifts.frame_refreshPendingConf, hnode, hresult]
    simp only [Frame.emit, List.append_nil]
  have hrefused : ∀ result : ConfChangeResult, n.chain.change ref change = (n.chain, result) →
      result = (n.chain.change ref change).2 ∧
        ∃ (node : RawNode) (configs : List ConfigHistoryEntry),
          node.frame = { n.frame with chain := (n.chain.change ref change).1 }.emit
            { configs := configs } ∧
          n.refreshPendingConf.note (.reconfigured ref change result) =
            node.refreshPendingConf.note (.reconfigured ref change result) := by
    intro result hresult
    refine ⟨by rw [hresult], n, [], ?_, rfl⟩
    rw [hresult]
    simp only [Frame.emit, Outbox.push_empty, List.append_nil]
    rfl
  have hsuccessor := n.successor_chain ref change
  unfold applyConfChange
  dsimp only
  split
  · next hbase =>
    rw [hbase] at hsuccessor
    exact hrefused _ (by simp [Chain.change, hsuccessor])
  next base hbase =>
  rw [hbase, Option.bind_some] at hsuccessor
  split
  · next hnone =>
    rw [hnone] at hsuccessor
    exact hrefused _ (by simp [Chain.change, hsuccessor])
  next successor hsome =>
  rw [hsome] at hsuccessor
  by_cases htaken : (n.appliedConfByBase.contains ref.conf ||
      n.confHistory.contains (ref.conf + 1)) = true
  · rw [if_pos htaken]
    refine hrefused _ ?_
    rw [Chain.change, hsuccessor]
    exact if_pos htaken
  rw [if_neg htaken]
  have hchange : n.chain.change ref change = (n.chain.extend ref successor,
      ⟨.applied, ⟨ref.conf + 1, successor.voters⟩⟩) := by
    rw [Chain.change, hsuccessor]
    exact if_neg htaken
  split_ifs with hcluster
  · refine ⟨by rw [hchange], _, [⟨⟨ref.conf + 1, successor.voters⟩, ref⟩], ?_, rfl⟩
    refine (Shifts.frame_modifyReady _ { configs := [⟨⟨ref.conf + 1, successor.voters⟩, ref⟩] }
      (fun rd ↦ ?_) (fun rd ↦ ?_) fun rd ↦ ?_).trans ?_
    · ext1 <;> simp [Ready.batch]
    · rfl
    · rfl
    · rw [frame_enterSuccessor, hchange]
      rfl
  · refine ⟨by rw [hchange], _, [], ?_, rfl⟩
    rw [frame_enterSuccessor, hchange]
    simp only [Frame.emit, Outbox.push_empty, List.append_nil]
    rfl

namespace Shifts

theorem applyConfChange (hshifts : Shifts scope n m) (ref : InstanceRef) (change : ConfChange) :
    Shifts scope n (m.applyConfChange ref change).1 := by
  obtain ⟨-, configs, hframe⟩ := m.frame_applyConfChange ref change
  exact hshifts.shift_to .change rfl rfl rfl hframe

theorem applyMembershipControl (hshifts : Shifts scope n m) (ref : InstanceRef) (control : Bytes) :
    Shifts scope n (m.applyMembershipControl ref control).1 := by
  unfold RawNode.applyMembershipControl
  split
  · exact hshifts
  · exact hshifts.of_calm rfl (by exact hshifts.calm.of_plans _) rfl rfl
  · split_ifs <;> exact hshifts
  next plan successor hdecode =>
  have hbase : m.confHistory.contains ref.conf = true := by
    cases hget : m.confHistory.get? ref.conf with
    | none => simp [lookupConf, hget] at hdecode
    | some base => simp [FiniteMap.contains, hget]
  dsimp only
  by_cases hplan : (!m.membership.plans.contains plan) = true
  · rw [if_pos hplan]
    exact hshifts
  rw [if_neg hplan]
  split
  · exact hshifts
  next htaken =>
  simp only [Bool.or_eq_true, not_or, Bool.not_eq_true] at htaken
  obtain ⟨⟨-, hfirst⟩, hclash⟩ := htaken
  have hextends : m.chain.Extends ref successor := by
    have hfree : m.appliedConfByBase.get? ref.conf = none := by
      simpa [FiniteMap.contains] using hfirst
    refine ⟨hbase, hfree, fun existing hexisting ↦ ?_⟩
    have hexisting' : m.confHistory.get? (ref.conf + 1) = some existing := hexisting
    refine VoterSet.ext ?_
    simpa [lookupConf, hexisting'] using hclash
  have hknown : plan ∈ m.membership.plans := by simpa using hplan
  have hstep : m.frame.Shift ({ m.frame with chain := m.chain.extend ref successor }.emit
      { configs := [⟨⟨ref.conf + 1, successor.voters⟩, ref⟩] }) := .activate hknown hextends
  refine Shifts.shift_to hshifts hstep rfl rfl rfl ?_
  refine ((frame_modifyReady _ { configs := [⟨⟨ref.conf + 1, successor.voters⟩, ref⟩] }
    (fun rd ↦ ?_) (fun rd ↦ ?_) fun rd ↦ ?_).trans ?_)
  · ext1 <;> simp [Ready.batch]
  · rfl
  · rfl
  · rw [frame_enterSuccessor]
    rfl

/-! ### Executing -/

/-- What a pass marks; passes do not begin while execution is paused. -/
theorem mark (hshifts : Shifts scope n m) (hrunning : n.executionPaused = false)
    (ref : InstanceRef) :
    Shifts scope n { m with executed := m.executed.add ref } :=
  hshifts.of_calm rfl (by exact hshifts.calm.of_executed hrunning _) rfl rfl

/-- An executed command is handed to the application once, with its instance marked. -/
theorem executeMember (hshifts : Shifts scope n m) (hrunning : n.executionPaused = false)
    (component : List InstanceRef) (ref : InstanceRef) :
    Shifts scope n (executeMember component m ref) := by
  unfold RawNode.executeMember
  split
  · exact hshifts
  next inst hget =>
  split
  · exact hshifts
  have hrecord : n.index.Keyed → inst.record.ref = ref := fun hn ↦
    (hshifts.keyed hn ref inst hget).record
  have hmarked : Shifts scope n ({ m with executed := m.executed.add ref }.note
      (.executed ref component (m.heldBy component ref inst.record))) :=
    (hshifts.mark hrunning ref).note rfl
  refine Shifts.releaseInstance ?_ ref
  split
  · exact (hmarked.setInstanceRecord (by exact hrecord)).enqueueApply _
  · exact ((hmarked.applyConfChange ref _).setInstanceRecord
      (by exact hrecord)).enqueueRecord _
  · exact ((hmarked.applyMembershipControl ref _).setInstanceRecord
      (by exact hrecord)).enqueueRecord _
  · exact (hmarked.setInstanceRecord (by exact hrecord)).enqueueRecord _
  · exact (hmarked.setInstanceRecord (by exact hrecord)).enqueueRecord _
  · exact hmarked

/-- A barrier that is executed pauses execution and asks for a checkpoint. -/
theorem beginCheckpoint (hshifts : Shifts scope n m) (hrunning : n.executionPaused = false)
    (barrier : InstanceRecord) : Shifts scope n (m.beginCheckpoint barrier) := by
  unfold RawNode.beginCheckpoint
  dsimp only
  split_ifs
  · exact hshifts
  · refine hshifts.of_calm ?_ ?_ (held_modifyReady ..) (timing_modifyReady ..)
    · exact frame_modifyReady_other { m with checkpointRound := _, executionPaused := true }
        (fun _ ↦ rfl) fun _ ↦ rfl
    · rw [plane_modifyReady_asks (g := fun asks ↦ { asks with checkpoint := some _ }) _ fun _ ↦ rfl]
      exact hshifts.calm.of_begin hrunning _

section Drive

variable {drive : RawNode → RawNode} (hdrive : ∀ node, Shifts scope node (drive node))

include hdrive

/-- A dependency that is missing gets a record and a recovery. -/
theorem ensureDependencyRecovery (hshifts : Shifts scope n m) (ref : InstanceRef)
    (mayStart : Bool) :
    Shifts scope n (m.ensureDependencyRecovery drive ref mayStart).1 := by
  unfold RawNode.ensureDependencyRecovery
  extract_lets inst committed running blank blanked
  have hblanked : Shifts scope n blanked := by
    unfold blanked
    split_ifs
    · exact hshifts
    · exact hshifts.installInstance (by simp [blank]) (by exact .of_empty rfl rfl rfl) rfl
  split
  · exact hshifts
  split
  · exact hshifts
  split
  · exact hshifts
  split
  · exact hshifts
  split
  · exact hshifts.scheduleRecovery ref
  have hstart := hblanked.startPrepare hdrive ref
  split
  · next res hres =>
    rw [hres] at hstart
    exact hstart.observeInstanceRef ref
  · next res err hres =>
    rw [hres] at hstart
    split_ifs with hresident
    · exact hstart
    · refine (hstart.dropInstance ref fun hscope hfull ↦ ?_).note rfl
      obtain ⟨found, hfound, -⟩ := hshifts.full hscope hfull
      exact hresident (by simp [inst, show m.instances.get? ref = some found from hfound])

theorem keptByRecoveries : KeptByRecoveries (Shifts scope n) drive where
  budget := fun _ _ _ hshifts ↦ hshifts
  recover := fun _ ref mayStart hshifts ↦ hshifts.ensureDependencyRecovery hdrive ref mayStart

theorem keptByPasses (hrunning : n.executionPaused = false) :
    KeptByPasses (Shifts scope n) drive where
  toKeptByRecoveries := keptByRecoveries hdrive
  execute := fun _ component ref hshifts ↦ hshifts.executeMember hrunning component ref
  barrier := fun _ barrier hshifts ↦ hshifts.beginCheckpoint hrunning barrier

end Drive

theorem tryExecute (nesting : ℕ) (n : RawNode) : Shifts scope n (tryExecute nesting n) := by
  induction nesting generalizing n with
  | zero => exact refl n
  | succ nesting ih =>
    unfold RawNode.tryExecute
    split
    · exact refl n
    next hrunning => exact (keptByPasses ih (by simpa using hrunning)).executePasses (refl n) _ _

end Shifts

end RawNode

end MoreConsensus
