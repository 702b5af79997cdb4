import MoreConsensus.Execution

/-!
# What execution passes keep

An execution pass is made of four things: recoveries of dependencies that are missing, the budget
they draw on, members that are executed, and a barrier that begins a checkpoint round. What these
keep is kept by whole passes, however deep they nest.
-/

set_option autoImplicit false

namespace MoreConsensus

open Library

namespace RawNode

/-- A property of nodes that starting recoveries keeps. -/
structure KeptByRecoveries (P : RawNode → Prop) (drive : RawNode → RawNode) : Prop where
  budget : ∀ (node : RawNode) (left : ℕ) (source : Option RecoverySource), P node →
    P { node with dependencyRecoveryStartsLeft := left, lastRecoverySource := source }
  recover : ∀ (node : RawNode) (ref : InstanceRef) (mayStart : Bool), P node →
    P (node.ensureDependencyRecovery drive ref mayStart).1

/-- A property of nodes that the parts of a pass keep. -/
structure KeptByPasses (P : RawNode → Prop) (drive : RawNode → RawNode) : Prop
    extends KeptByRecoveries P drive where
  execute : ∀ (node : RawNode) (component : List InstanceRef) (ref : InstanceRef), P node →
    P (executeMember component node ref)
  barrier : ∀ (node : RawNode) (barrier : InstanceRecord), P node → P (node.beginCheckpoint barrier)

namespace KeptByRecoveries

variable {P : RawNode → Prop} {drive : RawNode → RawNode} (hkept : KeptByRecoveries P drive)
  {n : RawNode}

include hkept

theorem startRecoveries (hn : P n) (active : ℕ) (candidates : List RecoveryCandidate) :
    P (n.startRecoveries drive active candidates) := by
  induction candidates generalizing n active with
  | nil => exact hn
  | cons candidate rest ih =>
    unfold RawNode.startRecoveries
    split
    · exact hn
    have hrecover := hkept.recover n candidate.ref true hn
    split
    · next res hres =>
      rw [hres] at hrecover
      exact ih (hkept.budget res _ _ hrecover) _
    · next res result _ hres =>
      rw [hres] at hrecover
      exact ih hrecover _

theorem scheduleDependencyRecoveries (hn : P n) (candidates : List RecoveryCandidate) :
    P (n.scheduleDependencyRecoveries drive candidates) := by
  unfold RawNode.scheduleDependencyRecoveries
  split
  · exact hn
  · exact hkept.startRecoveries hn _ _

theorem maybeStartDependencyRecovery (hn : P n) (ref : InstanceRef) :
    P (n.maybeStartDependencyRecovery drive ref).1 := by
  unfold RawNode.maybeStartDependencyRecovery
  split
  · exact hkept.recover n ref false hn
  have hrecover := hkept.recover n ref true hn
  split
  · next res hres =>
    rw [hres] at hrecover
    exact hkept.budget res _ _ hrecover
  · exact hrecover

theorem checkPrefixes (members : List InstanceRef) (base : InstanceRef)
    (prefixes : List (InstanceLane × InstanceNum × Bool)) {state : RawNode × Bool}
    (hn : P state.1) : P (checkPrefixes drive members base prefixes state).1 := by
  induction prefixes generalizing state with
  | nil => exact hn
  | cons first rest ih =>
    obtain ⟨lane, through, allowKnownAfter⟩ := first
    obtain ⟨node, closed⟩ := state
    unfold RawNode.checkPrefixes
    split
    · exact ih hn
    · exact ih (hkept.maybeStartDependencyRecovery hn _)

theorem checkpointComponentClosed (hn : P n) (component : List InstanceRef) :
    P (n.checkpointComponentClosed drive component).1 := by
  unfold RawNode.checkpointComponentClosed
  refine List.foldlRecOn (motive := fun state : RawNode × Bool ↦ P state.1) component _ hn
    fun state hstate ref _ ↦ ?_
  have hown := hkept.checkPrefixes component ref [(laneFor ref, ref.inst, false)] hstate
  dsimp only
  split
  · exact hown
  · exact hkept.checkPrefixes component ref _ hown

end KeptByRecoveries

namespace KeptByPasses

variable {P : RawNode → Prop} {drive : RawNode → RawNode} (hkept : KeptByPasses P drive)
  {n : RawNode}

include hkept

theorem executeMembers (component order : List InstanceRef) (hn : P n) :
    P (order.foldl (executeMember component) n) := by
  induction order generalizing n with
  | nil => exact hn
  | cons ref rest ih => exact ih (hkept.execute n component ref hn)

theorem executeComponent (view component : List InstanceRef) {pass : Pass} (hn : P pass.node) :
    P (executeComponent drive view pass component).node := by
  unfold RawNode.executeComponent
  split
  · exact hn
  dsimp only
  split
  · exact hn
  have hclosed : P (if component.any pass.node.isCheckpoint then
      pass.node.checkpointComponentClosed drive component else (pass.node, true)).1 := by
    split
    · exact hkept.checkpointComponentClosed hn component
    · exact hn
  generalize (if component.any pass.node.isCheckpoint then
    pass.node.checkpointComponentClosed drive component else (pass.node, true)) = closed at hclosed
  split
  · exact hclosed
  have horder := hkept.executeMembers component (closed.1.executionOrder component) hclosed
  split
  · exact horder
  · exact hkept.barrier _ _ horder

theorem executePasses (hn : P n) (view : List InstanceRef) (bound : ℕ) :
    P (n.executePasses drive view bound) := by
  induction bound generalizing n with
  | zero => exact hn
  | succ bound ih =>
    have hpass : ∀ (components : List (List InstanceRef)) (pass : Pass), P pass.node →
        P (components.foldl (RawNode.executeComponent drive view) pass).node := by
      intro components
      induction components with
      | nil => exact fun pass hnode ↦ hnode
      | cons component rest ih => exact fun pass hnode ↦ ih _ (hkept.executeComponent _ _ hnode)
    have hcomponents := hpass (n.executionComponents view) ⟨n, false, [], false⟩ hn
    unfold RawNode.executePasses
    dsimp only
    split
    · exact hcomponents
    split
    · exact ih hcomponents
    · exact hkept.scheduleDependencyRecoveries hcomponents _

end KeptByPasses

/-- Nested passes keep what each of them keeps, given that those nested in it do. -/
theorem tryExecute_keeps {P : RawNode → Prop} (hkept : ∀ drive : RawNode → RawNode,
    (∀ node, P node → P (drive node)) → KeptByPasses P drive) (nesting : ℕ) {n : RawNode}
      (hn : P n) :
    P (tryExecute nesting n) := by
  induction nesting generalizing n with
  | zero => exact hn
  | succ nesting ih =>
    unfold tryExecute
    split
    · exact hn
    · exact (hkept _ fun _ ↦ ih).executePasses hn _ _

end RawNode

end MoreConsensus
