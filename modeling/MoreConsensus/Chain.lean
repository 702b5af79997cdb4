import MoreConsensus.Core

/-!
# The chain of configurations

What a node knows of configurations is a chain: the voters of each, the current one, and for each
base the change that was applied to it. Executing a configuration change is a function of the chain,
the reference of the change and the change (`Chain.change`, `frame_applyConfChange`). An activation
of the membership plane brings its own voters, under the same conditions.
-/

set_option autoImplicit false

namespace MoreConsensus

open Library

structure Chain where
  history : FiniteMap ConfID VoterSet
  current : ConfID
  applied : FiniteMap ConfID InstanceRef

namespace Chain

/-- The voters after a change of the configuration it was proposed in. -/
def successor (chain : Chain) (ref : InstanceRef) (change : ConfChange) : Option VoterSet :=
  (chain.history.get? ref.conf).bind fun base ↦
    if entryValueCanonical .confChange {} change [] && ref.conf != maxUint64 then
      confChangeQuorumFrom ⟨ref.conf, base.voters⟩ change
    else none

/-- The chain with one more configuration. -/
def extend (chain : Chain) (ref : InstanceRef) (voters : VoterSet) : Chain :=
  { history := chain.history.insert (ref.conf + 1) voters
    current := if ref.conf = chain.current then ref.conf + 1 else chain.current
    applied := chain.applied.insert ref.conf ref }

/-- Executes a configuration change: the first valid one of a base wins. -/
def change (chain : Chain) (ref : InstanceRef) (change : ConfChange) : Chain × ConfChangeResult :=
  match chain.successor ref change with
  | none => (chain, { outcome := .rejectedInvalid })
  | some voters =>
    if chain.applied.contains ref.conf || chain.history.contains (ref.conf + 1) then
      (chain, { outcome := .rejectedSuperseded })
    else (chain.extend ref voters, ⟨.applied, ⟨ref.conf + 1, voters.voters⟩⟩)

/-- Whether a chain may be extended: the base is known, no change was applied to it, and its
successor is not known as another one. -/
structure Extends (chain : Chain) (ref : InstanceRef) (voters : VoterSet) : Prop where
  base : chain.history.contains ref.conf = true
  first : chain.applied.get? ref.conf = none
  next : ∀ existing, chain.history.get? (ref.conf + 1) = some existing → existing = voters

end Chain

namespace RawNode

def chain (n : RawNode) : Chain := ⟨n.confHistory, n.current, n.appliedConfByBase⟩

end RawNode

end MoreConsensus
