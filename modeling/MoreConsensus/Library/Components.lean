import MoreConsensus.Library.FiniteMap

/-!
# Strongly connected components by low-links

Tarjan's algorithm on a graph given by its successor lists. The frame stack of an iterative
implementation is the recursion of `visit`, for whose fuel the number of vertices is enough.
Components come out in the order in which they are closed, each with its root at the end.
-/

set_option autoImplicit false

namespace MoreConsensus.Library

/-- The state of a search: discovery indices, low-links, the open vertices with the last one in
front, the closed components in the order of closing, and the next index. -/
structure Search (α : Type) [LinearOrder α] where
  index : FiniteMap α ℕ := ∅
  low : FiniteMap α ℕ := ∅
  stack : List α := []
  components : List (List α) := []
  next : ℕ := 0

namespace Search

variable {α : Type} [LinearOrder α]

/-- Whether a vertex has been discovered. -/
def seen (st : Search α) (v : α) : Bool := st.index.contains v

def indexOf (st : Search α) (v : α) : ℕ := (st.index.get? v).getD 0

def lowOf (st : Search α) (v : α) : ℕ := (st.low.get? v).getD 0

/-- Discovers a vertex. -/
def enter (st : Search α) (v : α) : Search α :=
  { st with index := st.index.insert v st.next, low := st.low.insert v st.next,
            stack := v :: st.stack, next := st.next + 1 }

/-- Lowers the low-link of a vertex. -/
def lower (st : Search α) (v : α) (bound : ℕ) : Search α :=
  if bound < st.lowOf v then { st with low := st.low.insert v bound } else st

/-- Follows one edge: an undiscovered target is visited and passes its low-link on, an open one
passes its index on, a closed one does not count. -/
def follow (visit : α → Search α → Search α) (v : α) (st : Search α) (w : α) : Search α :=
  if st.seen w then if st.stack.contains w then st.lower v (st.indexOf w) else st
  else
    let st := visit w st
    st.lower v (st.lowOf w)

/-- Closes the component of a vertex that is its own low-link. -/
def finish (st : Search α) (v : α) : Search α :=
  if st.lowOf v = st.indexOf v then
    { st with components := st.components ++ [st.stack.takeWhile (· ≠ v) ++ [v]],
              stack := (st.stack.dropWhile (· ≠ v)).tail }
  else st

/-- Visits a vertex: discovers it, follows its edges in order, and closes its component. -/
def visit (succ : α → List α) : ℕ → α → Search α → Search α
  | 0, _, st => st
  | fuel + 1, v, st => ((succ v).foldl (follow (visit succ fuel) v) (st.enter v)).finish v

/-- Visits the roots that have not been discovered yet. -/
def run (succ : α → List α) (fuel : ℕ) (roots : List α) (st : Search α) : Search α :=
  roots.foldl (fun st root ↦ if st.seen root then st else visit succ fuel root st) st

end Search

/-- The components of the part of a graph that is reachable from the roots. -/
def components {α : Type} [LinearOrder α] (succ : α → List α) (fuel : ℕ) (roots : List α) :
    List (List α) :=
  (Search.run succ fuel roots {}).components

end MoreConsensus.Library
