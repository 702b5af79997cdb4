import MoreConsensus.Conflicts.Engine
import MoreConsensus.Library.IntervalBalance

/-!
# The interval tree of the conflict engine

The points and spans of a configuration are the nodes of a balanced search tree
(`epaxos/interval_index.go`), ordered by `resourceCompare`. Whatever resources were put into the
tree and taken from it, it is in order and balanced, what its nodes keep is right, and the two
queries visit the stored resources they ask for, each once (`IntervalRun.correct`).
-/

set_option autoImplicit false

namespace MoreConsensus

open Library

abbrev IntervalNode := IntervalTree Bytes KeyLanes

/-! ### The order of resources -/

def bytesCompare (a b : Bytes) : Ordering :=
  if bytesLess a b then .lt else if bytesLess b a then .gt else .eq

/-- By start, a point before the spans that start there, then by end. -/
def resourceCompare (resource other : Resource) : Ordering :=
  match bytesCompare resource.start other.start with
  | .eq =>
    if resource.isPoint != other.isPoint then if resource.isPoint then .lt else .gt
    else bytesCompare resource.stop other.stop
  | order => order

theorem bytesCompare_eq_lt {a b : Bytes} : bytesCompare a b = .lt ↔ a < b := by
  unfold bytesCompare
  rw [bytesLess_eq, bytesLess_eq]
  split_ifs with hlt hgt <;> simpa using hlt

theorem bytesCompare_eq_eq {a b : Bytes} : bytesCompare a b = .eq ↔ a = b := by
  unfold bytesCompare
  rw [bytesLess_eq, bytesLess_eq]
  rcases lt_trichotomy a b with hlt | heq | hgt
  · simp [hlt, hlt.ne]
  · simp [heq]
  · simp [hgt, hgt.asymm, hgt.ne']

theorem resourceCompare_eq_lt {resource other : Resource} :
    resourceCompare resource other = .lt ↔ resource < other := by
  have hrank : resource < other ↔ resource.rank < other.rank := Iff.rfl
  rw [hrank, Extent.rank, Extent.rank, Prod.Lex.toLex_lt_toLex, Prod.Lex.toLex_lt_toLex]
  unfold resourceCompare
  by_cases hstart : resource.start = other.start
  · rw [bytesCompare_eq_eq.mpr hstart]
    cases hpoint : resource.isPoint <;> cases hother : other.isPoint <;>
      simp [hstart, bytesCompare_eq_lt]
  · have hne : bytesCompare resource.start other.start ≠ .eq := bytesCompare_eq_eq.not.mpr hstart
    simp only [← bytesCompare_eq_lt, hstart, false_and, or_false]

/-! ### Operations -/

def insertInterval (root : IntervalNode) (resource : Resource) (lanes : KeyLanes) : IntervalNode :=
  root.insert resource lanes

def deleteInterval (root : IntervalNode) (resource : Resource) : IntervalNode :=
  root.delete resource

/-- The resources that a query of a span visits, when it is never told to stop. -/
def queryIntervalOverlap (root : IntervalNode) (start stop : Bytes) : List (Resource × KeyLanes) :=
  root.queryOverlap start stop

/-- The spans that a query of a point visits, when it is never told to stop. -/
def queryContainingSpans (root : IntervalNode) (point : Bytes) : List (Resource × KeyLanes) :=
  root.queryContaining point

/-- A tree that is made by putting resources in and taking them out, and what is stored in it. A
resource is put in when it is not there. -/
inductive IntervalRun : IntervalNode → (Resource → Option KeyLanes) → Prop
  | empty : IntervalRun .nil fun _ ↦ none
  | insert {root stored} (hrun : IntervalRun root stored) (resource : Resource) (lanes : KeyLanes)
      (hnew : stored resource = none) :
      IntervalRun (insertInterval root resource lanes)
        (Function.update stored resource (some lanes))
  | delete {root stored} (hrun : IntervalRun root stored) (resource : Resource) :
      IntervalRun (deleteInterval root resource) (Function.update stored resource none)

namespace IntervalRun

variable {root : IntervalNode} {stored : Resource → Option KeyLanes}

/-- The entries of the tree are in order and are what is stored. -/
theorem entries (hrun : IntervalRun root stored) :
    root.Sorted ∧ ∀ resource lanes, (resource, lanes) ∈ root.toList ↔
      stored resource = some lanes := by
  induction hrun with
  | empty => exact ⟨List.Pairwise.nil, by simp [IntervalTree.toList]⟩
  | insert _ resource lanes hnew ih =>
    obtain ⟨hsorted, hstored⟩ := ih
    refine ⟨hsorted.insert fun entry hentry heq ↦ ?_, fun other value ↦ ?_⟩
    · have hpresent := (hstored entry.1 entry.2).mp hentry
      rw [heq, hnew] at hpresent
      exact absurd hpresent (by simp)
    · rw [insertInterval, IntervalTree.mem_insert, hstored, Function.update_apply]
      by_cases hother : other = resource
      · subst hother
        simp [hnew, eq_comm]
      · simp [hother]
  | delete _ resource ih =>
    obtain ⟨hsorted, hstored⟩ := ih
    refine ⟨hsorted.delete resource, fun other value ↦ ?_⟩
    rw [deleteInterval, IntervalTree.mem_delete hsorted, hstored, Function.update_apply]
    by_cases hother : other = resource
    · simp [hother]
    · simp [hother]

theorem balanced (hrun : IntervalRun root stored) : root.Fresh ∧ root.Balanced := by
  induction hrun with
  | empty => exact ⟨trivial, trivial⟩
  | insert _ resource lanes _ ih =>
    exact ⟨IntervalTree.hereditary_fresh.insert ih.1 resource lanes,
      (ih.2.insert ih.1 resource lanes).1⟩
  | delete _ resource ih =>
    exact ⟨IntervalTree.hereditary_fresh.delete ih.1 resource, (ih.2.delete ih.1 resource).1⟩

theorem nodup (hrun : IntervalRun root stored) : root.toList.Nodup :=
  hrun.entries.1.imp fun hlt heq ↦ hlt.ne (congrArg Prod.fst heq)

/-- Whatever resources are put in and taken out: the tree is ordered by `resourceCompare` and holds
what is stored, its nodes are balanced and keep their height and furthest end, the height fits in
its signed byte, a query of a span visits the stored points and spans that overlap it, and a query
of a point the stored spans with that point, each once. For nonempty spans, to overlap is to share a
key. -/
theorem correct (hrun : IntervalRun root stored) :
    (root.toList.Pairwise fun entry next ↦ resourceCompare entry.1 next.1 = .lt) ∧
      (∀ resource lanes, (resource, lanes) ∈ root.toList ↔ stored resource = some lanes) ∧
      root.Balanced ∧ root.Exact ∧ (root.toList.length < 2 ^ 64 → root.height < 2 ^ 7) ∧
      (∀ start stop, (queryIntervalOverlap root start stop).Nodup ∧ ∀ resource lanes,
        (resource, lanes) ∈ queryIntervalOverlap root start stop ↔
          stored resource = some lanes ∧ resource.overlaps start stop = true) ∧
      (∀ (resource : Resource) (start stop : Bytes), resource.Proper → start < stop →
        (resource.overlaps start stop = true ↔
          (resource.keys ∩ Set.Ico start stop).Nonempty)) ∧
      ∀ point, (queryContainingSpans root point).Nodup ∧ ∀ resource lanes,
        (resource, lanes) ∈ queryContainingSpans root point ↔
          stored resource = some lanes ∧ resource.isPoint = false ∧ point ∈ resource.keys := by
  obtain ⟨hsorted, hstored⟩ := hrun.entries
  obtain ⟨hfresh, hbalanced⟩ := hrun.balanced
  refine ⟨hsorted.imp fun hlt ↦ resourceCompare_eq_lt.mpr hlt, hstored, hbalanced, hfresh.exact,
    fun hsize ↦ ?_, fun start stop ↦ ?_, fun _ _ _ hproper hspan ↦
      Extent.overlaps_iff hproper hspan,
    fun point ↦ ?_⟩
  · rw [hfresh.height_eq]
    exact hbalanced.depth_lt hsize
  · rw [queryIntervalOverlap, IntervalTree.queryOverlap_eq hsorted hfresh.bounded]
    refine ⟨hrun.nodup.filter _, fun resource lanes ↦ ?_⟩
    rw [List.mem_filter, hstored]
  · rw [queryContainingSpans, IntervalTree.queryContaining_eq hsorted hfresh.bounded]
    refine ⟨hrun.nodup.filter _, fun resource lanes ↦ ?_⟩
    rw [List.mem_filter, hstored, ← Extent.covers_iff]

end IntervalRun

/-- A point and a span that share their start are two resources. -/
theorem correct_pointAndSpan :
    ∃ root stored, IntervalRun root stored ∧ stored (.point [7]) = some ∅ ∧
      stored (.span [7] [9]) = some ∅ ∧
      (root.toList.Pairwise fun entry next ↦ resourceCompare entry.1 next.1 = .lt) := by
  have hpoint : IntervalRun _ _ := .insert .empty (.point [7]) ∅ rfl
  have hboth : IntervalRun _ _ := .insert hpoint (.span [7] [9]) ∅ (by simp)
  exact ⟨_, _, hboth, by simp, by simp, hboth.correct.1⟩

end MoreConsensus
