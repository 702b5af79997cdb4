import Mathlib

/-!
# Interval trees

A search tree of points and half-open spans of a linear order, balanced by height, in which every
node keeps the furthest end below it. The nodes are ordered by the start of their extent, a point
before the spans that start there, then by the end. The tree is observed through the list of its
entries: insertion and deletion add and take away one entry and keep the order (`mem_insert`,
`mem_delete`), and a query that prunes by order and by the furthest end gives the entries it looks
for and no others (`queryOverlap_eq`, `queryContaining_eq`). All changes of the shape go through
`refresh`, so a property that a refreshed node has as soon as its sides have it is kept
(`Hereditary`).
-/

set_option autoImplicit false

namespace MoreConsensus.Library

/-- A point or a half-open span. -/
inductive Extent (K : Type)
  | point (key : K)
  | span (start stop : K)
  deriving DecidableEq, Repr

namespace Extent

variable {K : Type}

def start : Extent K → K
  | .point key => key
  | .span start _ => start

def stop : Extent K → K
  | .point key => key
  | .span _ stop => stop

def isPoint : Extent K → Bool
  | .point _ => true
  | .span _ _ => false

/-- What extents are ordered by: their start, points first, then their end. -/
def rank (extent : Extent K) : K ×ₗ Bool ×ₗ K :=
  toLex (extent.start, toLex (!extent.isPoint, extent.stop))

theorem rank_injective : Function.Injective (rank : Extent K → K ×ₗ Bool ×ₗ K) := by
  intro first second heq
  simp only [rank, EmbeddingLike.apply_eq_iff_eq, Prod.mk.injEq] at heq
  cases first <;> cases second <;> simp_all [start, stop, isPoint]

variable [LinearOrder K]

instance : LinearOrder (Extent K) := LinearOrder.lift' rank rank_injective

theorem start_le_of_lt {first second : Extent K} (hlt : first < second) :
    first.start ≤ second.start := by
  have hrank : first.rank < second.rank := hlt
  rw [rank, rank, Prod.Lex.toLex_lt_toLex] at hrank
  exact hrank.elim le_of_lt fun hrest ↦ hrest.1.le

/-- How far an extent reaches: a point has its own end, a span has not. -/
def upper (extent : Extent K) : K ×ₗ Bool := toLex (extent.stop, extent.isPoint)

/-- Whether an extent has a part of a span. -/
def overlaps (start stop : K) : Extent K → Bool
  | .point key => decide (start ≤ key) && decide (key < stop)
  | .span first last => decide (first < stop) && decide (start < last)

/-- Whether an extent is a span with a point. -/
def covers (point : K) : Extent K → Bool
  | .point _ => false
  | .span first last => decide (first ≤ point) && decide (point < last)

/-- The keys of an extent. -/
def keys : Extent K → Set K
  | .point key => {key}
  | .span first last => Set.Ico first last

/-- Whether an extent has a key. -/
def Proper : Extent K → Prop
  | .point _ => True
  | .span first last => first < last

variable {extent : Extent K}

/-- A nonempty extent has a part of a nonempty span when they share a key. -/
theorem overlaps_iff (hproper : extent.Proper) {first last : K}
    (hspan : first < last) :
    extent.overlaps first last = true ↔ (extent.keys ∩ Set.Ico first last).Nonempty := by
  cases extent with
  | point key =>
    simp only [overlaps, Bool.and_eq_true, decide_eq_true_eq, keys, Set.singleton_inter_nonempty,
      Set.mem_Ico]
  | span begins ends =>
    have hends : begins < ends := hproper
    simp only [overlaps, Bool.and_eq_true, decide_eq_true_eq, keys, Set.Ico_inter_Ico,
      Set.nonempty_Ico, sup_lt_iff, lt_inf_iff]
    tauto

theorem covers_iff {point : K} :
    extent.covers point = true ↔ extent.isPoint = false ∧ point ∈ extent.keys := by
  cases extent <;> simp [covers, isPoint, keys]

theorem lower_of_overlaps {first last : K}
    (hoverlaps : extent.overlaps first last = true) :
    extent.start < last ∧ toLex (first, true) ≤ extent.upper := by
  cases extent with
  | point key =>
    simp only [overlaps, Bool.and_eq_true, decide_eq_true_eq] at hoverlaps
    simpa [start, upper, stop, isPoint, Prod.Lex.toLex_le_toLex, ← le_iff_lt_or_eq] using
      hoverlaps.symm
  | span begins ends =>
    simp only [overlaps, Bool.and_eq_true, decide_eq_true_eq] at hoverlaps
    exact ⟨hoverlaps.1, Prod.Lex.toLex_le_toLex.mpr (Or.inl hoverlaps.2)⟩

theorem lower_of_covers {point : K} (hcovers : extent.covers point = true) :
    extent.start ≤ point ∧ toLex (point, true) ≤ extent.upper := by
  cases extent with
  | point key => simp [covers] at hcovers
  | span begins ends =>
    simp only [covers, Bool.and_eq_true, decide_eq_true_eq] at hcovers
    exact ⟨hcovers.1, Prod.Lex.toLex_le_toLex.mpr (Or.inl hcovers.2)⟩

end Extent

/-- An interval tree with a value for every extent. -/
inductive IntervalTree (K V : Type)
  | nil
  | node (left : IntervalTree K V) (key : Extent K) (value : V) (right : IntervalTree K V)
      (height : ℕ) (reach : K ×ₗ Bool)

namespace IntervalTree

variable {K V : Type}

def height : IntervalTree K V → ℕ
  | nil => 0
  | node _ _ _ _ height _ => height

def left : IntervalTree K V → IntervalTree K V
  | nil => nil
  | node left _ _ _ _ _ => left

def right : IntervalTree K V → IntervalTree K V
  | nil => nil
  | node _ _ _ right _ _ => right

/-- The entries in order. -/
def toList : IntervalTree K V → List (Extent K × V)
  | nil => []
  | node left key value right _ _ => left.toList ++ (key, value) :: right.toList

variable [LinearOrder K]

/-- The furthest of an end and the ends below a child. -/
def extendReach (reach : K ×ₗ Bool) : IntervalTree K V → K ×ₗ Bool
  | nil => reach
  | node _ _ _ _ _ below => if reach < below then below else reach

/-- A node with its height and furthest end. -/
def refresh (left : IntervalTree K V) (key : Extent K) (value : V) (right : IntervalTree K V) :
    IntervalTree K V :=
  node left key value right (1 + max left.height right.height)
    (extendReach (extendReach key.upper left) right)

def rotateLeft : IntervalTree K V → IntervalTree K V
  | node left key value (node inner upKey upValue outer _ _) _ _ =>
    refresh (refresh left key value inner) upKey upValue outer
  | tree => tree

def rotateRight : IntervalTree K V → IntervalTree K V
  | node (node outer upKey upValue inner _ _) key value right _ _ =>
    refresh outer upKey upValue (refresh inner key value right)
  | tree => tree

/-- A node whose children differ in height by at most two, balanced. -/
def balance (left : IntervalTree K V) (key : Extent K) (value : V) (right : IntervalTree K V) :
    IntervalTree K V :=
  if right.height + 1 < left.height then
    let left := if left.left.height < left.right.height then rotateLeft left else left
    rotateRight (refresh left key value right)
  else if left.height + 1 < right.height then
    let right := if right.right.height < right.left.height then rotateRight right else right
    rotateLeft (refresh left key value right)
  else refresh left key value right

def find (key : Extent K) : IntervalTree K V → Option V
  | nil => none
  | node left other value right _ _ =>
    if key = other then some value else if key < other then find key left else find key right

/-- The tree with one more extent. -/
def insert (key : Extent K) (value : V) : IntervalTree K V → IntervalTree K V
  | nil => refresh nil key value nil
  | node left other present right _ _ =>
    if key < other then balance (insert key value left) other present right
    else balance left other present (insert key value right)

/-- The tree with the value of one extent changed in place. -/
def modify (key : Extent K) (f : V → V) : IntervalTree K V → IntervalTree K V
  | nil => nil
  | node left other value right height reach =>
    if key = other then node left other (f value) right height reach
    else if key < other then node (modify key f left) other value right height reach
    else node left other value (modify key f right) height reach

/-- The least entry. -/
def least : IntervalTree K V → Option (Extent K × V)
  | nil => none
  | node left key value _ _ _ => left.least.or (some (key, value))

/-- The tree without one extent. A node with two children takes the entry that follows its own. -/
def delete (key : Extent K) : IntervalTree K V → IntervalTree K V
  | nil => nil
  | node left other value right _ _ =>
    if key < other then balance (delete key left) other value right
    else if other < key then balance left other value (delete key right)
    else if left.least.isNone then right
    else right.least.elim left fun next ↦ balance left next.1 next.2 (delete next.1 right)

/-- Whether something below a node may reach a place. -/
def mayReach (start : K) : IntervalTree K V → Bool
  | nil => false
  | node _ _ _ _ _ reach => decide (toLex (start, true) ≤ reach)

/-- The entries that are selected. The left side is passed over when nothing there reaches a place,
the right side when the selection does not go on from the start of the node. -/
def query (select : Extent K → Bool) (place : K) (goesOn : K → Bool) :
    IntervalTree K V → List (Extent K × V)
  | nil => []
  | node left key value right _ _ =>
    (if left.mayReach place then query select place goesOn left else []) ++
      ((if select key then [(key, value)] else []) ++
        if goesOn key.start then query select place goesOn right else [])

/-- The entries that have a part of a span. -/
def queryOverlap (start stop : K) : IntervalTree K V → List (Extent K × V) :=
  query (fun extent ↦ extent.overlaps start stop) start fun other ↦ decide (other < stop)

/-- The spans that have a point. -/
def queryContaining (point : K) : IntervalTree K V → List (Extent K × V) :=
  query (fun extent ↦ extent.covers point) point fun other ↦ decide (other ≤ point)

/-! ### The list of entries -/

section Lists

variable (left right : IntervalTree K V) (key : Extent K) (value : V)

@[simp] theorem toList_refresh :
    (refresh left key value right).toList = left.toList ++ (key, value) :: right.toList := rfl

@[simp] theorem toList_rotateLeft (tree : IntervalTree K V) :
    tree.rotateLeft.toList = tree.toList := by
  unfold rotateLeft
  split
  · simp [toList]
  · rfl

@[simp] theorem toList_rotateRight (tree : IntervalTree K V) :
    tree.rotateRight.toList = tree.toList := by
  unfold rotateRight
  split
  · simp [toList]
  · rfl

@[simp] theorem toList_balance :
    (balance left key value right).toList = left.toList ++ (key, value) :: right.toList := by
  unfold balance
  dsimp only
  split_ifs <;> simp

end Lists

/-- The entries are in the strict order of their extents. -/
def Sorted (tree : IntervalTree K V) : Prop :=
  tree.toList.Pairwise fun first second ↦ first.1 < second.1

section Nodes

variable {left right : IntervalTree K V} {key : Extent K} {value : V} {height : ℕ}
  {reach : K ×ₗ Bool}

/-- A sorted node: both sides are sorted, and on their own side of the node's extent. -/
theorem sorted_node : (node left key value right height reach).Sorted ↔
    (left.Sorted ∧ right.Sorted) ∧ (∀ entry ∈ left.toList, entry.1 < key) ∧
      ∀ entry ∈ right.toList, key < entry.1 := by
  simp only [Sorted, toList, List.pairwise_append, List.pairwise_cons, List.mem_cons]
  constructor
  · rintro ⟨hleft, ⟨hkey, hright⟩, hcross⟩
    exact ⟨⟨hleft, hright⟩, fun entry hentry ↦ hcross entry hentry _ (Or.inl rfl), hkey⟩
  · rintro ⟨⟨hleft, hright⟩, hbefore, hafter⟩
    refine ⟨hleft, ⟨hafter, hright⟩, fun first hfirst second hsecond ↦ ?_⟩
    rcases hsecond with rfl | hsecond
    · exact hbefore first hfirst
    · exact (hbefore first hfirst).trans (hafter second hsecond)

end Nodes

variable {tree : IntervalTree K V} {key : Extent K} {value : V} {entry : Extent K × V}

theorem find_eq_some (hsorted : tree.Sorted) :
    tree.find key = some value ↔ (key, value) ∈ tree.toList := by
  induction tree with
  | nil => simp [find, toList]
  | node left other present right _ _ ihLeft ihRight =>
    obtain ⟨⟨hleft, hright⟩, hbefore, hafter⟩ := sorted_node.mp hsorted
    have hnotLeft : other ≤ key → (key, value) ∉ left.toList := fun hle hmem ↦
      absurd (hbefore _ hmem) (not_lt.mpr hle)
    have hnotRight : key ≤ other → (key, value) ∉ right.toList := fun hle hmem ↦
      absurd (hafter _ hmem) (not_lt.mpr hle)
    simp only [find, toList, List.mem_append, List.mem_cons, Prod.mk.injEq]
    split_ifs with heq hlt
    · subst heq
      simp [hnotLeft le_rfl, hnotRight le_rfl, eq_comm]
    · simp [ihLeft hleft, heq, hnotRight hlt.le]
    · simp [ihRight hright, heq, hnotLeft (not_lt.mp hlt)]

/-- Sorted sides on their own side of an extent make a sorted tree. -/
theorem sorted_of_sides {tree left right : IntervalTree K V}
    (hlist : tree.toList = left.toList ++ (key, value) :: right.toList) (hleft : left.Sorted)
    (hright : right.Sorted) (hbefore : ∀ entry ∈ left.toList, entry.1 < key)
    (hafter : ∀ entry ∈ right.toList, key < entry.1) : tree.Sorted := by
  have hnode : (node left key value right 0 key.upper).Sorted :=
    sorted_node.mpr ⟨⟨hleft, hright⟩, hbefore, hafter⟩
  unfold Sorted at hnode ⊢
  rw [hlist]
  exact hnode

/-! ### Insertion -/

theorem mem_insert :
    entry ∈ (tree.insert key value).toList ↔ entry = (key, value) ∨ entry ∈ tree.toList := by
  induction tree with
  | nil => simp [insert, toList]
  | node left other present right _ _ ihLeft ihRight =>
    simp only [insert, toList]
    split_ifs
    · rw [toList_balance, List.mem_append, ihLeft, List.mem_append, or_assoc]
    · rw [toList_balance, List.mem_append, List.mem_cons, ihRight, List.mem_append, List.mem_cons]
      tauto

theorem Sorted.insert (hsorted : tree.Sorted)
    (hnew : ∀ entry ∈ tree.toList, entry.1 ≠ key) : (tree.insert key value).Sorted := by
  induction tree with
  | nil => exact List.pairwise_singleton _ _
  | node left other present right _ _ ihLeft ihRight =>
    obtain ⟨⟨hleft, hright⟩, hbefore, hafter⟩ := sorted_node.mp hsorted
    simp only [toList, List.mem_append, List.mem_cons] at hnew
    unfold IntervalTree.insert
    split_ifs with hlt
    · refine sorted_of_sides (toList_balance ..)
        (ihLeft hleft fun entry hentry ↦ hnew entry (Or.inl hentry)) hright ?_ hafter
      intro entry hentry
      rcases mem_insert.mp hentry with rfl | hold
      · exact hlt
      · exact hbefore entry hold
    · refine sorted_of_sides (toList_balance ..) hleft
        (ihRight hright fun entry hentry ↦ hnew entry (Or.inr (Or.inr hentry))) hbefore ?_
      intro entry hentry
      rcases mem_insert.mp hentry with rfl | hold
      · exact lt_of_le_of_ne (not_lt.mp hlt) (hnew (other, present) (Or.inr (Or.inl rfl)))
      · exact hafter entry hold

/-! ### Change of a value -/

theorem toList_modify (hsorted : tree.Sorted) (key : Extent K)
    (f : V → V) : (tree.modify key f).toList =
      tree.toList.map fun entry ↦ (entry.1, if entry.1 = key then f entry.2 else entry.2) := by
  induction tree with
  | nil => rfl
  | node left other present right _ _ ihLeft ihRight =>
    obtain ⟨⟨hleft, hright⟩, hbefore, hafter⟩ := sorted_node.mp hsorted
    -- a side that does not have the extent stays as it is
    have hsame : ∀ entries : List (Extent K × V), (∀ entry ∈ entries, entry.1 ≠ key) →
        entries.map (fun entry ↦ (entry.1, if entry.1 = key then f entry.2 else entry.2)) =
          entries := by
      intro entries hne
      refine (List.map_congr_left fun entry hentry ↦ ?_).trans (List.map_id entries)
      simp [hne entry hentry]
    rw [modify, toList, List.map_append, List.map_cons]
    rcases lt_trichotomy key other with hlt | heq | hgt
    · rw [if_neg hlt.ne, if_pos hlt, if_neg hlt.ne', toList, ihLeft hleft,
        hsame right.toList fun entry hentry ↦ (hlt.trans (hafter entry hentry)).ne']
    · subst heq
      rw [if_pos rfl, if_pos rfl, toList, hsame left.toList fun entry hentry ↦
        (hbefore entry hentry).ne, hsame right.toList fun entry hentry ↦ (hafter entry hentry).ne']
    · rw [if_neg hgt.ne', if_neg hgt.asymm, if_neg hgt.ne, toList, ihRight hright,
        hsame left.toList fun entry hentry ↦ ((hbefore entry hentry).trans hgt).ne]

theorem Sorted.modify (hsorted : tree.Sorted) (key : Extent K)
    (f : V → V) : (tree.modify key f).Sorted := by
  unfold Sorted at *
  rw [toList_modify hsorted, List.pairwise_map]
  exact hsorted

/-! ### Deletion -/

omit [LinearOrder K] in
theorem least_eq : tree.least = tree.toList.head? := by
  induction tree with
  | nil => rfl
  | node left key value right _ _ ihLeft _ =>
    rw [least, ihLeft, toList, List.head?_append]
    rfl

theorem toList_delete (hsorted : tree.Sorted) (key : Extent K) :
    (tree.delete key).toList = tree.toList.filter fun entry ↦ decide (entry.1 ≠ key) := by
  -- a side that does not have the extent stays as it is
  have hsame : ∀ (key : Extent K) {entries : List (Extent K × V)},
      (∀ entry ∈ entries, entry.1 ≠ key) →
        entries.filter (fun entry ↦ decide (entry.1 ≠ key)) = entries := fun key entries hne ↦
    List.filter_eq_self.mpr fun entry hentry ↦ decide_eq_true (hne entry hentry)
  induction tree generalizing key with
  | nil => rfl
  | node left other value right _ _ ihLeft ihRight =>
    obtain ⟨⟨hleft, hright⟩, hbefore, hafter⟩ := sorted_node.mp hsorted
    rw [delete, toList, List.filter_append]
    rcases lt_trichotomy key other with hlt | heq | hgt
    · rw [if_pos hlt, toList_balance, ihLeft hleft,
        List.filter_cons_of_pos (by simpa using hlt.ne'),
        hsame key fun entry hentry ↦ (hlt.trans (hafter entry hentry)).ne']
    · subst heq
      rw [if_neg (lt_irrefl _), if_neg (lt_irrefl _), List.filter_cons_of_neg (by simp),
        hsame key fun entry hentry ↦ (hbefore entry hentry).ne,
        hsame key fun entry hentry ↦ (hafter entry hentry).ne']
      split_ifs with hnone
      · rw [least_eq, Option.isNone_iff_eq_none, List.head?_eq_none_iff] at hnone
        rw [hnone, List.nil_append]
      · cases hleast : right.least with
        | none =>
          rw [least_eq, List.head?_eq_none_iff] at hleast
          rw [hleast, List.append_nil, Option.elim_none]
        | some next =>
          -- the entry that takes the place is the only one with its extent
          obtain ⟨rest, hrest⟩ := List.head?_eq_some_iff.mp (least_eq.symm.trans hleast)
          have hlater := hright
          rw [Sorted, hrest, List.pairwise_cons] at hlater
          rw [Option.elim_some, toList_balance, ihRight hright, hrest,
            List.filter_cons_of_neg (by simp),
            hsame next.1 fun entry hentry ↦ (hlater.1 entry hentry).ne']
    · rw [if_neg hgt.asymm, if_pos hgt, toList_balance, ihRight hright,
        List.filter_cons_of_pos (by simpa using hgt.ne),
        hsame key fun entry hentry ↦ ((hbefore entry hentry).trans hgt).ne]

theorem mem_delete (hsorted : tree.Sorted) :
    entry ∈ (tree.delete key).toList ↔ entry ∈ tree.toList ∧ entry.1 ≠ key := by
  rw [toList_delete hsorted, List.mem_filter, decide_eq_true_iff]

theorem Sorted.delete (hsorted : tree.Sorted) (key : Extent K) : (tree.delete key).Sorted := by
  rw [Sorted, toList_delete hsorted]
  exact List.Pairwise.filter _ hsorted

/-! ### Properties of all nodes -/

/-- A property that every side of a node has, and every refreshed node whose sides have it. -/
structure Hereditary (P : IntervalTree K V → Prop) : Prop where
  nil : P nil
  refresh : ∀ left key value right, P left → P right → P (refresh left key value right)
  sides : ∀ left key value right height reach,
    P (node left key value right height reach) → P left ∧ P right

namespace Hereditary

variable {P : IntervalTree K V → Prop} (hP : Hereditary P) {left right tree : IntervalTree K V}

include hP

theorem rotateLeft (htree : P tree) : P tree.rotateLeft := by
  unfold IntervalTree.rotateLeft
  split
  · obtain ⟨hleft, hright⟩ := hP.sides _ _ _ _ _ _ htree
    obtain ⟨hinner, houter⟩ := hP.sides _ _ _ _ _ _ hright
    exact hP.refresh _ _ _ _ (hP.refresh _ _ _ _ hleft hinner) houter
  · exact htree

theorem rotateRight (htree : P tree) : P tree.rotateRight := by
  unfold IntervalTree.rotateRight
  split
  · obtain ⟨hleft, hright⟩ := hP.sides _ _ _ _ _ _ htree
    obtain ⟨houter, hinner⟩ := hP.sides _ _ _ _ _ _ hleft
    exact hP.refresh _ _ _ _ houter (hP.refresh _ _ _ _ hinner hright)
  · exact htree

theorem balance (hleft : P left) (hright : P right) (key : Extent K) (value : V) :
    P (balance left key value right) := by
  unfold IntervalTree.balance
  dsimp only
  split_ifs
  · exact hP.rotateRight (hP.refresh _ _ _ _ (hP.rotateLeft hleft) hright)
  · exact hP.rotateRight (hP.refresh _ _ _ _ hleft hright)
  · exact hP.rotateLeft (hP.refresh _ _ _ _ hleft (hP.rotateRight hright))
  · exact hP.rotateLeft (hP.refresh _ _ _ _ hleft hright)
  · exact hP.refresh _ _ _ _ hleft hright

theorem insert (htree : P tree) (key : Extent K) (value : V) : P (tree.insert key value) := by
  induction tree with
  | nil => exact hP.refresh _ _ _ _ hP.nil hP.nil
  | node left other present right _ _ ihLeft ihRight =>
    obtain ⟨hleft, hright⟩ := hP.sides _ _ _ _ _ _ htree
    unfold IntervalTree.insert
    split_ifs
    · exact hP.balance (ihLeft hleft) hright _ _
    · exact hP.balance hleft (ihRight hright) _ _

theorem delete (htree : P tree) (key : Extent K) : P (tree.delete key) := by
  induction tree generalizing key with
  | nil => exact hP.nil
  | node left other present right _ _ ihLeft ihRight =>
    obtain ⟨hleft, hright⟩ := hP.sides _ _ _ _ _ _ htree
    unfold IntervalTree.delete
    split_ifs
    · exact hP.balance (ihLeft hleft key) hright _ _
    · exact hP.balance hleft (ihRight hright key) _ _
    · exact hright
    · cases right.least with
      | none => exact hleft
      | some next => exact hP.balance hleft (ihRight hright next.1) _ _

end Hereditary

/-! ### Furthest ends -/

/-- No entry below a node reaches beyond the end that the node keeps. -/
def Bounded : IntervalTree K V → Prop
  | nil => True
  | node left key value right _ reach =>
    (∀ entry ∈ left.toList ++ (key, value) :: right.toList, entry.1.upper ≤ reach) ∧
      left.Bounded ∧ right.Bounded

theorem le_extendReach (reach : K ×ₗ Bool) (tree : IntervalTree K V) :
    reach ≤ extendReach reach tree := by
  cases tree with
  | nil => exact le_rfl
  | node _ _ _ _ _ below =>
    rw [extendReach]
    split_ifs with hlt
    · exact hlt.le
    · exact le_rfl

theorem Bounded.le_extendReach (hbounded : tree.Bounded)
    (reach : K ×ₗ Bool) (hentry : entry ∈ tree.toList) :
    entry.1.upper ≤ extendReach reach tree := by
  cases tree with
  | nil => simp [toList] at hentry
  | node _ _ _ _ _ below =>
    have hle := hbounded.1 entry hentry
    rw [extendReach]
    split_ifs with hlt
    · exact hle
    · exact hle.trans (not_lt.mp hlt)

variable {left right tree : IntervalTree K V}

theorem Bounded.refresh (hleft : left.Bounded) (hright : right.Bounded) (key : Extent K)
    (value : V) : (refresh left key value right).Bounded := by
  refine ⟨fun entry hentry ↦ ?_, hleft, hright⟩
  rcases List.mem_append.mp hentry with hmem | hmem
  · exact (hleft.le_extendReach _ hmem).trans (IntervalTree.le_extendReach _ right)
  · rcases List.mem_cons.mp hmem with rfl | hlater
    · exact (IntervalTree.le_extendReach _ left).trans (IntervalTree.le_extendReach _ right)
    · exact hright.le_extendReach _ hlater

theorem hereditary_bounded : Hereditary (Bounded (K := K) (V := V)) where
  nil := trivial
  refresh := fun _ key value _ hleft hright ↦ hleft.refresh hright key value
  sides := fun _ _ _ _ _ _ hnode ↦ hnode.2

theorem Bounded.modify (hbounded : tree.Bounded) (hsorted : tree.Sorted) (key : Extent K)
    (f : V → V) : (tree.modify key f).Bounded := by
  induction tree with
  | nil => trivial
  | node left other present right height reach ihLeft ihRight =>
    have hlist := toList_modify hsorted key f
    obtain ⟨⟨hbefore, hafter⟩, -⟩ := sorted_node.mp hsorted
    obtain ⟨hreach, hleft, hright⟩ := hbounded
    have hends : ∀ entry ∈ ((node left other present right height reach).modify key f).toList,
        entry.1.upper ≤ reach := by
      intro entry hentry
      rw [hlist] at hentry
      obtain ⟨old, hold, rfl⟩ := List.mem_map.mp hentry
      exact hreach old hold
    unfold IntervalTree.modify at hends ⊢
    split_ifs at hends ⊢
    · exact ⟨hends, hleft, hright⟩
    · exact ⟨hends, ihLeft hleft hbefore, hright⟩
    · exact ⟨hends, hleft, ihRight hright hafter⟩

/-! ### Queries -/

theorem Bounded.upper_lt {start : K} (hbounded : tree.Bounded) (hfar : tree.mayReach start = false)
    (hentry : entry ∈ tree.toList) :
    ¬toLex (start, true) ≤ entry.1.upper := by
  cases tree with
  | nil => simp [toList] at hentry
  | node _ _ _ _ _ reach =>
    intro hle
    exact absurd (hle.trans (hbounded.1 entry hentry)) (of_decide_eq_false hfar)

theorem query_eq {select : Extent K → Bool} {place : K} {goesOn : K → Bool}
    (hreach : ∀ extent, select extent = true → toLex (place, true) ≤ extent.upper)
    (hstart : ∀ extent other, select extent = true → other ≤ extent.start → goesOn other = true)
    (hsorted : tree.Sorted) (hbounded : tree.Bounded) :
    tree.query select place goesOn = tree.toList.filter fun entry ↦ select entry.1 := by
  induction tree with
  | nil => rfl
  | node left key value right _ _ ihLeft ihRight =>
    obtain ⟨⟨hleft, hright⟩, -, hafter⟩ := sorted_node.mp hsorted
    obtain ⟨-, hboundLeft, hboundRight⟩ := hbounded
    have hpruned : left.mayReach place = false →
        left.toList.filter (fun entry ↦ select entry.1) = [] := fun hfar ↦
      List.filter_eq_nil_iff.mpr fun entry hentry hselect ↦
        hboundLeft.upper_lt hfar hentry (hreach _ hselect)
    have hpassed : goesOn key.start = false →
        right.toList.filter (fun entry ↦ select entry.1) = [] := fun hover ↦
      List.filter_eq_nil_iff.mpr fun entry hentry hselect ↦ by
        have hon := hstart _ _ hselect (Extent.start_le_of_lt (hafter entry hentry))
        simp [hover] at hon
    rw [query, ihLeft hleft hboundLeft, ihRight hright hboundRight, toList, List.filter_append,
      List.filter_cons]
    congr 1
    · split_ifs with hnear
      · rfl
      · exact (hpruned (by simpa using hnear)).symm
    · cases hon : goesOn key.start with
      | true => by_cases hselect : select key = true <;> simp [hselect]
      | false => by_cases hselect : select key = true <;> simp [hselect, hpassed hon]

theorem queryOverlap_eq (hsorted : tree.Sorted) (hbounded : tree.Bounded) (start stop : K) :
    tree.queryOverlap start stop = tree.toList.filter fun entry ↦ entry.1.overlaps start stop :=
  query_eq (fun _ hoverlaps ↦ (Extent.lower_of_overlaps hoverlaps).2)
    (fun _ _ hoverlaps hle ↦ decide_eq_true (hle.trans_lt (Extent.lower_of_overlaps hoverlaps).1))
    hsorted hbounded

theorem queryContaining_eq (hsorted : tree.Sorted) (hbounded : tree.Bounded) (point : K) :
    tree.queryContaining point = tree.toList.filter fun entry ↦ entry.1.covers point :=
  query_eq (fun _ hcovers ↦ (Extent.lower_of_covers hcovers).2)
    (fun _ _ hcovers hle ↦ decide_eq_true (hle.trans (Extent.lower_of_covers hcovers).1))
    hsorted hbounded

end IntervalTree

/-! ### Maps -/

/-- A map from extents to values: an interval tree that is in order and keeps its ends. -/
structure IntervalMap (K V : Type) [LinearOrder K] where
  tree : IntervalTree K V
  sorted : tree.Sorted
  bounded : tree.Bounded

namespace IntervalMap

variable {K V : Type} [LinearOrder K]

def empty : IntervalMap K V := ⟨.nil, List.Pairwise.nil, trivial⟩

instance : EmptyCollection (IntervalMap K V) := ⟨empty⟩

def entries (map : IntervalMap K V) : List (Extent K × V) := map.tree.toList

def isEmpty (map : IntervalMap K V) : Bool := map.tree.least.isNone

def find (map : IntervalMap K V) (key : Extent K) : Option V := map.tree.find key

variable {key : Extent K} {value : V}

theorem mem_entries (map : IntervalMap K V) :
    (key, value) ∈ map.entries ↔ map.find key = some value :=
  (IntervalTree.find_eq_some map.sorted).symm

theorem ne_of_find_eq_none {map : IntervalMap K V} (hnone : map.find key = none)
    (entry : Extent K × V) (hentry : entry ∈ map.tree.toList) : entry.1 ≠ key := by
  rintro rfl
  have hfind : map.find entry.1 = some entry.2 := map.mem_entries.mp hentry
  simp [hnone] at hfind

/-- The map with the value of one extent changed, or made from a fresh one. -/
def update (map : IntervalMap K V) (key : Extent K) (fresh : V) (f : V → V) : IntervalMap K V :=
  if hnone : map.find key = none then
    ⟨map.tree.insert key (f fresh), map.sorted.insert (ne_of_find_eq_none hnone),
      IntervalTree.hereditary_bounded.insert map.bounded key (f fresh)⟩
  else ⟨map.tree.modify key f, map.sorted.modify key f, map.bounded.modify map.sorted key f⟩

def erase (map : IntervalMap K V) (key : Extent K) : IntervalMap K V :=
  ⟨map.tree.delete key, map.sorted.delete key,
    IntervalTree.hereditary_bounded.delete map.bounded key⟩

/-- The entries that have a part of a span. -/
def queryOverlap (map : IntervalMap K V) (start stop : K) : List (Extent K × V) :=
  map.tree.queryOverlap start stop

/-- The spans that have a point. -/
def queryContaining (map : IntervalMap K V) (point : K) : List (Extent K × V) :=
  map.tree.queryContaining point

theorem find_of_isEmpty {map : IntervalMap K V} (hempty : map.isEmpty = true) (key : Extent K) :
    map.find key = none := by
  have hentries : map.entries = [] := by
    rw [isEmpty, IntervalTree.least_eq, Option.isNone_iff_eq_none] at hempty
    exact List.head?_eq_none_iff.mp hempty
  by_contra hsome
  obtain ⟨value, hvalue⟩ := Option.ne_none_iff_exists'.mp hsome
  rw [← mem_entries, hentries] at hvalue
  exact List.not_mem_nil hvalue

@[simp] theorem find_empty (key : Extent K) : (∅ : IntervalMap K V).find key = none := rfl

theorem find_update (map : IntervalMap K V) (key other : Extent K) (fresh : V) (f : V → V) :
    (map.update key fresh f).find other =
      if other = key then some (f ((map.find key).getD fresh)) else map.find other := by
  refine Option.ext fun value ↦ ?_
  rw [← mem_entries]
  unfold update
  split_ifs with hnone hother hother
  · subst hother
    simp only [entries, IntervalTree.mem_insert, hnone, Option.getD_none, Prod.mk.injEq, true_and,
      Option.some.injEq]
    refine ⟨fun hmem ↦ hmem.elim Eq.symm fun hold ↦ ?_, fun hvalue ↦ Or.inl hvalue.symm⟩
    exact absurd rfl (ne_of_find_eq_none hnone _ hold)
  · simp only [entries, IntervalTree.mem_insert, Prod.mk.injEq, hother, false_and, false_or]
    exact map.mem_entries
  · subst hother
    obtain ⟨present, hpresent⟩ := Option.ne_none_iff_exists'.mp hnone
    simp only [entries, IntervalTree.toList_modify map.sorted, List.mem_map, Prod.mk.injEq,
      hpresent, Option.getD_some, Option.some.injEq, Prod.exists]
    constructor
    · rintro ⟨extent, old, hold, rfl, hvalue⟩
      rw [if_pos rfl] at hvalue
      have hsame : map.find extent = some old := map.mem_entries.mp hold
      rw [hpresent, Option.some.injEq] at hsame
      rw [hsame, hvalue]
    · rintro rfl
      exact ⟨other, present, map.mem_entries.mpr hpresent, rfl, if_pos rfl⟩
  · rw [← mem_entries]
    simp only [entries, IntervalTree.toList_modify map.sorted, List.mem_map, Prod.mk.injEq,
      Prod.exists]
    constructor
    · rintro ⟨extent, old, hold, rfl, hvalue⟩
      rw [if_neg hother] at hvalue
      exact hvalue ▸ hold
    · exact fun hmem ↦ ⟨other, value, hmem, rfl, if_neg hother⟩

theorem find_erase (map : IntervalMap K V) (key other : Extent K) :
    (map.erase key).find other = if other = key then none else map.find other := by
  refine Option.ext fun value ↦ ?_
  rw [← mem_entries]
  simp only [entries, erase, IntervalTree.mem_delete map.sorted]
  split_ifs with hother
  · simp [hother]
  · simp only [ne_eq, hother, not_false_eq_true, and_true]
    exact map.mem_entries

theorem mem_queryOverlap (map : IntervalMap K V) {start stop : K} :
    (key, value) ∈ map.queryOverlap start stop ↔
      map.find key = some value ∧ key.overlaps start stop = true := by
  rw [queryOverlap, IntervalTree.queryOverlap_eq map.sorted map.bounded, List.mem_filter]
  exact and_congr_left' map.mem_entries

theorem mem_queryContaining (map : IntervalMap K V) {point : K} :
    (key, value) ∈ map.queryContaining point ↔
      map.find key = some value ∧ key.covers point = true := by
  rw [queryContaining, IntervalTree.queryContaining_eq map.sorted map.bounded, List.mem_filter]
  exact and_congr_left' map.mem_entries

end IntervalMap

end MoreConsensus.Library
