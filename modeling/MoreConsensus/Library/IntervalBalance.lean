import MoreConsensus.Library.Intervals

/-!
# Balance of interval trees

Insertion and deletion change the height of a tree by at most one and leave it balanced
(`Balanced.insert`, `Balanced.delete`). The height that a node keeps is its height and the end that
it keeps is the furthest end at or below it (`Exact`), since every node is as `refresh` makes it
(`Fresh`). A balanced tree is low: its size is at least a Fibonacci number of its height
(`Balanced.fib_le`).
-/

set_option autoImplicit false

namespace MoreConsensus.Library.IntervalTree

variable {K V : Type} [LinearOrder K] {left right tree : IntervalTree K V}

/-! ### What nodes keep -/

/-- Every node is as `refresh` makes it. -/
def Fresh : IntervalTree K V → Prop
  | nil => True
  | node left key value right height reach =>
    node left key value right height reach = refresh left key value right ∧ left.Fresh ∧ right.Fresh

theorem hereditary_fresh : Hereditary (Fresh (K := K) (V := V)) where
  nil := trivial
  refresh := fun _ _ _ _ hleft hright ↦ ⟨rfl, hleft, hright⟩
  sides := fun _ _ _ _ _ _ hnode ↦ hnode.2

omit [LinearOrder K] in
/-- The number of nodes on the longest way down. -/
def depth : IntervalTree K V → ℕ
  | nil => 0
  | node left _ _ right _ _ => 1 + max left.depth right.depth

theorem Fresh.height_eq (hfresh : tree.Fresh) : tree.height = tree.depth := by
  induction tree with
  | nil => rfl
  | node left key value right height reach ihLeft ihRight =>
    obtain ⟨hnode, hleft, hright⟩ := hfresh
    calc (node left key value right height reach).height
        = 1 + max left.height right.height := congrArg IntervalTree.height hnode
      _ = 1 + max left.depth right.depth := by rw [ihLeft hleft, ihRight hright]

theorem Fresh.bounded (hfresh : tree.Fresh) : tree.Bounded := by
  induction tree with
  | nil => trivial
  | node left key value right height reach ihLeft ihRight =>
    obtain ⟨hnode, hleft, hright⟩ := hfresh
    rw [hnode]
    exact (ihLeft hleft).refresh (ihRight hright) key value

/-- The furthest of an end and the ends below a tree is that end or the end of an entry. -/
theorem extendReach_eq (hattained : ∀ {left right : IntervalTree K V} {key value height reach},
      tree = node left key value right height reach →
        ∃ entry ∈ tree.toList, entry.1.upper = reach) (reach : K ×ₗ Bool) :
    extendReach reach tree = reach ∨
      ∃ entry ∈ tree.toList, entry.1.upper = extendReach reach tree := by
  cases tree with
  | nil => exact Or.inl rfl
  | node left key value right height below =>
    rw [extendReach]
    split_ifs
    · exact Or.inr (hattained rfl)
    · exact Or.inl rfl

theorem Fresh.exists_reach (hfresh : tree.Fresh) {key : Extent K} {value : V} {height : ℕ}
    {reach : K ×ₗ Bool} (htree : tree = node left key value right height reach) :
    ∃ entry ∈ tree.toList, entry.1.upper = reach := by
  induction tree generalizing left right key value height reach with
  | nil => simp at htree
  | node left other present right height reach ihLeft ihRight =>
    cases htree
    obtain ⟨hnode, hleft, hright⟩ := hfresh
    obtain ⟨-, hreach⟩ : height = 1 + max left.height right.height ∧
        reach = extendReach (extendReach other.upper left) right := by
      simpa [refresh] using hnode
    rw [hreach]
    rcases extendReach_eq (ihRight hright) (extendReach other.upper left) with heq |
      ⟨entry, hin, heq⟩
    · rw [heq]
      rcases extendReach_eq (ihLeft hleft) other.upper with heq | ⟨entry, hin, heq⟩
      · exact ⟨(other, present), by simp [toList], heq.symm⟩
      · exact ⟨entry, by simp [toList, hin], heq⟩
    · exact ⟨entry, by simp [toList, hin], heq⟩

/-- A node keeps the furthest end at or below it. -/
theorem Fresh.isGreatest_reach {key : Extent K} {value : V} {height : ℕ} {reach : K ×ₗ Bool}
    (hfresh : (node left key value right height reach).Fresh) :
    IsGreatest {upper | ∃ entry ∈ (node left key value right height reach).toList,
      entry.1.upper = upper} reach := by
  refine ⟨hfresh.exists_reach rfl, ?_⟩
  rintro upper ⟨entry, hentry, rfl⟩
  exact hfresh.bounded.1 entry hentry

/-- Every node keeps its height and the furthest end at or below it. -/
def Exact : IntervalTree K V → Prop
  | nil => True
  | node left key value right height reach =>
    (height = 1 + max left.depth right.depth ∧
      IsGreatest {upper | ∃ entry ∈ left.toList ++ (key, value) :: right.toList,
        entry.1.upper = upper} reach) ∧ left.Exact ∧ right.Exact

theorem Fresh.exact (hfresh : tree.Fresh) : tree.Exact := by
  induction tree with
  | nil => trivial
  | node left key value right height reach ihLeft ihRight =>
    exact ⟨⟨hfresh.height_eq, hfresh.isGreatest_reach⟩, ihLeft hfresh.2.1, ihRight hfresh.2.2⟩

/-! ### Balance -/

omit [LinearOrder K] in
/-- The sides of every node differ in height by at most one. -/
def Balanced : IntervalTree K V → Prop
  | nil => True
  | node left _ _ right _ _ =>
    (left.depth ≤ right.depth + 1 ∧ right.depth ≤ left.depth + 1) ∧ left.Balanced ∧ right.Balanced

theorem balanced_balance (hleft : left.Balanced) (hright : right.Balanced)
    (hfreshLeft : left.Fresh) (hfreshRight : right.Fresh) (key : Extent K) (value : V)
    (hle : left.depth ≤ right.depth + 2) (hge : right.depth ≤ left.depth + 2) :
    (balance left key value right).Balanced ∧
      max left.depth right.depth ≤ (balance left key value right).depth ∧
      (balance left key value right).depth ≤ 1 + max left.depth right.depth ∧
      (left.depth ≤ right.depth + 1 → right.depth ≤ left.depth + 1 →
        (balance left key value right).depth = 1 + max left.depth right.depth) := by
  unfold balance
  rw [hfreshLeft.height_eq, hfreshRight.height_eq]
  by_cases hheavy : right.depth + 1 < left.depth
  · rw [if_pos hheavy]
    cases left with
    | nil => simp [depth] at hheavy
    | node outer upKey upValue inner _ _ =>
      obtain ⟨-, hfreshOuter, hfreshInner⟩ := hfreshLeft
      obtain ⟨hsides, houter, hinner⟩ := hleft
      simp only [IntervalTree.left, IntervalTree.right, hfreshOuter.height_eq,
        hfreshInner.height_eq]
      by_cases hinnerHigh : outer.depth < inner.depth
      · rw [if_pos hinnerHigh]
        cases inner with
        | nil => simp [depth] at hinnerHigh
        | node below midKey midValue above _ _ =>
          obtain ⟨hmid, hbelow, habove⟩ := hinner
          simp only [rotateLeft, rotateRight, refresh, Balanced, depth] at *
          refine ⟨⟨?_, ⟨?_, houter, hbelow⟩, ?_, habove, hright⟩, ?_⟩ <;> omega
      · rw [if_neg hinnerHigh]
        simp only [rotateRight, refresh, Balanced, depth] at *
        refine ⟨⟨?_, houter, ?_, hinner, hright⟩, ?_⟩ <;> omega
  rw [if_neg hheavy]
  by_cases hlight : left.depth + 1 < right.depth
  · rw [if_pos hlight]
    cases right with
    | nil => simp [depth] at hlight
    | node inner upKey upValue outer _ _ =>
      obtain ⟨-, hfreshInner, hfreshOuter⟩ := hfreshRight
      obtain ⟨hsides, hinner, houter⟩ := hright
      simp only [IntervalTree.left, IntervalTree.right, hfreshOuter.height_eq,
        hfreshInner.height_eq]
      by_cases hinnerHigh : outer.depth < inner.depth
      · rw [if_pos hinnerHigh]
        cases inner with
        | nil => simp [depth] at hinnerHigh
        | node below midKey midValue above _ _ =>
          obtain ⟨hmid, hbelow, habove⟩ := hinner
          simp only [rotateLeft, rotateRight, refresh, Balanced, depth] at *
          refine ⟨⟨?_, ⟨?_, hleft, hbelow⟩, ?_, habove, houter⟩, ?_⟩ <;> omega
      · rw [if_neg hinnerHigh]
        simp only [rotateLeft, refresh, Balanced, depth] at *
        refine ⟨⟨?_, ⟨?_, hleft, hinner⟩, houter⟩, ?_⟩ <;> omega
  · rw [if_neg hlight]
    simp only [refresh, Balanced, depth]
    refine ⟨⟨?_, hleft, hright⟩, ?_, le_rfl, fun _ _ ↦ trivial⟩ <;> omega

theorem Balanced.insert (hbalanced : tree.Balanced) (hfresh : tree.Fresh) (key : Extent K)
    (value : V) : (tree.insert key value).Balanced ∧
      tree.depth ≤ (tree.insert key value).depth ∧
      (tree.insert key value).depth ≤ tree.depth + 1 := by
  induction tree with
  | nil => simp [IntervalTree.insert, refresh, Balanced, depth]
  | node left other present right _ _ ihLeft ihRight =>
    obtain ⟨hsides, hleft, hright⟩ := hbalanced
    obtain ⟨-, hfreshLeft, hfreshRight⟩ := hfresh
    unfold IntervalTree.insert
    split_ifs
    · obtain ⟨hinserted, hlow, hhigh⟩ := ihLeft hleft hfreshLeft
      obtain ⟨hresult, hdepth⟩ := balanced_balance hinserted hright
        (hereditary_fresh.insert hfreshLeft key value) hfreshRight other present
        (by omega) (by omega)
      refine ⟨hresult, ?_⟩
      simp only [depth]
      omega
    · obtain ⟨hinserted, hlow, hhigh⟩ := ihRight hright hfreshRight
      obtain ⟨hresult, hdepth⟩ := balanced_balance hleft hinserted hfreshLeft
        (hereditary_fresh.insert hfreshRight key value) other present (by omega) (by omega)
      refine ⟨hresult, ?_⟩
      simp only [depth]
      omega

omit [LinearOrder K] in
theorem depth_of_least (hleast : tree.least = none) : tree.depth = 0 := by
  cases tree with
  | nil => rfl
  | node left key value right _ _ => simp [least] at hleast

theorem Balanced.delete (hbalanced : tree.Balanced) (hfresh : tree.Fresh) (key : Extent K) :
    (tree.delete key).Balanced ∧ (tree.delete key).depth ≤ tree.depth ∧
      tree.depth ≤ (tree.delete key).depth + 1 := by
  induction tree generalizing key with
  | nil => simp [IntervalTree.delete, Balanced]
  | node left other present right _ _ ihLeft ihRight =>
    obtain ⟨hsides, hleft, hright⟩ := hbalanced
    obtain ⟨-, hfreshLeft, hfreshRight⟩ := hfresh
    -- a node whose right side has lost an entry
    have hshorter : ∀ (next key : Extent K) (value : V),
        (balance left key value (right.delete next)).Balanced ∧
          (balance left key value (right.delete next)).depth ≤ 1 + max left.depth right.depth ∧
          1 + max left.depth right.depth ≤
            (balance left key value (right.delete next)).depth + 1 := by
      intro next key value
      obtain ⟨hdeleted, hlow, hhigh⟩ := ihRight hright hfreshRight next
      obtain ⟨hresult, hdepth⟩ := balanced_balance hleft hdeleted hfreshLeft
        (hereditary_fresh.delete hfreshRight next) key value (by omega) (by omega)
      exact ⟨hresult, by omega⟩
    unfold IntervalTree.delete
    split_ifs with hlt hgt hnone
    · obtain ⟨hdeleted, hlow, hhigh⟩ := ihLeft hleft hfreshLeft key
      obtain ⟨hresult, hdepth⟩ := balanced_balance hdeleted hright
        (hereditary_fresh.delete hfreshLeft key) hfreshRight other present (by omega) (by omega)
      refine ⟨hresult, ?_⟩
      simp only [depth]
      omega
    · exact hshorter key other present
    · have hempty := depth_of_least (Option.isNone_iff_eq_none.mp hnone)
      refine ⟨hright, ?_⟩
      simp only [depth]
      omega
    · cases hleast : right.least with
      | none =>
        have hempty := depth_of_least hleast
        refine ⟨hleft, ?_⟩
        simp only [depth, Option.elim_none]
        omega
      | some next => exact hshorter next.1 next.1 next.2

/-! ### Height and size -/

omit [LinearOrder K] in
/-- A balanced tree of some height has at least as many entries as a Fibonacci number says. -/
theorem Balanced.fib_le (hbalanced : tree.Balanced) :
    Nat.fib (tree.depth + 2) ≤ tree.toList.length + 1 := by
  induction tree with
  | nil => simp [depth]
  | node left key value right _ _ ihLeft ihRight =>
    obtain ⟨hsides, hleft, hright⟩ := hbalanced
    have hlow := ihLeft hleft
    have hhigh := ihRight hright
    have hsum : ∀ {low high : ℕ}, high ≤ low + 1 →
        Nat.fib (1 + high + 2) ≤ Nat.fib (low + 2) + Nat.fib (high + 2) := fun {low high} hle ↦
      calc Nat.fib (1 + high + 2) = Nat.fib (high + 1) + Nat.fib (high + 2) := by
            rw [Nat.add_comm 1 high, Nat.fib_add_two]
        _ ≤ Nat.fib (low + 2) + Nat.fib (high + 2) :=
            Nat.add_le_add_right (Nat.fib_mono (Nat.add_le_add_right hle 1)) _
    simp only [depth, toList, List.length_append, List.length_cons]
    rcases le_total left.depth right.depth with hle | hle
    · rw [max_eq_right hle]
      have hfib := hsum hsides.2
      omega
    · rw [max_eq_left hle]
      have hfib := hsum hsides.1
      omega

omit [LinearOrder K] in
/-- The height of a tree of fewer than `2 ^ 64` entries fits in a signed byte. -/
theorem Balanced.depth_lt (hbalanced : tree.Balanced) (hsize : tree.toList.length < 2 ^ 64) :
    tree.depth < 2 ^ 7 := by
  by_contra hhigh
  have hfib : Nat.fib 130 ≤ Nat.fib (tree.depth + 2) := Nat.fib_mono (by omega)
  have hlarge : 2 ^ 64 < Nat.fib 130 := by norm_num
  have hle := hbalanced.fib_le
  omega

end MoreConsensus.Library.IntervalTree
