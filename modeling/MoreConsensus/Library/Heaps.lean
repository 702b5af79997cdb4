import Mathlib

/-!
# Binary heaps

A heap is an array of elements with a comparison, and every store of an element may mark it with its
position. `remove` takes the element at any position out: the last element takes its place and then
sinks or rises. What a sift does is said once, as a permutation of a set of positions (`Moves`);
which elements there are and where they are is read from that, and the order from `Hole`. `Marked`
is a heap whose elements carry their positions.
-/

set_option autoImplicit false

namespace MoreConsensus.Library.Heaps

variable {α β κ : Type}

/-- The position above a position; the root is its own parent. -/
def parent (j : ℕ) : ℕ := (j - 1) / 2

theorem parent_le (j : ℕ) : parent j ≤ j := by unfold parent; omega

theorem iterate_parent_le (m j : ℕ) : parent^[m] j ≤ j := by
  induction m with
  | zero => exact le_rfl
  | succ m ih => exact (Function.iterate_succ_apply' parent m j).symm ▸ (parent_le _).trans ih

/-! ### Operations -/

section Arrays

variable (less : α → α → Bool) (mark : ℕ → α → α)

def swap (heap : ℕ → α) (i j : ℕ) : ℕ → α := fun k ↦
  if k = i then mark i (heap j) else if k = j then mark j (heap i) else heap k

/-- The element at `j` rises. The bound is at least the number of positions above `j`. -/
def up : ℕ → (ℕ → α) → ℕ → ℕ → α
  | 0, heap, _ => heap
  | bound + 1, heap, j =>
    if parent j = j || !less (heap j) (heap (parent j)) then heap
    else up bound (swap mark heap (parent j) j) (parent j)

/-- The lesser child of `i` among the first `n` positions. -/
def child (heap : ℕ → α) (i n : ℕ) : ℕ :=
  if 2 * i + 2 < n && less (heap (2 * i + 2)) (heap (2 * i + 1)) then 2 * i + 2 else 2 * i + 1

/-- The element at `i` sinks among the first `n` positions; its last position is returned. -/
def down : ℕ → (ℕ → α) → ℕ → ℕ → (ℕ → α) × ℕ
  | 0, heap, i, _ => (heap, i)
  | bound + 1, heap, i, n =>
    if n ≤ 2 * i + 1 || !less (heap (child less heap i n)) (heap i) then (heap, i)
    else down bound (swap mark heap i (child less heap i n)) (child less heap i n) n

/-- The `n` elements that are left when the one at `i` is taken out of `n + 1`. -/
def remove (heap : ℕ → α) (n i : ℕ) : ℕ → α :=
  if n = i then heap
  else
    let sunk := down less mark n (swap mark heap i n) i n
    if i < sunk.2 then sunk.1 else up less mark i sunk.1 i

/-! ### Elements on the move -/

/-- One heap comes from another by moving elements among some positions and marking them there. -/
structure Moves (view : α → β) (A : ℕ → Prop) (old new : ℕ → α) : Prop where
  perm : ∃ π : Equiv.Perm ℕ, (∀ k, ¬ A k → π k = k) ∧ ∀ k, view (new k) = view (old (π k))
  marked : ∀ k, new k = old k ∨ ∃ a, new k = mark k a

namespace Moves

variable {mark} {view : α → β} {A B : ℕ → Prop} {first second third : ℕ → α}

theorem refl : Moves mark view A first first :=
  ⟨⟨.refl ℕ, fun _ _ ↦ rfl, fun _ ↦ rfl⟩, fun _ ↦ .inl rfl⟩

theorem trans (hfirst : Moves mark view A first second) (hsecond : Moves mark view A second third) :
    Moves mark view A first third := by
  obtain ⟨π, hfix, hview⟩ := hfirst.perm
  obtain ⟨ρ, hfix', hview'⟩ := hsecond.perm
  refine ⟨⟨ρ.trans π, fun k hk ↦ ?_, fun k ↦ (hview' k).trans (hview _)⟩, fun k ↦ ?_⟩
  · rw [Equiv.trans_apply, hfix' k hk, hfix k hk]
  · rcases hsecond.marked k with hsame | hmark
    · rw [hsame]
      exact hfirst.marked k
    · exact .inr hmark

theorem mono (hmoves : Moves mark view A first second) (hsub : ∀ k, A k → B k) :
    Moves mark view B first second := by
  obtain ⟨π, hfix, hview⟩ := hmoves.perm
  exact ⟨⟨π, fun k hk ↦ hfix k fun hA ↦ hk (hsub k hA), hview⟩, hmoves.marked⟩

/-- The other positions keep their elements, and the moved ones hold elements from among them. -/
theorem entries (hmoves : Moves mark view A first second) (k : ℕ) :
    (¬ A k → view (second k) = view (first k)) ∧
      (A k → ∃ k', A k' ∧ view (second k) = view (first k')) := by
  obtain ⟨π, hfix, hview⟩ := hmoves.perm
  refine ⟨fun hk ↦ by rw [hview, hfix k hk], fun hk ↦ ⟨π k, ?_, hview k⟩⟩
  by_contra hout
  rw [π.injective (hfix _ hout)] at hout
  exact hout hk

/-- Moves among the first positions only reorder them. -/
theorem perm_map (hmoves : Moves mark view A first second) {n : ℕ} (hbound : ∀ k, A k → k < n) :
    ((List.range n).map fun k ↦ view (second k)).Perm
    ((List.range n).map fun k ↦ view (first k)) := by
  obtain ⟨π, hfix, hview⟩ := hmoves.perm
  have hstay : ∀ k, n ≤ k → π k = k := fun k hk ↦ hfix k fun hA ↦ absurd (hbound k hA) hk.not_gt
  have hrange : ((List.range n).map π).Perm (List.range n) := by
    rw [List.perm_ext_iff_of_nodup (List.nodup_range.map π.injective) List.nodup_range]
    intro k
    simp only [List.mem_map, List.mem_range]
    constructor
    · rintro ⟨j, hj, rfl⟩
      by_contra hk
      rw [π.injective (hstay _ (not_lt.mp hk))] at hk
      exact hk hj
    · intro hk
      refine ⟨π.symm k, ?_, π.apply_symm_apply k⟩
      by_contra hj
      have hsame := hstay _ (not_lt.mp hj)
      rw [π.apply_symm_apply] at hsame
      exact hj (hsame ▸ hk)
  simpa only [List.map_map, Function.comp_def, hview] using hrange.map fun k ↦ view (first k)

end Moves

section Sifts

variable {mark} {view : α → β} (hmark : ∀ k a, view (mark k a) = view a) {A : ℕ → Prop}

include hmark

theorem moves_swap (heap : ℕ → α) {i j : ℕ} (hi : A i) (hj : A j) :
    Moves mark view A heap (swap mark heap i j) := by
  refine ⟨⟨Equiv.swap i j, fun k hk ↦ ?_, fun k ↦ ?_⟩, fun k ↦ ?_⟩
  · exact Equiv.swap_apply_of_ne_of_ne (fun heq ↦ hk (heq ▸ hi)) fun heq ↦ hk (heq ▸ hj)
  · rw [Equiv.swap_apply_def, swap]
    split_ifs <;> simp only [hmark]
  · rw [swap]
    split_ifs with hki hkj
    · exact .inr ⟨_, by rw [hki]⟩
    · exact .inr ⟨_, by rw [hkj]⟩
    · exact .inl rfl

/-- An element rises among the positions above it. -/
theorem moves_up (hclosed : ∀ j, A j → A (parent j)) (bound : ℕ) (heap : ℕ → α) (j : ℕ)
    (hj : A j) : Moves mark view A heap (up less mark bound heap j) := by
  induction bound generalizing heap j with
  | zero => exact .refl
  | succ bound ih =>
    unfold up
    split_ifs
    · exact .refl
    · exact (moves_swap hmark heap (hclosed j hj) hj).trans (ih _ _ (hclosed j hj))

/-- An element sinks among the positions below it. -/
theorem moves_down (n bound : ℕ) (heap : ℕ → α) (i : ℕ) (hi : i < n) :
    Moves mark view (fun k ↦ i ≤ k ∧ k < n) heap (down less mark bound heap i n).1 := by
  induction bound generalizing heap i with
  | zero => exact .refl
  | succ bound ih =>
    unfold down
    split_ifs with hstop
    · exact .refl
    · have hchild : i < child less heap i n ∧ child less heap i n < n := by
        simp only [Bool.or_eq_true, decide_eq_true_eq, not_or] at hstop
        unfold child
        split_ifs with hright
        · simp only [Bool.and_eq_true, decide_eq_true_eq] at hright
          omega
        · omega
      exact (moves_swap hmark heap ⟨le_rfl, hi⟩ ⟨hchild.1.le, hchild.2⟩).trans
        ((ih _ _ hchild.2).mono fun k hk ↦ ⟨hchild.1.le.trans hk.1, hk.2⟩)

/-- The last element that takes the place of the removed one moves among the others. -/
theorem moves_remove (heap : ℕ → α) {i n : ℕ} (hi : i < n) :
    Moves mark view (fun k ↦ k < n) (swap mark heap i n) (remove less mark heap n i) := by
  have hdown := (moves_down less hmark n n (swap mark heap i n) i hi).mono
    (B := fun k ↦ k < n) fun _ ↦ And.right
  unfold remove
  rw [if_neg hi.ne']
  dsimp only
  split_ifs
  · exact hdown
  · exact hdown.trans (moves_up less hmark (fun j hj ↦ (parent_le j).trans_lt hj) i _ i hi)

/-- A removal moves the removed element to the last position. -/
theorem moves_remove_all (heap : ℕ → α) {i n : ℕ} (hi : i ≤ n) :
    Moves mark view (fun k ↦ k < n + 1) heap (remove less mark heap n i) ∧
      view (remove less mark heap n i n) = view (heap i) := by
  rcases Nat.lt_or_eq_of_le hi with hlt | rfl
  · have hmoves := moves_remove less hmark heap hlt
    refine ⟨(moves_swap hmark heap (A := fun k ↦ k < n + 1) (Nat.lt_succ_of_lt hlt)
      (Nat.lt_succ_self n)).trans (hmoves.mono fun k hk ↦ Nat.lt_succ_of_lt hk), ?_⟩
    rw [(hmoves.entries n).1 (lt_irrefl n), swap, if_neg hlt.ne', if_pos rfl, hmark]
  · rw [remove, if_pos rfl]
    exact ⟨.refl, rfl⟩

end Sifts

/-! ### The order of a heap -/

section Order

variable [LinearOrder κ] {rank rank' : ℕ → κ} {n i j c : ℕ}

/-- No element among the first `n` positions is below its parent. -/
def Ordered (rank : ℕ → κ) (n : ℕ) : Prop := ∀ k < n, rank (parent k) ≤ rank k

/-- The order but for the element at `i`: the elements below `i` are not below its parent. -/
structure Hole (rank : ℕ → κ) (n i : ℕ) : Prop where
  off : ∀ k < n, k ≠ i → parent k ≠ i → rank (parent k) ≤ rank k
  across : parent i ≠ i → ∀ k < n, parent k = i → rank (parent i) ≤ rank k

/-- A hole is closed by an element that is between its neighbours. -/
theorem Hole.ordered (hhole : Hole rank n j) (habove : rank (parent j) ≤ rank j)
    (hbelow : ∀ k < n, k ≠ j → parent k = j → rank j ≤ rank k) : Ordered rank n := by
  intro k hk
  by_cases hkj : k = j
  · exact hkj ▸ habove
  by_cases hparent : parent k = j
  · exact hparent ▸ hbelow k hk hkj hparent
  · exact hhole.off k hk hkj hparent

/-- A hole moves up with an element that is below the parent. -/
theorem Hole.rise (hhole : Hole rank n j) (hj : j < n) (hne : parent j ≠ j)
    (hless : rank j < rank (parent j))
    (hswap : ∀ k, rank' k =
      if k = parent j then rank j else if k = j then rank (parent j) else rank k) :
    Hole rank' n (parent j) ∧
      ∀ k < n, k ≠ parent j → parent k = parent j → rank' (parent j) ≤ rank' k := by
  have hup := parent_le j
  have hup' := parent_le (parent j)
  have hoff := hhole.off
  have hacross := hhole.across
  have hroot : ∀ k, parent k = k → k = 0 := fun k hk ↦ by unfold parent at hk; omega
  refine ⟨⟨?_, ?_⟩, ?_⟩ <;> grind

/-- A hole moves down to its least child with an element that is above that one. -/
theorem Hole.sink (hhole : Hole rank n i) (hchild : parent c = i) (hne : c ≠ i)
    (hleast : ∀ k < n, k ≠ i → parent k = i → rank c ≤ rank k) (hc : c < n)
    (hless : rank c < rank i)
    (hswap : ∀ k, rank' k = if k = i then rank c else if k = c then rank i else rank k) :
    Hole rank' n c ∧ rank' (parent c) ≤ rank' c := by
  have hup := parent_le i
  have hup' := parent_le c
  have hoff := hhole.off
  have hacross := hhole.across
  have hroot : ∀ k, parent k = k → k = 0 := fun k hk ↦ by unfold parent at hk; omega
  refine ⟨⟨?_, ?_⟩, ?_⟩ <;> grind [parent_le]

end Order

section Lawful

variable {less} {mark} {rank : α → κ}

theorem rank_swap (hmark : ∀ k a, rank (mark k a) = rank a) (heap : ℕ → α) (i j k : ℕ) :
    rank (swap mark heap i j k) = if k = i then rank (heap j) else if k = j then rank (heap i)
      else rank (heap k) := by
  rw [swap]
  split_ifs <;> simp only [hmark]

variable [LinearOrder κ]

/-- The lesser child is a child, and no child is below it. -/
theorem child_least (hless : ∀ a b, less a b = true ↔ rank a < rank b) (heap : ℕ → α) {i n : ℕ}
    (hleft : 2 * i + 1 < n) :
    parent (child less heap i n) = i ∧ i < child less heap i n ∧ child less heap i n < n ∧
      ∀ k < n, k ≠ i → parent k = i → rank (heap (child less heap i n)) ≤ rank (heap k) := by
  have hchildren : ∀ k, k ≠ i → parent k = i → k = 2 * i + 1 ∨ k = 2 * i + 2 := by
    unfold parent
    omega
  unfold child
  split_ifs with hright <;> simp only [Bool.and_eq_true, decide_eq_true_eq, hless] at hright
  · refine ⟨by unfold parent; omega, by omega, hright.1, fun k _ hk hparent ↦ ?_⟩
    rcases hchildren k hk hparent with rfl | rfl
    · exact hright.2.le
    · exact le_rfl
  · refine ⟨by unfold parent; omega, by omega, hleft, fun k hkn hk hparent ↦ ?_⟩
    rcases hchildren k hk hparent with rfl | rfl
    · exact le_rfl
    · exact not_lt.mp fun hlt ↦ hright ⟨hkn, hlt⟩

variable (hless : ∀ a b, less a b = true ↔ rank a < rank b)
  (hmark : ∀ k a, rank (mark k a) = rank a)

include hless hmark

/-- An element that is not above the elements below it rises to where it is in order. -/
theorem ordered_up (bound : ℕ) (heap : ℕ → α) {n j : ℕ} (hj : j < n) (hbound : j ≤ bound)
    (hhole : Hole (fun k ↦ rank (heap k)) n j)
    (hbelow : ∀ k < n, k ≠ j → parent k = j → rank (heap j) ≤ rank (heap k)) :
    Ordered (fun k ↦ rank (up less mark bound heap j k)) n := by
  induction bound generalizing heap j with
  | zero =>
    obtain rfl := Nat.le_zero.mp hbound
    exact hhole.ordered le_rfl hbelow
  | succ bound ih =>
    unfold up
    split_ifs with hstop
    · refine hhole.ordered ?_ hbelow
      simp only [Bool.or_eq_true, decide_eq_true_eq, Bool.not_eq_true', ← Bool.not_eq_true, hless,
        not_lt] at hstop
      rcases hstop with hroot | hle
      · rw [hroot]
      · exact hle
    · simp only [Bool.or_eq_true, decide_eq_true_eq, Bool.not_eq_true', not_or,
        Bool.not_eq_false, hless] at hstop
      have hup := parent_le j
      obtain ⟨hhole', hbelow'⟩ := hhole.rise hj hstop.1 hstop.2 (rank_swap hmark heap (parent j) j)
      exact ih _ (by omega) (by omega) hhole' hbelow'

/-- An element that fills a hole stays where it is, not above its children, or it sinks to where it
is in order. -/
theorem down_cases (bound : ℕ) (heap : ℕ → α) {n i : ℕ} (hbound : n ≤ bound + i) (hi : i < n)
    (hhole : Hole (fun k ↦ rank (heap k)) n i) :
    (down less mark bound heap i n = (heap, i) ∧
        ∀ k < n, k ≠ i → parent k = i → rank (heap i) ≤ rank (heap k)) ∨
      i < (down less mark bound heap i n).2 ∧
        Ordered (fun k ↦ rank ((down less mark bound heap i n).1 k)) n := by
  induction bound generalizing heap i with
  | zero => omega
  | succ bound ih =>
    unfold down
    by_cases hleft : n ≤ 2 * i + 1
    · refine .inl ⟨by simp [hleft], fun k hk hne hparent ↦ ?_⟩
      unfold parent at hparent
      omega
    obtain ⟨hparent, hbelow, hc, hleast⟩ := child_least hless heap (not_le.mp hleft)
    by_cases hstop : rank (heap (child less heap i n)) < rank (heap i)
    · obtain ⟨hhole', habove⟩ := hhole.sink hparent hbelow.ne' hleast hc hstop
        (rank_swap hmark heap i (child less heap i n))
      simp only [hleft, (hless _ _).mpr hstop, decide_false, Bool.not_true, Bool.or_self,
        Bool.false_eq_true, if_false]
      rcases ih _ (by omega) hc hhole' with ⟨hstay, hchildren⟩ | ⟨hmoved, hordered⟩
      · rw [hstay]
        exact .inr ⟨hbelow, hhole'.ordered habove hchildren⟩
      · exact .inr ⟨hbelow.trans hmoved, hordered⟩
    · have hnot : less (heap (child less heap i n)) (heap i) = false := by
        rwa [← Bool.not_eq_true, hless]
      refine .inl ⟨by simp [hnot], fun k hk hne hparent ↦ ?_⟩
      exact (not_lt.mp hstop).trans (hleast k hk hne hparent)

/-- After a removal the heap is in order: the last element has sunk from the place of the removed
one, or has risen from there. -/
theorem remove_cases (heap : ℕ → α) {i n : ℕ} (hi : i < n)
    (hordered : Ordered (fun k ↦ rank (heap k)) (n + 1)) :
    (remove less mark heap n i = (down less mark n (swap mark heap i n) i n).1 ∨
      remove less mark heap n i = up less mark i (swap mark heap i n) i) ∧
      Ordered (fun k ↦ rank (remove less mark heap n i k)) n := by
  have hswap : ∀ k < n, k ≠ i → rank (swap mark heap i n k) = rank (heap k) := fun k hk hne ↦ by
    rw [rank_swap hmark, if_neg hne, if_neg hk.ne]
  have hup := parent_le i
  have hhole : Hole (fun k ↦ rank (swap mark heap i n k)) n i := by
    refine ⟨fun k hk hne hparent ↦ ?_, fun hroot k hk hparent ↦ ?_⟩
    · rw [hswap k hk hne, hswap (parent k) ((parent_le k).trans_lt hk) hparent]
      exact hordered k (Nat.lt_succ_of_lt hk)
    · have hne : k ≠ i := fun heq ↦ hroot (heq ▸ hparent)
      rw [hswap k hk hne, hswap (parent i) (by omega) hroot]
      calc rank (heap (parent i)) ≤ rank (heap i) := hordered i (by omega)
        _ = rank (heap (parent k)) := by rw [hparent]
        _ ≤ rank (heap k) := hordered k (by omega)
  unfold remove
  rw [if_neg hi.ne']
  rcases down_cases hless hmark n (swap mark heap i n) (by omega) hi hhole with
    ⟨hstay, hbelow⟩ | ⟨hmoved, hsunk⟩
  · rw [hstay, if_neg (lt_irrefl i)]
    exact ⟨.inr rfl, ordered_up hless hmark i _ hi le_rfl hhole hbelow⟩
  · rw [if_pos hmoved]
    exact ⟨.inl rfl, hsunk⟩

end Lawful

end Arrays

/-! ### Heaps whose elements carry their positions -/

/-- An array of elements, each with the position that was last stored with it. -/
structure Marked (α : Type) where
  len : ℕ
  slot : ℕ → α × ℕ

namespace Marked

/-- A store at a position records it. -/
def mark (k : ℕ) (entry : α × ℕ) : α × ℕ := (entry.1, k)

/-- The element at a position is taken out, and the last position is dropped. -/
def remove (less : α → α → Bool) (heap : Marked α) (i : ℕ) : Marked α :=
  ⟨heap.len - 1, Heaps.remove (fun a b ↦ less a.1 b.1) mark heap.slot (heap.len - 1) i⟩

/-- A new element rises from behind the last position. -/
def push (less : α → α → Bool) (heap : Marked α) (a : α) : Marked α :=
  ⟨heap.len + 1, up (fun a b ↦ less a.1 b.1) mark heap.len
    (fun k ↦ if k = heap.len then (a, k) else heap.slot k) heap.len⟩

def values (heap : Marked α) : List α := (List.range heap.len).map fun k ↦ (heap.slot k).1

theorem mem_values {heap : Marked α} {a : α} :
    a ∈ heap.values ↔ ∃ k < heap.len, (heap.slot k).1 = a := by
  simp [values]

/-- A heap in order, whose elements carry their positions. -/
structure Valid [LinearOrder κ] (rank : α → κ) (heap : Marked α) : Prop where
  ordered : Ordered (fun k ↦ rank (heap.slot k).1) heap.len
  indexed : ∀ k < heap.len, (heap.slot k).2 = k

theorem fst_mark (k : ℕ) (entry : α × ℕ) : (mark k entry).1 = entry.1 := rfl

theorem rank_mark (rank : α → κ) (k : ℕ) (entry : α × ℕ) :
    (rank ∘ Prod.fst) (mark k entry) = (rank ∘ Prod.fst) entry := rfl

theorem indexed_of_moves {A : ℕ → Prop} {first second : ℕ → α × ℕ} {n : ℕ}
    (hmoves : Moves mark Prod.fst A first second) (hfirst : ∀ k < n, (first k).2 = k) :
    ∀ k < n, (second k).2 = k := by
  intro k hk
  rcases hmoves.marked k with hsame | ⟨entry, hmarked⟩
  · rw [hsame]
    exact hfirst k hk
  · rw [hmarked, mark]

variable [LinearOrder κ] {less : α → α → Bool} {rank : α → κ} {heap : Marked α} {i : ℕ}

/-- A removal takes out the element at the position. -/
theorem perm_remove (hi : i < heap.len) :
    heap.values.Perm ((heap.slot i).1 :: (heap.remove less i).values) := by
  obtain ⟨len, slot⟩ := heap
  obtain ⟨n, rfl⟩ := Nat.exists_eq_succ_of_ne_zero (Nat.ne_zero_of_lt hi)
  obtain ⟨hmoves, hlast⟩ := moves_remove_all (fun a b ↦ less a.1 b.1) fst_mark slot
    (Nat.lt_succ_iff.mp hi)
  refine (hmoves.perm_map fun _ hk ↦ hk).symm.trans ?_
  rw [List.range_succ, List.map_append, List.map_singleton, hlast]
  exact List.perm_append_singleton _ _

theorem Valid.remove (hless : ∀ a b, less a b = true ↔ rank a < rank b) (hvalid : heap.Valid rank)
    (hi : i < heap.len) : (heap.remove less i).Valid rank := by
  obtain ⟨len, slot⟩ := heap
  obtain ⟨n, rfl⟩ := Nat.exists_eq_succ_of_ne_zero (Nat.ne_zero_of_lt hi)
  have hin := Nat.lt_succ_iff.mp hi
  refine ⟨?_, fun k hk ↦ indexed_of_moves (moves_remove_all _ fst_mark slot hin).1 hvalid.indexed k
    (Nat.lt_succ_of_lt hk)⟩
  rcases Nat.lt_or_eq_of_le hin with hlt | rfl
  · exact (remove_cases (fun a b ↦ hless a.1 b.1) (rank_mark rank) slot hlt hvalid.ordered).2
  · have hsame : (Marked.remove less ⟨i + 1, slot⟩ i).slot = slot := if_pos rfl
    rw [hsame]
    exact fun k hk ↦ hvalid.ordered k (Nat.lt_succ_of_lt hk)

/-- An element rises past greater ones only, and these are what other positions get. -/
theorem up_entries (less : α → α → Bool) (bound : ℕ) (slot : ℕ → α × ℕ) (j k : ℕ) :
    (k ≠ j → less (slot j).1 (slot k).1 = false →
        (up (fun a b ↦ less a.1 b.1) mark bound slot j k).1 = (slot k).1) ∧
      ((up (fun a b ↦ less a.1 b.1) mark bound slot j k).1 = (slot k).1 ∨
        (up (fun a b ↦ less a.1 b.1) mark bound slot j k).1 = (slot j).1 ∨
        less (slot j).1 (up (fun a b ↦ less a.1 b.1) mark bound slot j k).1 = true) := by
  induction bound generalizing slot j with
  | zero => exact ⟨fun _ _ ↦ rfl, .inl rfl⟩
  | succ bound ih =>
    unfold up
    split_ifs with hstop
    · exact ⟨fun _ _ ↦ rfl, .inl rfl⟩
    simp only [Bool.or_eq_true, decide_eq_true_eq, Bool.not_eq_true', not_or,
      Bool.not_eq_false] at hstop
    obtain ⟨hne, hless⟩ := hstop
    have hswap : ∀ k, (swap mark slot (parent j) j k).1 = if k = parent j then (slot j).1
        else if k = j then (slot (parent j)).1 else (slot k).1 := fun k ↦ by
      rw [swap]
      split_ifs <;> rfl
    obtain ⟨hstay, hentry⟩ := ih (swap mark slot (parent j) j) (parent j)
    rw [hswap (parent j), if_pos rfl, hswap k] at hstay hentry
    refine ⟨fun hk hnot ↦ ?_, ?_⟩
    · have hk' : k ≠ parent j := fun heq ↦ by simp [heq, hless] at hnot
      rw [if_neg hk', if_neg hk] at hstay
      exact hstay hk' hnot
    · split_ifs at hentry with hroot hold
      · exact .inr (hentry.elim .inl id)
      · exact .inr (hentry.elim (fun heq ↦ .inr (by rw [heq]; exact hless)) id)
      · exact hentry

theorem moves_push (heap : Marked α) (a : α) : Moves mark Prod.fst (fun k ↦ k < heap.len + 1)
    (fun k ↦ if k = heap.len then (a, k) else heap.slot k) (heap.push less a).slot :=
  moves_up _ fst_mark (fun j hj ↦ (parent_le j).trans_lt hj) _ _ _ (Nat.lt_succ_self _)

/-- A new element joins the others. -/
theorem perm_push (heap : Marked α) (a : α) :
    (heap.push less a).values.Perm (a :: heap.values) := by
  refine ((moves_push heap a).perm_map fun _ hk ↦ hk).trans ?_
  rw [List.range_succ, List.map_append, List.map_singleton, if_pos rfl]
  refine (List.perm_append_singleton _ _).trans (.of_eq (congrArg _ (List.map_congr_left ?_)))
  exact fun k hk ↦ by rw [if_neg (List.mem_range.mp hk).ne]

theorem Valid.push (hless : ∀ a b, less a b = true ↔ rank a < rank b) (hvalid : heap.Valid rank)
    (a : α) : (heap.push less a).Valid rank := by
  have hslot : ∀ k, k < heap.len + 1 → k ≠ heap.len → k < heap.len := by omega
  refine ⟨ordered_up (fun a b ↦ hless (Prod.fst a) (Prod.fst b)) (rank_mark rank) _ _
    (Nat.lt_succ_self _) le_rfl
    ⟨fun k hk hne hparent ↦ ?_, fun hroot k hk hparent ↦ ?_⟩ fun k hk hne hparent ↦ ?_,
    indexed_of_moves (moves_push heap a) fun k hk ↦ ?_⟩
  · simp only [if_neg hne, if_neg hparent]
    exact hvalid.ordered k (hslot k hk hne)
  · -- nothing is below the last position
    have hk' : k ≠ heap.len := fun heq ↦ hroot (heq ▸ hparent)
    exact absurd (hparent ▸ parent_le k) (hslot k hk hk').not_ge
  · exact absurd (hparent ▸ parent_le k) (hslot k hk hne).not_ge
  · split_ifs with heq
    · rfl
    · exact hvalid.indexed k (hslot k hk heq)

/-- No element is below the one at the root. -/
theorem Valid.root_le (hvalid : heap.Valid rank) {k : ℕ} (hk : k < heap.len) :
    rank (heap.slot 0).1 ≤ rank (heap.slot k).1 := by
  induction k using Nat.strong_induction_on with
  | h k ih =>
    by_cases hzero : k = 0
    · rw [hzero]
    · have hup : parent k < k := by unfold parent; omega
      exact (ih _ hup (hup.trans hk)).trans (hvalid.ordered k hk)

end Marked

end MoreConsensus.Library.Heaps
