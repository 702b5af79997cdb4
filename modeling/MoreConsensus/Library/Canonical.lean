import Mathlib

/-!
# Canonical lists

Sorting by a key that no two members share forgets the order of a list (`insertionSort_eq_of_perm`).
Sorting and dropping repetitions keeps the members and puts them in strict order (`mem_sortedUnion`,
`pairwise_sortedUnion`). A running maximum is the greatest member (`isGreatest_foldl_max`), and a
search in an ordered list finds the first of the members it looks for (`eq_or_rel_of_find?`).
-/

set_option autoImplicit false

namespace MoreConsensus.Library

variable {α κ : Type} [LinearOrder κ]

/-- Lists with the same members sort to the same list when no two members share a key. -/
theorem insertionSort_eq_of_perm (key : α → κ) {l l' : List α} (hkeys : (l.map key).Nodup)
    (hperm : l.Perm l') :
    l.insertionSort (fun a b ↦ key a ≤ key b) = l'.insertionSort fun a b ↦ key a ≤ key b := by
  have : Std.Total fun a b : α ↦ key a ≤ key b := ⟨fun a b ↦ le_total (key a) (key b)⟩
  have : IsTrans α fun a b ↦ key a ≤ key b := ⟨fun _ _ _ ↦ le_trans⟩
  have hsort := List.perm_insertionSort (fun a b : α ↦ key a ≤ key b) l
  have hsort' := List.perm_insertionSort (fun a b : α ↦ key a ≤ key b) l'
  refine List.Perm.eq_of_pairwise (fun a b ha hb hab hba ↦ ?_)
    (List.pairwise_insertionSort _ _) (List.pairwise_insertionSort _ _)
    (hsort.trans (hperm.trans hsort'.symm))
  exact List.inj_on_of_nodup_map hkeys (hsort.mem_iff.mp ha)
    (hperm.mem_iff.mpr (hsort'.mem_iff.mp hb)) (le_antisymm hab hba)

/-- A list in order with its repetitions dropped, as a loop over the sorted list drops them. -/
def sortedUnion (l : List κ) : List κ := (l.insertionSort (· ≤ ·)).destutter (· ≠ ·)

theorem sortedUnion_eq (l : List κ) : sortedUnion l = (l.insertionSort (· ≤ ·)).dedup :=
  (List.pairwise_insertionSort (· ≤ ·) l).destutter_eq_dedup

@[simp]
theorem mem_sortedUnion {l : List κ} {a : κ} : a ∈ sortedUnion l ↔ a ∈ l := by
  rw [sortedUnion_eq, List.mem_dedup, List.mem_insertionSort]

theorem pairwise_sortedUnion (l : List κ) : (sortedUnion l).Pairwise (· < ·) := by
  rw [sortedUnion_eq]
  have hle := (List.pairwise_insertionSort (· ≤ ·) l).sublist (List.dedup_sublist _)
  exact (hle.and (List.nodup_dedup _)).imp fun hboth ↦ lt_of_le_of_ne hboth.1 hboth.2

theorem sortedUnion_sublist (l : List κ) : (sortedUnion l).Sublist (l.insertionSort (· ≤ ·)) :=
  List.destutter_sublist _ _

/-- A list in strict order stays as it is. -/
theorem sortedUnion_of_pairwise {l : List κ} (hl : l.Pairwise (· < ·)) : sortedUnion l = l := by
  rw [sortedUnion_eq, (hl.imp fun hlt ↦ hlt.le).insertionSort_eq, List.dedup_eq_self]
  exact hl.imp fun hlt ↦ hlt.ne

theorem sortedUnion_perm {l l' : List κ} (hperm : l.Perm l') : sortedUnion l = sortedUnion l' := by
  have hsorted : l.insertionSort (· ≤ ·) = l'.insertionSort (· ≤ ·) :=
    List.Perm.eq_of_pairwise (fun _ _ _ _ ↦ le_antisymm) (List.pairwise_insertionSort _ _)
      (List.pairwise_insertionSort _ _)
      ((List.perm_insertionSort _ l).trans (hperm.trans (List.perm_insertionSort _ l').symm))
  rw [sortedUnion, sortedUnion, hsorted]

theorem foldl_max_le_iff {values : List κ} {start limit : κ} :
    values.foldl max start ≤ limit ↔ start ≤ limit ∧ ∀ value ∈ values, value ≤ limit := by
  induction values generalizing start with
  | nil => simp
  | cons value values ih => simp [ih, and_assoc]

/-- The running maximum of a nonempty list of numbers is its greatest member. -/
theorem isGreatest_foldl_max {values : List ℕ} (hne : values ≠ []) :
    IsGreatest {value | value ∈ values} (values.foldl max 0) := by
  cases hmax : values.max? with
  | none => exact absurd (List.max?_eq_none_iff.mp hmax) hne
  | some greatest =>
    obtain ⟨hmem, hle⟩ := List.max?_eq_some_iff.mp hmax
    rw [List.foldl_max, hmax, Option.getD_some, Nat.zero_max]
    exact ⟨hmem, fun value hvalue ↦ hle value hvalue⟩

/-- A search is not changed by passing members that it passes over. -/
theorem find?_dropWhile {l : List α} {p q : α → Bool}
    (hpassed : ∀ a ∈ l, q a = true → p a = false) :
    (l.dropWhile q).find? p = l.find? p := by
  induction l with
  | nil => rfl
  | cons a l ih =>
    obtain ⟨hhead, hrest⟩ := List.forall_mem_cons.mp hpassed
    by_cases hq : q a = true
    · rw [List.dropWhile_cons_of_pos hq, ih hrest, List.find?_cons_of_neg (by simp [hhead hq])]
    · rw [List.dropWhile_cons_of_neg hq]

/-- In an ordered list, passing members that come first leaves the others out. -/
theorem dropWhile_eq_filter {R : α → α → Prop} {l : List α} (hl : l.Pairwise R) {p : α → Bool}
    (hp : ∀ a b, R a b → p b = true → p a = true) : l.dropWhile p = l.filter fun a ↦ !p a := by
  induction l with
  | nil => rfl
  | cons a l ih =>
    obtain ⟨hfirst, hrest⟩ := List.pairwise_cons.mp hl
    by_cases ha : p a = true
    · rw [List.dropWhile_cons_of_pos ha, ih hrest, List.filter_cons_of_neg (by simp [ha])]
    · rw [List.dropWhile_cons_of_neg ha, eq_comm, List.filter_eq_self]
      refine List.forall_mem_cons.mpr ⟨by simpa using ha, fun b hb ↦ ?_⟩
      simpa using fun hpass ↦ ha (hp a b (hfirst b hb) hpass)

/-- In an ordered list, a search finds the first of the members it looks for. -/
theorem eq_or_rel_of_find? {R : α → α → Prop} {l : List α} (hl : l.Pairwise R)
    {p : α → Bool} {a b : α}
    (hfind : l.find? p = some a) (hb : b ∈ l) (hpass : p b = true) : a = b ∨ R a b := by
  induction l with
  | nil => cases hb
  | cons c l ih =>
    obtain ⟨hfirst, hrest⟩ := List.pairwise_cons.mp hl
    by_cases hc : p c = true
    · obtain rfl : c = a := by simpa [List.find?_cons_of_pos hc] using hfind
      exact (List.mem_cons.mp hb).imp Eq.symm (hfirst b)
    · rw [List.find?_cons_of_neg hc] at hfind
      rcases List.mem_cons.mp hb with rfl | hb
      · exact absurd hpass hc
      · exact ih hrest hfind hb

end MoreConsensus.Library
