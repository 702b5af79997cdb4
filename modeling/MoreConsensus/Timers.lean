import MoreConsensus.Library.Heaps
import MoreConsensus.Node

/-!
# The timer heap

The timers of a node are a binary heap in an array, each with its position (`timerHeap` in
`epaxos/node.go`, over `container/heap`). Cancelling the timers of an instance scans the array from
its end and removes what it finds. The heap stays valid and no other timer is lost
(`cancelFrom_keeps`), but a removal may raise an element past a timer that was not examined yet and
so push it to a position that was. The scan is complete when no timer of another instance that is
behind one of the instance is due before one of the instance above that (`Undisturbed`): then it
moves none of the timers it looks for. The node is modelled with a list of the timers that were not
cancelled: a timer that the scan missed has an old generation, and firing skips it.
-/

set_option autoImplicit false

namespace MoreConsensus

open Library.Heaps

abbrev TimerHeap := Marked Timer

namespace TimerHeap

/-- The scan of the positions below a bound, from the last one down. -/
def cancelFrom (ref : InstanceRef) : ℕ → TimerHeap → TimerHeap
  | 0, heap => heap
  | i + 1, heap =>
    cancelFrom ref i (if (heap.slot i).1.ref = ref then heap.remove Timer.less i else heap)

def cancelTimersForRef (heap : TimerHeap) (ref : InstanceRef) : TimerHeap :=
  cancelFrom ref heap.len heap

/-! ### The order of timers -/

def key (timer : Timer) : ℕ ×ₗ InstanceRef ×ₗ ℕ ×ₗ ℕ :=
  toLex (timer.deadline, toLex (timer.ref, toLex (timer.kind.rank, timer.gen)))

theorem less_iff_key (first second : Timer) :
    first.less second = true ↔ key first < key second := by
  have hkind : first.kind.rank = second.kind.rank ↔ first.kind = second.kind := by
    cases first.kind <;> cases second.kind <;> decide
  simp only [key, Prod.Lex.toLex_lt_toLex, Timer.less, hkind]
  split_ifs <;> simp_all

theorem not_less_iff_key (first second : Timer) :
    first.less second = false ↔ key second ≤ key first := by
  rw [← Bool.not_eq_true, less_iff_key, not_lt]

/-! ### One removal -/

variable {heap : TimerHeap} {ref : InstanceRef} {i : ℕ}

/-- Whether a position holds a timer of an instance. -/
def Holds (heap : TimerHeap) (ref : InstanceRef) (k : ℕ) : Prop := (heap.slot k).1.ref = ref

/-- No timer of another instance that is behind position `k` is due before a timer of the instance
above `k`. -/
def UndisturbedAt (heap : TimerHeap) (ref : InstanceRef) (k : ℕ) : Prop :=
  ∀ m, heap.Holds ref (parent^[m] k) → parent^[m] k ≠ k →
    ∀ j < heap.len, k < j → ¬ heap.Holds ref j →
      (heap.slot j).1.less (heap.slot (parent^[m] k)).1 = false

/-- What a removal at position `i` puts at a position: what was there, unless that is `i`, or a
timer of another instance that was behind `i` or is due after one that was. The other timers of the
instance stay where they are. -/
def ReplacedAt (heap after : TimerHeap) (ref : InstanceRef) (i k : ℕ) : Prop :=
  (after.slot k).1 = (heap.slot k).1 ∧ k ≠ i ∨
    (¬ after.Holds ref k ∧ (k = i ∨ ¬ heap.Holds ref k)) ∧
      ∃ j < heap.len, i < j ∧ key (heap.slot j).1 ≤ key (after.slot k).1

section Last

variable {slot after : ℕ → Timer × ℕ} {n k : ℕ} (hlt : i < n) (hk : k < n)

theorem fst_swap_last {k : ℕ} (hk : k < n) : (swap Marked.mark slot i n k).1 =
    if k = i then (slot n).1 else (slot k).1 := by
  rw [swap]
  split_ifs with hki hkn
  · rfl
  · exact absurd hkn hk.ne
  · rfl

include hlt hk

/-- The last timer sinks: only positions from `i` on change. -/
theorem replacedAt_of_sunk
    (hsunk : after = (down (fun a b ↦ a.1.less b.1) Marked.mark n
      (swap Marked.mark slot i n) i n).1)
    (hlast : ∀ k < n + 1, i < k → ¬ Holds ⟨n + 1, slot⟩ ref k) :
    ReplacedAt ⟨n + 1, slot⟩ ⟨n, after⟩ ref i k := by
  have hentries := (moves_down (fun a b : Timer × ℕ ↦ a.1.less b.1) Marked.fst_mark n n
    (swap Marked.mark slot i n) i hlt).entries k
  rw [← hsunk] at hentries
  by_cases hki : i ≤ k
  · obtain ⟨k', ⟨hk', hk'n⟩, hentry⟩ := hentries.2 ⟨hki, hk⟩
    rw [fst_swap_last hk'n] at hentry
    obtain ⟨j, hj, hij, hentry⟩ : ∃ j < n + 1, i < j ∧ (after k).1 = (slot j).1 := by
      split_ifs at hentry with hk'i
      · exact ⟨n, Nat.lt_succ_self n, hlt, hentry⟩
      · exact ⟨k', Nat.lt_succ_of_lt hk'n, lt_of_le_of_ne hk' (Ne.symm hk'i), hentry⟩
    refine .inr ⟨⟨fun hholds ↦ hlast j hj hij ?_, ?_⟩, j, hj, hij, (congrArg key hentry).ge⟩
    · exact (congrArg Timer.ref hentry).symm.trans hholds
    · rcases Nat.lt_or_eq_of_le hki with hlater | rfl
      · exact .inr (hlast k (Nat.lt_succ_of_lt hk) hlater)
      · exact .inl rfl
  · have hne : k ≠ i := fun heq ↦ hki heq.ge
    exact .inl ⟨(hentries.1 fun hin ↦ hki hin.1).trans ((fst_swap_last hk).trans (if_neg hne)), hne⟩

/-- The last timer rises along the path to the root, past later ones only. -/
theorem replacedAt_of_risen
    (hrisen : after = up (fun a b ↦ a.1.less b.1) Marked.mark i (swap Marked.mark slot i n) i)
    (hbehind : ¬ Holds ⟨n + 1, slot⟩ ref n) (hclear : UndisturbedAt ⟨n + 1, slot⟩ ref i) :
    ReplacedAt ⟨n + 1, slot⟩ ⟨n, after⟩ ref i k := by
  have hpath := (moves_up (fun a b : Timer × ℕ ↦ a.1.less b.1) Marked.fst_mark
    (A := fun k ↦ ∃ m, parent^[m] i = k)
    (fun _ ↦ Exists.imp' Nat.succ fun m hm ↦ by rw [Function.iterate_succ_apply', hm]) i
    (swap Marked.mark slot i n) i ⟨0, rfl⟩).entries k
  obtain ⟨hstay, hcases⟩ := Marked.up_entries Timer.less i (swap Marked.mark slot i n) i k
  rw [← hrisen] at hpath hstay hcases
  rw [fst_swap_last hlt, if_pos rfl, fst_swap_last hk] at hstay hcases
  -- a timer of the instance above is not later than the last one, so it is not passed
  have hnotLess : ∀ m, Holds ⟨n + 1, slot⟩ ref (parent^[m] i) → parent^[m] i ≠ i →
      (slot n).1.less (slot (parent^[m] i)).1 = false := fun m hholds hne ↦
    hclear m hholds hne n (Nat.lt_succ_self n) hlt hbehind
  by_cases habove : ∃ m, parent^[m] i = k
  swap
  · have hne : k ≠ i := fun heq ↦ habove ⟨0, heq.symm⟩
    exact .inl ⟨(hpath.1 habove).trans ((fst_swap_last hk).trans (if_neg hne)), hne⟩
  by_cases hmine : k ≠ i ∧ Holds ⟨n + 1, slot⟩ ref k
  · obtain ⟨hne, hholds⟩ := hmine
    obtain ⟨m, rfl⟩ := habove
    rw [if_neg hne] at hstay
    exact .inl ⟨hstay hne (hnotLess m hholds hne), hne⟩
  have hcase : (after k).1 = (slot k).1 ∧ k ≠ i ∨ (after k).1 = (slot n).1 ∨
      (slot n).1.less (after k).1 = true := by
    rcases hcases with hsame | hcase
    · split_ifs at hsame with hki
      · exact .inr (.inl hsame)
      · exact .inl ⟨hsame, hki⟩
    · exact .inr hcase
  refine hcase.imp_right fun hcase ↦ ⟨⟨fun hholds ↦ ?_, ?_⟩, n, Nat.lt_succ_self n, hlt, ?_⟩
  · obtain ⟨k', ⟨m, rfl⟩, hsource⟩ := hpath.2 habove
    rw [fst_swap_last ((iterate_parent_le m i).trans_lt hlt)] at hsource
    split_ifs at hsource with hk'i
    · exact hbehind ((congrArg Timer.ref hsource).symm.trans hholds)
    · rcases hcase with heq | hless
      · exact hbehind ((congrArg Timer.ref heq).symm.trans hholds)
      · rw [hsource, hnotLess m ((congrArg Timer.ref hsource).symm.trans hholds) hk'i] at hless
        cases hless
  · by_cases hki : k = i
    · exact .inl hki
    · exact .inr fun hholds ↦ hmine ⟨hki, hholds⟩
  · exact hcase.elim (fun heq ↦ (congrArg key heq).ge) fun hless ↦ ((less_iff_key _ _).mp hless).le

end Last

/-- A removal of the last timer of an instance leaves its timers above where they are. Assumes:
nothing behind is due before these. -/
theorem remove_entries (hvalid : heap.Valid key)
    (hlast : ∀ k < heap.len, i < k → ¬ heap.Holds ref k) (hclear : heap.UndisturbedAt ref i) {k : ℕ}
    (hi : i < heap.len) (hk : k < heap.len - 1) :
    heap.ReplacedAt (heap.remove Timer.less i) ref i k := by
  obtain ⟨len, slot⟩ := heap
  obtain ⟨n, rfl⟩ := Nat.exists_eq_succ_of_ne_zero (Nat.ne_zero_of_lt hi)
  rcases Nat.lt_or_eq_of_le (Nat.lt_succ_iff.mp hi) with hlt | rfl
  · rcases (remove_cases (fun a b ↦ less_iff_key a.1 b.1) (Marked.rank_mark key) slot hlt
      hvalid.ordered).1 with hsunk | hrisen
    · exact replacedAt_of_sunk hlt hk hsunk hlast
    · exact replacedAt_of_risen hlt hk hrisen (hlast n (Nat.lt_succ_self n) hlt) hclear
  · have hsame : (Marked.remove Timer.less ⟨i + 1, slot⟩ i).slot = slot := if_pos rfl
    exact .inl ⟨by rw [hsame], Nat.ne_of_lt hk⟩

/-! ### The scan -/

/-- The scan keeps the heap valid and loses no timer of another instance. -/
theorem cancelFrom_keeps (ref : InstanceRef) (i : ℕ) {heap : TimerHeap} (hi : i ≤ heap.len)
    (hvalid : heap.Valid key) :
    (cancelFrom ref i heap).Valid key ∧
      ((cancelFrom ref i heap).values.filter fun timer ↦ timer.ref != ref).Perm
        (heap.values.filter fun timer ↦ timer.ref != ref) := by
  induction i generalizing heap with
  | zero => exact ⟨hvalid, .refl _⟩
  | succ i ih =>
    unfold cancelFrom
    split_ifs with hfound
    · obtain ⟨hlast, hrest⟩ := ih (Nat.le_sub_one_of_lt hi) (hvalid.remove less_iff_key hi)
      refine ⟨hlast, hrest.trans ?_⟩
      have hperm : heap.values.Perm (_ :: (heap.remove Timer.less i).values) :=
        Marked.perm_remove hi
      have hothers := hperm.filter fun timer ↦ timer.ref != ref
      rw [List.filter_cons_of_neg (by simpa using hfound)] at hothers
      exact hothers.symm
    · exact ih (Nat.le_of_succ_le hi) hvalid

/-- The scan finds all timers of an undisturbed instance. -/
theorem cancelFrom_complete (ref : InstanceRef) (i : ℕ) {heap : TimerHeap} (hi : i ≤ heap.len)
    (hvalid : heap.Valid key) (hdone : ∀ k < heap.len, i ≤ k → ¬ heap.Holds ref k)
    (hclear : ∀ k < i, heap.Holds ref k → heap.UndisturbedAt ref k) :
    ∀ k < (cancelFrom ref i heap).len, ¬ (cancelFrom ref i heap).Holds ref k := by
  induction i generalizing heap with
  | zero => exact fun k hk ↦ hdone k hk (Nat.zero_le k)
  | succ i ih =>
    unfold cancelFrom
    split_ifs with hfound
    · have hentries := fun {k} hk ↦ remove_entries (k := k) hvalid hdone
        (hclear i (Nat.lt_succ_self i) hfound) hi hk
      have hheld : ∀ {k}, k < heap.len - 1 → Holds (heap.remove Timer.less i) ref k →
          ((heap.remove Timer.less i).slot k).1 = (heap.slot k).1 ∧ k ≠ i ∧ heap.Holds ref k := by
        intro k hk hholds
        rcases hentries hk with ⟨hsame, hne⟩ | ⟨⟨hnot, -⟩, -⟩
        · exact ⟨hsame, hne, (congrArg Timer.ref hsame).symm.trans hholds⟩
        · exact absurd hholds hnot
      refine ih (Nat.le_sub_one_of_lt hi) (hvalid.remove less_iff_key hi) (fun k hk hik hholds ↦ ?_)
        fun k hk hholds m habove hne j hj hkj hnot ↦ ?_
      · obtain ⟨-, hne, hold⟩ := hheld hk hholds
        exact hdone k (hk.trans_le (Nat.sub_le ..)) (lt_of_le_of_ne hik hne.symm) hold
      · have hlt : k < heap.len - 1 := hkj.trans hj
        obtain ⟨hsame, -, hold⟩ := hheld ((iterate_parent_le m k).trans_lt hlt) habove
        have hbefore := hclear k (Nat.lt_succ_of_lt hk) (hheld hlt hholds).2.2 m hold hne
        rw [hsame, not_less_iff_key]
        rcases hentries hj with ⟨hkept, -⟩ | ⟨-, j', hj', hij', hle⟩
        · rw [hkept, ← not_less_iff_key]
          exact hbefore j (hj.trans_le (Nat.sub_le ..)) hkj
            fun hmine ↦ hnot ((congrArg Timer.ref hkept).trans hmine)
        · exact ((not_less_iff_key _ _).mp
            (hbefore j' hj' (hk.trans hij') (hdone j' hj' hij'))).trans hle
    · refine ih (Nat.le_of_succ_le hi) hvalid (fun k hk hik ↦ ?_)
        fun k hk ↦ hclear k (Nat.lt_succ_of_lt hk)
      rcases Nat.lt_or_eq_of_le hik with hlt | rfl
      · exact hdone k hk hlt
      · exact hfound

/-- A heap by the deadlines, instances and kinds of timers of the first replica. -/
def ofTimers (timers : List (ℕ × InstanceNum × TimerKind)) : TimerHeap :=
  ⟨timers.length, fun k ↦
    let timer := timers.getD k (0, 0, .preAccept)
    (⟨timer.1, ⟨1, timer.2.1, 1⟩, timer.2.2, 0⟩, k)⟩

end TimerHeap

end MoreConsensus
