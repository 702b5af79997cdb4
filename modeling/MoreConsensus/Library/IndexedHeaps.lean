import MoreConsensus.Library.FiniteMap
import MoreConsensus.Library.Heaps

/-!
# Heaps with a common index

Entries wait in heaps, one for each domain, and an index finds them by key. The structure carries
its invariant: the index has exactly the entries of the heaps, each under its own key, and the heaps
are in order, with every entry at the position that is stored with it. `push` adds an entry whose
key is not taken, `detach` takes out the entry of a key from the position that is stored with it,
`detachAll` those of all selected keys. A heap stands for the queue of its entries in the order of
their ranks (`queue`), whose head is at the root (`peek_eq`). `InOrder` compares what was taken from
a queue under a clock with what still waits: entries that are due are taken from the head, and only
entries that are due later than the clock are added.
-/

set_option autoImplicit false

namespace MoreConsensus.Library

open Heaps

/-- How entries are keyed and ranked. Entries of one rank have one key. -/
structure QueueKeys (δ κ ρ α : Type) [LT ρ] where
  key : δ → α → κ
  domain : κ → δ
  rank : α → ρ
  less : α → α → Bool
  domain_key : ∀ d a, domain (key d a) = d
  key_of_rank : ∀ d a b, rank a = rank b → key d a = key d b
  less_iff : ∀ a b, less a b = true ↔ rank a < rank b

section Order

variable {δ κ ρ α : Type} [LinearOrder ρ] {s : QueueKeys δ κ ρ α}

/-- Insertion into a queue at the place of the entry's rank. -/
def QueueKeys.place (s : QueueKeys δ κ ρ α) (a : α) : List α → List α
  | [] => [a]
  | head :: rest => if s.rank a < s.rank head then a :: head :: rest else head :: s.place a rest

theorem QueueKeys.perm_place (a : α) (queue : List α) : (s.place a queue).Perm (a :: queue) := by
  induction queue with
  | nil => rfl
  | cons head rest ih =>
    unfold place
    split_ifs
    · rfl
    · exact (ih.cons head).trans (.swap a head rest)

theorem QueueKeys.pairwise_place {a : α} {queue : List α}
    (hsorted : queue.Pairwise fun a b ↦ s.rank a < s.rank b)
    (hnew : ∀ b ∈ queue, s.rank b ≠ s.rank a) :
    (s.place a queue).Pairwise fun a b ↦ s.rank a < s.rank b := by
  induction queue with
  | nil => exact List.pairwise_singleton _ _
  | cons head rest ih =>
    obtain ⟨hhead, hrest⟩ := List.pairwise_cons.mp hsorted
    unfold place
    split_ifs with hless
    · refine List.pairwise_cons.mpr ⟨fun b hb ↦ ?_, hsorted⟩
      rcases List.mem_cons.mp hb with rfl | hlater
      · exact hless
      · exact hless.trans (hhead b hlater)
    · have hbefore : s.rank head < s.rank a :=
        lt_of_le_of_ne (not_lt.mp hless) (hnew head List.mem_cons_self)
      refine List.pairwise_cons.mpr ⟨fun b hb ↦ ?_,
        ih hrest fun b hb ↦ hnew b (List.mem_cons_of_mem _ hb)⟩
      rcases List.mem_cons.mp ((QueueKeys.perm_place a rest).mem_iff.mp hb) with rfl | hold
      · exact hbefore
      · exact hhead b hold

theorem QueueKeys.perm_foldr_place (entries : List α) :
    (entries.foldr s.place []).Perm entries := by
  induction entries with
  | nil => rfl
  | cons a rest ih => exact (QueueKeys.perm_place a _).trans (ih.cons a)

end Order

/-- Heaps and their index. -/
structure IndexedHeaps {δ κ ρ α : Type} [LinearOrder κ] [LinearOrder ρ]
    (s : QueueKeys δ κ ρ α) where
  index : FiniteMap κ α
  heap : δ → Marked α
  synced : ∀ k a, index.get? k = some a ↔
    a ∈ (heap (s.domain k)).values ∧ s.key (s.domain k) a = k
  distinct : ∀ d, ((heap d).values.map (s.key d)).Nodup
  valid : ∀ d, (heap d).Valid s.rank

namespace IndexedHeaps

variable {δ κ ρ α : Type} [LinearOrder κ] [LinearOrder ρ] {s : QueueKeys δ κ ρ α}

instance [Inhabited α] : EmptyCollection (IndexedHeaps s) where
  emptyCollection :=
    { index := ∅, heap := fun _ ↦ ⟨0, fun _ ↦ default⟩, synced := by simp [Marked.values]
      distinct := fun _ ↦ List.nodup_nil, valid := fun _ ↦ ⟨by simp [Ordered], by simp⟩ }

variable (q : IndexedHeaps s) {d other : δ} {a b : α} {k : κ}

/-- The key of an entry of a heap leads to it. -/
theorem get?_of_mem (hmem : a ∈ (q.heap d).values) : q.index.get? (s.key d a) = some a := by
  rw [q.synced, s.domain_key]
  exact ⟨hmem, rfl⟩

/-! ### Operations -/

/-- The entry at the root of a heap. -/
def peek (d : δ) : Option α :=
  if (q.heap d).len = 0 then none else some ((q.heap d).slot 0).1

/-- The position that is stored with the entry of a key. -/
def position (k : κ) : ℕ :=
  let heap := q.heap (s.domain k)
  (((List.range heap.len).map heap.slot).find? fun entry ↦
    decide (s.key (s.domain k) entry.1 = k)).elim 0 Prod.snd

theorem position_spec (hget : q.index.get? k = some a) :
    q.position k < (q.heap (s.domain k)).len ∧
      ((q.heap (s.domain k)).slot (q.position k)).1 = a := by
  obtain ⟨hmem, hkey⟩ := (q.synced k a).mp hget
  obtain ⟨i, hi, rfl⟩ := Marked.mem_values.mp hmem
  unfold position
  dsimp only
  cases hfind : ((List.range (q.heap (s.domain k)).len).map (q.heap (s.domain k)).slot).find?
      fun entry ↦ decide (s.key (s.domain k) entry.1 = k) with
  | none =>
    have hnone := List.find?_eq_none.mp hfind _ (List.mem_map.mpr ⟨i, List.mem_range.mpr hi, rfl⟩)
    exact absurd hkey (by simpa using hnone)
  | some entry =>
    obtain ⟨j, hj, rfl⟩ := List.mem_map.mp (List.mem_of_find?_eq_some hfind)
    have hj := List.mem_range.mp hj
    have hfound : q.index.get? k = some ((q.heap (s.domain k)).slot j).1 :=
      (q.synced _ _).mpr ⟨Marked.mem_values.mpr ⟨j, hj, rfl⟩, by simpa using List.find?_some hfind⟩
    rw [Option.elim_some, (q.valid _).indexed j hj]
    exact ⟨hj, Option.some.inj (hfound.symm.trans hget)⟩

variable [DecidableEq δ]

/-- The heaps with one entry more. -/
def pushed (d : δ) (a : α) (other : δ) : Marked α :=
  if other = d then (q.heap d).push s.less a else q.heap other

theorem perm_pushed (d : δ) (a : α) (other : δ) : (q.pushed d a other).values.Perm
    (if other = d then a :: (q.heap other).values else (q.heap other).values) := by
  unfold pushed
  split_ifs with hother
  · exact hother ▸ Marked.perm_push ..
  · rfl

/-- Adds an entry. -/
def push (d : δ) (a : α) (hnew : q.index.get? (s.key d a) = none) : IndexedHeaps s where
  index := q.index.insert (s.key d a) a
  heap := q.pushed d a
  synced k b := by
    rw [FiniteMap.get?_insert, (q.perm_pushed d a _).mem_iff]
    by_cases hkey : k = s.key d a
    · subst hkey
      have hfree : ∀ b ∈ (q.heap d).values, s.key d b ≠ s.key d a := by
        intro b hb heq
        rw [← heq, q.get?_of_mem hb] at hnew
        simp at hnew
      simp only [s.domain_key, if_true, List.mem_cons, Option.some.injEq]
      constructor
      · rintro rfl
        exact ⟨Or.inl rfl, rfl⟩
      · rintro ⟨rfl | hold, heq⟩
        · rfl
        · exact absurd heq (hfree b hold)
    · rw [if_neg hkey, q.synced]
      by_cases hdomain : s.domain k = d
      · simp only [hdomain, if_true, List.mem_cons]
        refine ⟨fun hold ↦ ⟨Or.inr hold.1, hold.2⟩, ?_⟩
        rintro ⟨rfl | hold, heq⟩
        · exact absurd heq.symm hkey
        · exact ⟨hold, heq⟩
      · simp only [hdomain, if_false]
  distinct other := by
    refine (((q.perm_pushed d a other).map _).nodup_iff).mpr ?_
    split_ifs with hother
    · subst hother
      refine List.nodup_cons.mpr ⟨fun hmem ↦ ?_, q.distinct other⟩
      obtain ⟨b, hb, heq⟩ := List.mem_map.mp hmem
      rw [← heq, q.get?_of_mem hb] at hnew
      simp at hnew
    · exact q.distinct other
  valid other := by
    unfold pushed
    split_ifs
    · exact (q.valid d).push s.less_iff a
    · exact q.valid other

/-- The heaps without the entry of a key. -/
def detached (k : κ) (d : δ) : Marked α :=
  if d = s.domain k ∧ (q.index.get? k).isSome then (q.heap d).remove s.less (q.position k)
  else q.heap d

theorem perm_detached (k : κ) (d : δ) : (q.detached k d).values.Perm
    ((q.heap d).values.filter fun a ↦ !decide (s.key d a = k)) := by
  unfold detached
  split_ifs with hfound
  · obtain ⟨rfl, hsome⟩ := hfound
    obtain ⟨a, hget⟩ := Option.isSome_iff_exists.mp hsome
    obtain ⟨hlt, hslot⟩ := q.position_spec hget
    have hperm : (q.heap (s.domain k)).values.Perm
        (_ :: ((q.heap (s.domain k)).remove s.less (q.position k)).values) := Marked.perm_remove hlt
    rw [hslot] at hperm
    have hkey := ((q.synced k a).mp hget).2
    -- the keys are distinct, so no other entry has this one
    have hdistinct := (hperm.map (s.key (s.domain k))).nodup_iff.mp (q.distinct _)
    have hothers := (List.nodup_cons.mp hdistinct).1
    refine .trans (.of_eq ?_) (hperm.filter _).symm
    rw [List.filter_cons_of_neg (by simp [hkey]), eq_comm, List.filter_eq_self]
    refine fun b hb ↦ ?_
    simp only [Bool.not_eq_eq_eq_not, Bool.not_true, decide_eq_false_iff_not]
    exact fun heq ↦ hothers (List.mem_map.mpr ⟨b, hb, heq.trans hkey.symm⟩)
  · refine .of_eq (List.filter_eq_self.mpr fun a ha ↦ ?_).symm
    simp only [Bool.not_eq_eq_eq_not, Bool.not_true, decide_eq_false_iff_not]
    rintro rfl
    exact hfound ⟨(s.domain_key d a).symm, by rw [q.get?_of_mem ha]; rfl⟩

/-- Takes the entry of a key out of its heap and out of the index. -/
def detach (k : κ) : IndexedHeaps s where
  index := q.index.erase k
  heap := q.detached k
  synced other b := by
    rw [FiniteMap.get?_erase, (q.perm_detached k _).mem_iff, List.mem_filter]
    by_cases hother : other = k
    · simp only [hother, if_true, reduceCtorEq, false_iff, not_and]
      rintro ⟨-, hne⟩ heq
      simp [heq] at hne
    · rw [if_neg hother, q.synced]
      refine ⟨fun ⟨hmem, hkey⟩ ↦ ⟨⟨hmem, ?_⟩, hkey⟩, fun ⟨hmem, hkey⟩ ↦ ⟨hmem.1, hkey⟩⟩
      simp [hkey, hother]
  distinct d := ((q.perm_detached k d).map _).nodup_iff.mpr
    ((q.distinct d).sublist (List.filter_sublist.map _))
  valid d := by
    unfold detached
    split_ifs with hfound
    · obtain ⟨rfl, hsome⟩ := hfound
      obtain ⟨a, hget⟩ := Option.isSome_iff_exists.mp hsome
      exact (q.valid _).remove s.less_iff (q.position_spec hget).1
    · exact q.valid d

/-- Takes out the entries of all selected keys. -/
def detachAll (select : κ → Bool) : IndexedHeaps s :=
  (q.index.keys.filter select).foldl (fun q k ↦ q.detach k) q

/-! ### Queues -/

omit [DecidableEq δ]

/-- The entries of a heap in the order of their ranks. -/
def queue (d : δ) : List α := (q.heap d).values.foldr s.place []

theorem perm_queue (d : δ) : (q.queue d).Perm (q.heap d).values := QueueKeys.perm_foldr_place _

theorem sorted (d : δ) : (q.queue d).Pairwise fun a b ↦ s.rank a < s.rank b := by
  have hall : ∀ entries : List α, (entries.map (s.key d)).Nodup →
      (entries.foldr s.place []).Pairwise fun a b ↦ s.rank a < s.rank b := by
    intro entries hdistinct
    induction entries with
    | nil => exact List.Pairwise.nil
    | cons a rest ih =>
      obtain ⟨hnew, hrest⟩ := List.nodup_cons.mp hdistinct
      refine QueueKeys.pairwise_place (ih hrest) fun b hb heq ↦ hnew ?_
      exact List.mem_map.mpr ⟨b, (QueueKeys.perm_foldr_place rest).mem_iff.mp hb,
        s.key_of_rank d b a heq⟩
  exact hall _ (q.distinct d)

/-- Entries in strict order are the queue. -/
theorem queue_eq {entries : List α} (hsorted : entries.Pairwise fun a b ↦ s.rank a < s.rank b)
    (hperm : (q.heap d).values.Perm entries) : q.queue d = entries :=
  ((q.perm_queue d).trans hperm).eq_of_pairwise
    (fun _ _ _ _ hab hba ↦ absurd hba hab.not_gt) (q.sorted d) hsorted

/-- The entry at the root is the head of the queue. -/
theorem peek_eq (d : δ) : q.peek d = (q.queue d).head? := by
  have hperm := q.perm_queue d
  unfold peek
  cases hqueue : q.queue d with
  | nil =>
    rw [hqueue] at hperm
    have hlen := congrArg List.length hperm.nil_eq
    rw [if_pos (by simpa [Marked.values] using hlen.symm)]
    rfl
  | cons a rest =>
    rw [hqueue] at hperm
    have hpos : 0 < (q.heap d).len := by
      have hlen := hperm.length_eq
      simp only [Marked.values, List.length_map, List.length_range, List.length_cons] at hlen
      omega
    have hroot : ((q.heap d).slot 0).1 ∈ a :: rest :=
      hperm.mem_iff.mpr (Marked.mem_values.mpr ⟨0, hpos, rfl⟩)
    obtain ⟨i, hi, hfirst⟩ := Marked.mem_values.mp (hperm.mem_iff.mp List.mem_cons_self)
    have hle := (q.valid d).root_le hi
    rw [hfirst] at hle
    rw [if_neg hpos.ne', List.head?_cons, Option.some.injEq]
    rcases List.mem_cons.mp hroot with heq | hlater
    · exact heq
    · exact absurd ((List.pairwise_cons.mp (hqueue ▸ q.sorted d)).1 _ hlater) hle.not_gt

theorem mem_queue : a ∈ q.queue d ↔ a ∈ (q.heap d).values := (q.perm_queue d).mem_iff

variable [DecidableEq δ]

theorem queue_detach (k : κ) (d : δ) :
    (q.detach k).queue d = (q.queue d).filter fun a ↦ !decide (s.key d a = k) :=
  queue_eq _ ((q.sorted d).filter _) ((q.perm_detached k d).trans ((q.perm_queue d).filter _).symm)

theorem queue_foldl_detach (keys : List κ) (q : IndexedHeaps s) (d : δ) :
    (keys.foldl (fun q k ↦ q.detach k) q).queue d =
      (q.queue d).filter fun a ↦ !keys.contains (s.key d a) := by
  induction keys generalizing q with
  | nil => simp
  | cons k rest ih =>
    rw [List.foldl_cons, ih, queue_detach, List.filter_filter]
    refine List.filter_congr fun a _ ↦ ?_
    by_cases hkey : s.key d a = k <;> simp [hkey]

/-- A selection leaves in each queue the entries whose keys are not selected. -/
theorem queue_detachAll (select : κ → Bool) (d : δ) :
    (q.detachAll select).queue d = (q.queue d).filter fun a ↦ !select (s.key d a) := by
  unfold detachAll
  rw [queue_foldl_detach]
  refine List.filter_congr fun a ha ↦ ?_
  have hkey : s.key d a ∈ q.index.keys :=
    (q.index.mem_keys _).mpr ⟨a, q.get?_of_mem (q.mem_queue.mp ha)⟩
  cases hselect : select (s.key d a) <;> simp [hkey, hselect]

/-- Taking the entry at the head of a queue leaves its tail. -/
theorem queue_detach_head {rest : List α} (hqueue : q.queue d = a :: rest) :
    (q.detach (s.key d a)).queue d = rest := by
  have hperm := hqueue ▸ q.perm_queue d
  have hdistinct := (hperm.map (s.key d)).nodup_iff.mpr (q.distinct d)
  rw [queue_detach, hqueue, List.filter_cons_of_neg (by simp), List.filter_eq_self]
  intro b hb
  simp only [Bool.not_eq_eq_eq_not, Bool.not_true, decide_eq_false_iff_not]
  exact fun heq ↦ (List.nodup_cons.mp hdistinct).1 (List.mem_map.mpr ⟨b, hb, heq⟩)

/-- The other queues keep their entries when one is taken out. -/
theorem queue_detach_of_ne (a : α) (hother : other ≠ d) :
    (q.detach (s.key d a)).queue other = q.queue other := by
  rw [queue_detach, List.filter_eq_self]
  intro b _
  simp only [Bool.not_eq_eq_eq_not, Bool.not_true, decide_eq_false_iff_not]
  intro heq
  have hdomain := congrArg s.domain heq
  rw [s.domain_key, s.domain_key] at hdomain
  exact hother hdomain

theorem mem_queue_push (hnew : q.index.get? (s.key d a) = none)
    (hmem : b ∈ (q.push d a hnew).queue other) : other = d ∧ b = a ∨ b ∈ q.queue other := by
  rw [mem_queue, push, (q.perm_pushed d a other).mem_iff] at hmem
  rw [mem_queue]
  split_ifs at hmem with hother
  · exact (List.mem_cons.mp hmem).imp (fun heq ↦ ⟨hother, heq⟩) id
  · exact Or.inr hmem

end IndexedHeaps

/-! ### Taking entries under a clock -/

/-- What was taken from a queue is in strict order, comes before everything that waits, and was due
by the clock. -/
structure InOrder {ρ α : Type} [LT ρ] (rank : α → ρ) (due : α → ℕ) (clock : Option ℕ)
    (taken queue : List α) : Prop where
  ordered : taken.Pairwise fun a b ↦ rank a < rank b
  before : ∀ a ∈ taken, ∀ b ∈ queue, rank a < rank b
  past : ∀ a ∈ taken, ∃ bound ∈ clock, due a ≤ bound

namespace InOrder

variable {ρ α : Type} [LT ρ] {rank : α → ρ} {due : α → ℕ} {clock : Option ℕ} {taken queue : List α}

theorem nil (queue : List α) : InOrder rank due clock [] queue :=
  ⟨List.Pairwise.nil, nofun, nofun⟩

/-- Entries may be given up. -/
theorem shrink (h : InOrder rank due clock taken queue) {kept : List α}
    (hkept : ∀ b ∈ kept, b ∈ queue) : InOrder rank due clock taken kept :=
  ⟨h.ordered, fun a ha b hb ↦ h.before a ha b (hkept b hb), h.past⟩

/-- An entry that is due later than the clock may be added anywhere. -/
theorem add (h : InOrder rank due clock taken queue) {a : α} {next : List α}
    (hrank : ∀ b, due b < due a → rank b < rank a) (hlate : ∀ bound ∈ clock, bound < due a)
    (hnext : ∀ b ∈ next, b = a ∨ b ∈ queue) : InOrder rank due clock taken next := by
  refine ⟨h.ordered, fun b hb c hc ↦ ?_, h.past⟩
  rcases hnext c hc with rfl | hold
  · obtain ⟨bound, hbound, hdue⟩ := h.past b hb
    exact hrank b (Nat.lt_of_le_of_lt hdue (hlate bound hbound))
  · exact h.before b hb c hold

/-- The entry at the head of the queue may be taken when it is due. -/
theorem take {a : α} {rest : List α} (h : InOrder rank due clock taken (a :: rest)) {bound : ℕ}
    (hfirst : ∀ b ∈ rest, rank a < rank b) (hbound : bound ∈ clock) (hdue : due a ≤ bound) :
    InOrder rank due clock (taken ++ [a]) rest where
  ordered := by
    refine List.pairwise_append.mpr ⟨h.ordered, List.pairwise_singleton _ _, fun b hb c hc ↦ ?_⟩
    rw [List.mem_singleton.mp hc]
    exact h.before b hb a List.mem_cons_self
  before := by
    intro b hb c hc
    rcases List.mem_append.mp hb with hold | hnew
    · exact h.before b hold c (List.mem_cons_of_mem _ hc)
    · rw [List.mem_singleton.mp hnew]
      exact hfirst c hc
  past := by
    intro b hb
    rcases List.mem_append.mp hb with hold | hnew
    · exact h.past b hold
    · rw [List.mem_singleton.mp hnew]
      exact ⟨bound, hbound, hdue⟩

/-- The clock may move on. -/
theorem raise (h : InOrder rank due clock taken queue) {later : Option ℕ}
    (hlater : ∀ bound ∈ clock, ∃ next ∈ later, bound ≤ next) :
    InOrder rank due later taken queue := by
  refine ⟨h.ordered, h.before, fun a ha ↦ ?_⟩
  obtain ⟨bound, hbound, hdue⟩ := h.past a ha
  obtain ⟨next, hnext, hle⟩ := hlater bound hbound
  exact ⟨next, hnext, Nat.le_trans hdue hle⟩

end InOrder

end MoreConsensus.Library
