import MoreConsensus.Library.FiniteMap

/-!
# Radix trees with summaries

A tree that holds a slot under each of some numbers, by the digits of the number in base `b`, the
highest digit first. Every node keeps a summary of the slots below it, the sum of what they weigh in
an additive monoid. A tree is as high as its largest number needs; it grows when a larger number is
set and shrinks when the numbers it is left with need fewer digits.

The slots are observed through `get?`: `get?_set` and `get?_remove` say what an update does, and
`mem_walkDesc` which slots a walk down from a number passes. `Sound` says that every node has the
summary of its own slots; every update keeps it, and it makes the summaries of a tree (`summary_eq`)
and of an initial part of it (`prefixSummary_eq`) the sums they are meant to be.
-/

set_option autoImplicit false

namespace MoreConsensus.Library

/-- How slots are summed up: what a slot under a number weighs, and how many slots a sum has. -/
structure Measure (σ A : Type) [AddMonoid A] where
  weigh : ℕ → σ → A
  count : A →+ ℕ
  count_weigh : ∀ num slot, count (weigh num slot) = 1

/-- Every sum with a slot of a sort is entered, when the slot is not under zero. -/
def Measure.Shows {σ A : Type} [AddMonoid A] (measure : Measure σ A) (enter : A → Bool)
    (keep : σ → Bool) : Prop :=
  ∀ (slots : List (ℕ × σ)) (entry : ℕ × σ), entry ∈ slots → entry.1 ≠ 0 → keep entry.2 = true →
    enter (slots.map fun entry ↦ measure.weigh entry.1 entry.2).sum = true

/-- A node: a child for some of the digits, and a summary. -/
structure Fork (b : ℕ) (τ A : Type) where
  children : FiniteMap (Fin b) τ
  summary : A

/-- The nodes of a level. The children of the lowest ones are the slots. -/
def Radix (b : ℕ) (σ A : Type) : ℕ → Type
  | 0 => Fork b σ A
  | level + 1 => Fork b (Radix b σ A level) A

namespace Radix

/-- The digit of a number that a level branches on. -/
def digit (b : ℕ) [NeZero b] (level num : ℕ) : Fin b := Fin.ofNat b (num / b ^ level)

theorem digit_eq_iff {b : ℕ} [NeZero b] {level num other : ℕ} :
    digit b level num = digit b level other ↔ num / b ^ level % b = other / b ^ level % b := by
  simp [digit, Fin.ext_iff]

/-- Two numbers agree on one more digit. -/
theorem mod_pow_succ_eq_iff {b : ℕ} [NeZero b] (level : ℕ) {num other : ℕ} :
    num % b ^ (level + 1) = other % b ^ (level + 1) ↔
      digit b level num = digit b level other ∧ num % b ^ level = other % b ^ level := by
  have hpos : 0 < b ^ level := Nat.pow_pos (Nat.pos_of_neZero b)
  rw [digit_eq_iff, Nat.mod_pow_succ, Nat.mod_pow_succ]
  constructor
  · intro heq
    have hlow := congrArg (· % b ^ level) heq
    have hhigh := congrArg (· / b ^ level) heq
    simp only [Nat.add_mul_mod_self_left, Nat.mod_mod] at hlow
    simp only [Nat.add_mul_div_left _ _ hpos, Nat.div_eq_of_lt (Nat.mod_lt _ hpos),
      Nat.zero_add] at hhigh
    exact ⟨hhigh, hlow⟩
  · rintro ⟨hhigh, hlow⟩
    rw [hhigh, hlow]

section Nodes

variable {b : ℕ} [NeZero b] {σ A : Type} {level : ℕ} {node : Radix b σ A level}

variable {low base num : ℕ}

/-- A number of a level, from its highest digit and the rest. -/
theorem digit_add {level : ℕ} (high : Fin b) (hlow : low < b ^ level) :
    digit b level (high * b ^ level + low) = high := by
  have hpos : 0 < b ^ level := Nat.pow_pos (Nat.pos_of_neZero b)
  ext
  simp only [digit, Fin.val_ofNat]
  rw [Nat.add_comm, Nat.add_mul_div_right _ _ hpos, Nat.div_eq_of_lt hlow, Nat.zero_add,
    Nat.mod_eq_of_lt high.isLt]

theorem digit_mul_add_mod (level num : ℕ) :
    (digit b level num : ℕ) * b ^ level + num % b ^ level = num % b ^ (level + 1) := by
  rw [Nat.mod_pow_succ, Nat.add_comm, Nat.mul_comm]
  rfl

/-- A number of a level is up to the digits of another when its highest digit is lower, or the same
and the rest is up to the other digits. -/
theorem le_iff_digit {level : ℕ} (bound : ℕ) (high : Fin b) (hlow : low < b ^ level) :
    high * b ^ level + low ≤ bound % b ^ (level + 1) ↔
      high ≤ digit b level bound ∧ (high = digit b level bound → low ≤ bound % b ^ level) := by
  have hrest : bound % b ^ level < b ^ level := Nat.mod_lt _ (Nat.pow_pos (Nat.pos_of_neZero b))
  rw [← digit_mul_add_mod]
  generalize digit b level bound = top at *
  generalize bound % b ^ level = rest at *
  rcases lt_trichotomy high top with hlt | heq | hgt
  · have hstep : ((high : ℕ) + 1) * b ^ level ≤ top * b ^ level :=
      Nat.mul_le_mul_right _ (Fin.lt_def.mp hlt)
    rw [Nat.add_mul, Nat.one_mul] at hstep
    refine iff_of_true (by omega) ⟨hlt.le, fun heq ↦ absurd heq hlt.ne⟩
  · subst heq
    simp
  · have hstep : ((top : ℕ) + 1) * b ^ level ≤ high * b ^ level :=
      Nat.mul_le_mul_right _ (Fin.lt_def.mp hgt)
    rw [Nat.add_mul, Nat.one_mul] at hstep
    exact iff_of_false (by omega) fun hle ↦ absurd hle.1 (not_le.mpr hgt)

omit [NeZero b] in
/-- The numbers of a child are numbers of the node. -/
theorem digit_mul_add_lt {level : ℕ} (high : Fin b) (hlow : low < b ^ level) :
    high * b ^ level + low < b ^ (level + 1) := by
  have hstep : ((high : ℕ) + 1) * b ^ level ≤ b * b ^ level :=
    Nat.mul_le_mul_right _ high.isLt
  rw [Nat.add_mul, Nat.one_mul] at hstep
  rw [Nat.pow_succ, Nat.mul_comm (b ^ level)]
  omega

/-! ### Operations -/

def summary : (level : ℕ) → Radix b σ A level → A
  | 0, node => Fork.summary node
  | _ + 1, node => Fork.summary node

/-- The slot of a number. -/
def get? : (level : ℕ) → Radix b σ A level → ℕ → Option σ
  | 0, node, num => node.children.get? (digit b 0 num)
  | level + 1, node, num =>
    (node.children.get? (digit b (level + 1) num)).bind fun child ↦ get? level child num

/-- The slots of a node with their numbers, in order; `base` is the number of its first slot. -/
def entries : (level : ℕ) → Radix b σ A level → ℕ → List (ℕ × σ)
  | 0, node, base => node.children.entries.map fun entry ↦ (base + entry.1, entry.2)
  | level + 1, node, base => node.children.entries.flatMap fun entry ↦
      entries level entry.2 (base + entry.1 * b ^ (level + 1))

/-- The slots in descending order, from a given number down when the walk is limited. A node only
looks at its own digits of that number. -/
def walkDesc : (level : ℕ) → Radix b σ A level → (base start : ℕ) → Bool → List (ℕ × σ)
  | 0, node, base, start, limited =>
    (node.children.entries.filter fun entry ↦
      !limited || decide (entry.1 ≤ digit b 0 start)).reverse.map fun entry ↦
        (base + entry.1, entry.2)
  | level + 1, node, base, start, limited =>
    let last := digit b (level + 1) start
    (node.children.entries.filter fun entry ↦
      !limited || decide (entry.1 ≤ last)).reverse.flatMap fun entry ↦
        walkDesc level entry.2 (base + entry.1 * b ^ (level + 1)) start
          (limited && decide (entry.1 = last))

/-- The slots of one sort in descending order. A node whose summary shows none of them is not
entered; beyond its digits a limited walk also looks at the numbers themselves. -/
def walkPruned (enter : A → Bool) (keep : σ → Bool) :
    (level : ℕ) → Radix b σ A level → (base start : ℕ) → Bool → List (ℕ × σ)
  | 0, node, base, start, limited =>
    if !enter (Fork.summary node) then []
    else ((node.children.entries.filter fun entry ↦
      !limited || decide (entry.1 ≤ digit b 0 start)).reverse.filter fun entry ↦
        !(limited && decide (start < base + entry.1)) && keep entry.2).map fun entry ↦
          (base + entry.1, entry.2)
  | level + 1, node, base, start, limited =>
    let last := digit b (level + 1) start
    if !enter (Fork.summary node) then []
    else (node.children.entries.filter fun entry ↦
      !limited || decide (entry.1 ≤ last)).reverse.flatMap fun entry ↦
        if !enter (summary level entry.2) ||
            (limited && decide (start < base + entry.1 * b ^ (level + 1))) then []
        else walkPruned enter keep level entry.2 (base + entry.1 * b ^ (level + 1)) start
          (limited && decide (entry.1 = last))

variable [AddMonoid A]

/-- A node without slots. -/
def blank : (level : ℕ) → Radix b σ A level
  | 0 => ⟨∅, 0⟩
  | _ + 1 => ⟨∅, 0⟩

variable (measure : Measure σ A)

/-- A lowest node with its summary. -/
def leafOf (base : ℕ) (slots : FiniteMap (Fin b) σ) : Radix b σ A 0 :=
  ⟨slots, (slots.entries.map fun entry ↦ measure.weigh (base + entry.1) entry.2).sum⟩

/-- A node above others with its summary. -/
def branchOf (level : ℕ) (children : FiniteMap (Fin b) (Radix b σ A level)) :
    Radix b σ A (level + 1) :=
  ⟨children, (children.entries.map fun entry ↦ summary level entry.2).sum⟩

def set : (level : ℕ) → Radix b σ A level → (base num : ℕ) → σ → Radix b σ A level
  | 0, node, base, num, slot => leafOf measure base (node.children.insert (digit b 0 num) slot)
  | level + 1, node, base, num, slot =>
    let high := digit b (level + 1) num
    let child := (node.children.get? high).getD (blank level)
    branchOf level (node.children.insert high
      (set level child (base + high * b ^ (level + 1)) num slot))

/-- The node without one slot, `none` when it has none under the number. A child that is left
without slots goes. -/
def remove : (level : ℕ) → Radix b σ A level → (base num : ℕ) → Option (Radix b σ A level)
  | 0, node, base, num =>
    if node.children.contains (digit b 0 num) then
      some (leafOf measure base (node.children.erase (digit b 0 num)))
    else none
  | level + 1, node, base, num =>
    let high := digit b (level + 1) num
    (node.children.get? high).bind fun child ↦
      (remove level child (base + high * b ^ (level + 1)) num).map fun rest ↦
        branchOf level (if measure.count (summary level rest) = 0 then node.children.erase high
          else node.children.insert high rest)

/-- The summary of the slots up to a number. -/
def prefixSummary : (level : ℕ) → Radix b σ A level → (base through : ℕ) → Bool → A
  | 0, node, base, through, limited =>
    if !limited then Fork.summary node
    else ((node.children.entries.filter fun entry ↦ decide (entry.1 ≤ digit b 0 through)).map
      fun entry ↦ measure.weigh (base + entry.1) entry.2).sum
  | level + 1, node, base, through, limited =>
    let last := digit b (level + 1) through
    if !limited then Fork.summary node
    else ((node.children.entries.filter fun entry ↦ decide (entry.1 ≤ last)).map fun entry ↦
      prefixSummary level entry.2 (base + entry.1 * b ^ (level + 1)) through
        (decide (entry.1 = last))).sum

/-- Every node has the summary of its own slots. -/
def Sound : (level : ℕ) → Radix b σ A level → ℕ → Prop
  | 0, node, base =>
    summary 0 node = ((entries 0 node base).map fun entry ↦ measure.weigh entry.1 entry.2).sum
  | level + 1, node, base =>
    summary (level + 1) node =
        ((entries (level + 1) node base).map fun entry ↦ measure.weigh entry.1 entry.2).sum ∧
      ∀ high child, node.children.get? high = some child →
        Sound level child (base + high * b ^ (level + 1))

/-! ### Slots -/

@[simp] theorem get?_blank (level num : ℕ) :
    get? level (blank level : Radix b σ A level) num = none := by
  cases level <;> rfl

omit [AddMonoid A] in
/-- Only the digits of a node's own levels matter to it. -/
theorem get?_mod (level : ℕ) (node : Radix b σ A level) (num : ℕ) :
    get? level node (num % b ^ (level + 1)) = get? level node num := by
  have hcongr : ∀ (level : ℕ) (node : Radix b σ A level) (num other : ℕ),
      num % b ^ (level + 1) = other % b ^ (level + 1) →
        get? level node num = get? level node other := by
    intro level
    induction level with
    | zero =>
      intro node num other heq
      simp only [get?, ((mod_pow_succ_eq_iff _).mp heq).1]
    | succ level ih =>
      intro node num other heq
      obtain ⟨hhigh, hlow⟩ := (mod_pow_succ_eq_iff _).mp heq
      simp only [get?, hhigh, fun child ↦ ih child num other hlow]
  exact hcongr level node _ num (Nat.mod_mod _ _)

theorem get?_set (level : ℕ) (node : Radix b σ A level) (base num other : ℕ) (slot : σ) :
    get? level (set measure level node base num slot) other =
      if other % b ^ (level + 1) = num % b ^ (level + 1) then some slot
      else get? level node other := by
  induction level generalizing base with
  | zero =>
    simp only [set, leafOf, get?, FiniteMap.get?_insert, mod_pow_succ_eq_iff 0,
      Nat.pow_zero, Nat.mod_one, and_true]
  | succ level ih =>
    simp only [set, branchOf, get?, FiniteMap.get?_insert, mod_pow_succ_eq_iff (level + 1)]
    by_cases hhigh : digit b (level + 1) other = digit b (level + 1) num
    · rw [if_pos hhigh, Option.bind_some, ih, hhigh]
      simp only [true_and]
      split_ifs
      · rfl
      · cases node.children.get? (digit b (level + 1) num) <;> simp
    · simp only [hhigh, if_false, false_and]

theorem remove_eq_none :
    remove measure level node base num = none ↔ get? level node num = none := by
  induction level generalizing base with
  | zero =>
    simp only [remove, get?]
    split_ifs with hin
    · refine iff_of_false (by simp) fun hnone ↦ ?_
      simp [FiniteMap.contains, hnone] at hin
    · simpa [FiniteMap.contains] using hin
  | succ level ih =>
    simp only [remove, get?, Option.bind_eq_none_iff, Option.map_eq_none_iff, ih]

/-! ### Entries -/

omit [NeZero b] [AddMonoid A] in
theorem exists_of_mem_entries {slot : σ}
    (hmem : (num, slot) ∈ entries level node base) : ∃ low < b ^ (level + 1), num = base + low := by
  induction level generalizing base with
  | zero =>
    obtain ⟨entry, -, hentry⟩ := List.mem_map.mp hmem
    exact ⟨entry.1, by simp, (Prod.mk.inj hentry).1.symm⟩
  | succ level ih =>
    obtain ⟨entry, -, hentry⟩ := List.mem_flatMap.mp hmem
    obtain ⟨low, hlow, hnum⟩ := ih hentry
    exact ⟨_, digit_mul_add_lt entry.1 hlow, by rw [hnum, Nat.add_assoc]⟩

omit [AddMonoid A] in
/-- The entries of a node are its slots. -/
theorem mem_entries (base : ℕ) {slot : σ}
    (hlow : low < b ^ (level + 1)) :
    (base + low, slot) ∈ entries level node base ↔ get? level node low = some slot := by
  induction level generalizing base low with
  | zero =>
    have hdigit : (digit b 0 low : ℕ) = low := by
      simpa [Nat.mod_one, Nat.mod_eq_of_lt (by simpa using hlow)] using
        digit_mul_add_mod (b := b) 0 low
    simp only [entries, get?, List.mem_map, Prod.mk.injEq, Nat.add_left_cancel_iff, Prod.exists]
    constructor
    · rintro ⟨high, found, hmem, hhigh, rfl⟩
      rw [← FiniteMap.mem_entries]
      rwa [show digit b 0 low = high from Fin.ext (hdigit.trans hhigh.symm)]
    · intro hget
      exact ⟨_, slot, (FiniteMap.mem_entries ..).mpr hget, hdigit, rfl⟩
  | succ level ih =>
    have hsplit := (digit_mul_add_mod (b := b) (level + 1) low).trans (Nat.mod_eq_of_lt hlow)
    have hrest : low % b ^ (level + 1) < b ^ (level + 1) :=
      Nat.mod_lt _ (Nat.pow_pos (Nat.pos_of_neZero b))
    simp only [entries, get?, List.mem_flatMap, Prod.exists, Option.bind_eq_some_iff]
    constructor
    · rintro ⟨high, child, hmem, hentry⟩
      obtain ⟨rest, hlt, hnum⟩ := exists_of_mem_entries hentry
      -- the number lies in the part of one child only
      have hnumber : low = high * b ^ (level + 1) + rest := by omega
      have hhigh : digit b (level + 1) low = high := by rw [hnumber, digit_add high hlt]
      refine ⟨child, hhigh ▸ (FiniteMap.mem_entries ..).mp hmem, ?_⟩
      have hmod : low % b ^ (level + 1) = rest := by
        rw [hnumber, Nat.mul_add_mod_self_right, Nat.mod_eq_of_lt hlt]
      rw [← get?_mod, hmod, ← ih _ hlt]
      rwa [hnum] at hentry
    · rintro ⟨child, hchild, hget⟩
      refine ⟨_, child, (FiniteMap.mem_entries ..).mpr hchild, ?_⟩
      rw [← get?_mod, ← ih (base + digit b (level + 1) low * b ^ (level + 1)) hrest,
        Nat.add_assoc, hsplit] at hget
      exact hget

/-! ### Summaries -/

variable {measure}

omit [NeZero b] in
theorem sound_leafOf (base : ℕ) (slots : FiniteMap (Fin b) σ) :
    Sound measure 0 (leafOf measure base slots) base := by
  simp only [Sound, summary, leafOf, entries, List.map_map]
  rfl

omit [NeZero b] in
theorem Sound.summary_eq
    (hsound : Sound measure level node base) : summary level node =
      ((entries level node base).map fun entry ↦ measure.weigh entry.1 entry.2).sum := by
  cases level with
  | zero => exact hsound
  | succ level => exact hsound.1

omit [NeZero b] in
theorem sound_branchOf {level : ℕ} {children : FiniteMap (Fin b) (Radix b σ A level)}
    (hsound : ∀ high child, children.get? high = some child →
      Sound measure level child (base + high * b ^ (level + 1))) :
    Sound measure (level + 1) (branchOf level children) base := by
  refine ⟨?_, hsound⟩
  change (children.entries.map fun entry ↦ summary level entry.2).sum =
    ((children.entries.flatMap fun entry ↦ entries level entry.2
      (base + entry.1 * b ^ (level + 1))).map fun entry ↦ measure.weigh entry.1 entry.2).sum
  rw [List.map_flatMap, List.flatMap_def, List.sum_flatten, List.map_map]
  congr 1
  refine List.map_congr_left fun entry hentry ↦ ?_
  exact (hsound entry.1 entry.2 ((FiniteMap.mem_entries ..).mp hentry)).summary_eq

omit [NeZero b] in
theorem sound_blank (level base : ℕ) :
    Sound measure level (blank level : Radix b σ A level) base := by
  cases level with
  | zero => rfl
  | succ level => exact ⟨rfl, fun high child hget ↦ by simp [blank] at hget⟩

theorem Sound.set
    (hsound : Sound measure level node base) (num : ℕ) (slot : σ) :
    Sound measure level (set measure level node base num slot) base := by
  induction level generalizing base with
  | zero => exact sound_leafOf ..
  | succ level ih =>
    refine sound_branchOf fun high child hget ↦ ?_
    rw [FiniteMap.get?_insert] at hget
    split_ifs at hget with hhigh
    · obtain rfl := Option.some.inj hget
      subst hhigh
      refine ih ?_
      cases hold : node.children.get? (digit b (level + 1) num) with
      | none => exact sound_blank ..
      | some old => exact hsound.2 _ _ hold
    · exact hsound.2 _ _ hget

theorem Sound.remove {node rest : Radix b σ A level}
    (hsound : Sound measure level node base)
    (hremove : remove measure level node base num = some rest) : Sound measure level rest base := by
  induction level generalizing base with
  | zero =>
    simp only [Radix.remove] at hremove
    split_ifs at hremove
    rw [← Option.some.inj hremove]
    exact sound_leafOf ..
  | succ level ih =>
    simp only [Radix.remove, Option.bind_eq_some_iff, Option.map_eq_some_iff] at hremove
    obtain ⟨child, hchild, less, hless, rfl⟩ := hremove
    refine sound_branchOf fun high found hget ↦ ?_
    split_ifs at hget
    · rw [FiniteMap.get?_erase] at hget
      split_ifs at hget
      exact hsound.2 _ _ hget
    · rw [FiniteMap.get?_insert] at hget
      split_ifs at hget with hhigh
      · obtain rfl := Option.some.inj hget
        subst hhigh
        exact ih (hsound.2 _ _ hchild) hless
      · exact hsound.2 _ _ hget

omit [NeZero b] in
/-- The count of a sound node is the number of its entries. -/
theorem Sound.count_eq
    (hsound : Sound measure level node base) :
    measure.count (summary level node) = (entries level node base).length := by
  rw [hsound.summary_eq]
  generalize entries level node base = slots
  induction slots with
  | nil => simp
  | cons entry rest ih => simp [measure.count_weigh, ih, Nat.add_comm]

theorem Sound.get?_of_count
    (hsound : Sound measure level node base) (hcount : measure.count (summary level node) = 0)
    (num : ℕ) : get? level node num = none := by
  rw [hsound.count_eq, List.length_eq_zero_iff] at hcount
  rw [← get?_mod]
  by_contra hsome
  obtain ⟨slot, hslot⟩ := Option.ne_none_iff_exists'.mp hsome
  have hmem := (mem_entries base
    (Nat.mod_lt _ (Nat.pow_pos (Nat.pos_of_neZero b)))).mpr hslot
  rw [hcount] at hmem
  exact List.not_mem_nil hmem

theorem get?_remove {node rest : Radix b σ A level}
    (hsound : Sound measure level node base)
    (hremove : remove measure level node base num = some rest) (other : ℕ) :
    get? level rest other = if other % b ^ (level + 1) = num % b ^ (level + 1) then none
      else get? level node other := by
  induction level generalizing base with
  | zero =>
    simp only [Radix.remove] at hremove
    split_ifs at hremove
    rw [← Option.some.inj hremove]
    simp only [leafOf, get?, FiniteMap.get?_erase, mod_pow_succ_eq_iff 0, Nat.pow_zero,
      Nat.mod_one, and_true]
  | succ level ih =>
    simp only [Radix.remove, Option.bind_eq_some_iff, Option.map_eq_some_iff] at hremove
    obtain ⟨child, hchild, less, hless, rfl⟩ := hremove
    have hchildren : ((if measure.count (summary level less) = 0 then
        node.children.erase (digit b (level + 1) num)
        else node.children.insert (digit b (level + 1) num) less).get?
          (digit b (level + 1) other)).bind (fun child ↦ get? level child other) =
        if digit b (level + 1) other = digit b (level + 1) num then get? level less other
        else (node.children.get? (digit b (level + 1) other)).bind fun child ↦
          get? level child other := by
      split_ifs with hempty hhigh hhigh
      · rw [FiniteMap.get?_erase, if_pos hhigh, Option.bind_none,
          ((hsound.2 _ _ hchild).remove hless).get?_of_count hempty]
      · rw [FiniteMap.get?_erase, if_neg hhigh]
      · rw [FiniteMap.get?_insert, if_pos hhigh, Option.bind_some]
      · rw [FiniteMap.get?_insert, if_neg hhigh]
    simp only [branchOf, get?, hchildren, ih (hsound.2 _ _ hchild) hless,
      mod_pow_succ_eq_iff (level + 1)]
    by_cases hhigh : digit b (level + 1) other = digit b (level + 1) num
    · simp only [hhigh, if_true, true_and, hchild, Option.bind_some]
    · simp only [hhigh, if_false, false_and]

/-! ### Walks -/

section Walks

omit [AddMonoid A] [NeZero b] in
/-- The entries are in the order of their numbers. -/
theorem pairwise_entries (level : ℕ) (node : Radix b σ A level) (base : ℕ) :
    (entries level node base).Pairwise fun entry next ↦ entry.1 < next.1 := by
  induction level generalizing base with
  | zero =>
    refine List.pairwise_map.mpr (node.children.sorted.imp fun hlt ↦ ?_)
    exact Nat.add_lt_add_left (Fin.lt_def.mp hlt) base
  | succ level ih =>
    refine List.pairwise_flatMap.mpr ⟨fun entry _ ↦ ih entry.2 _, ?_⟩
    refine node.children.sorted.imp fun {child next} hlt entry hentry other hother ↦ ?_
    obtain ⟨low, hlow, hnum⟩ := exists_of_mem_entries hentry
    obtain ⟨high, -, hnext⟩ := exists_of_mem_entries hother
    have hstep := Nat.mul_le_mul_right (b ^ (level + 1)) (Nat.succ_le_of_lt (Fin.lt_def.mp hlt))
    rw [Nat.succ_mul] at hstep
    omega

/-- Whether an entry is up to the digits that a node looks at. -/
def upTo (b level base start : ℕ) (limited : Bool) (entry : ℕ × σ) : Bool :=
  !limited || decide (entry.1 ≤ base + start % b ^ (level + 1))

@[simp] theorem upTo_unlimited (b level base start : ℕ) :
    upTo b level base start false = fun _ : ℕ × σ ↦ true := by
  funext entry
  simp [upTo]

omit [AddMonoid A] in
/-- What a limit on a node is for one of its children. -/
theorem filter_entries_child (level : ℕ) (child : Radix b σ A level) (base start : ℕ)
    (limited : Bool) (high : Fin b) :
    (entries level child (base + high * b ^ (level + 1))).filter
        (upTo b (level + 1) base start limited) =
      if !limited || decide (high ≤ digit b (level + 1) start) then
        (entries level child (base + high * b ^ (level + 1))).filter
          (upTo b level (base + high * b ^ (level + 1)) start
            (limited && decide (high = digit b (level + 1) start)))
      else [] := by
  cases limited with
  | false => simp
  | true =>
    have hentry : ∀ entry ∈ entries level child (base + high * b ^ (level + 1)),
        (upTo b (level + 1) base start true entry = true ↔
          high ≤ digit b (level + 1) start ∧ upTo b level (base + high * b ^ (level + 1)) start
            (decide (high = digit b (level + 1) start)) entry = true) := by
      rintro ⟨num, slot⟩ hmem
      obtain ⟨low, hlow, rfl⟩ := exists_of_mem_entries hmem
      have hle := le_iff_digit start high hlow
      simp only [upTo, Bool.not_true, Bool.false_or, decide_eq_true_eq, Nat.add_assoc,
        Nat.add_le_add_iff_left, hle]
      by_cases hhigh : high = digit b (level + 1) start <;> simp [hhigh]
    simp only [Bool.not_true, Bool.false_or, Bool.true_and, decide_eq_true_eq]
    split_ifs with hhigh
    · refine List.filter_congr fun entry hmem ↦ ?_
      rw [Bool.eq_iff_iff, hentry entry hmem, and_iff_right hhigh]
    · refine List.filter_eq_nil_iff.mpr fun entry hmem hup ↦ ?_
      exact hhigh ((hentry entry hmem).mp hup).1

/-- A selection of what a list of lists is built from. -/
theorem flatMap_filter {α β : Type} (l : List α) (p : α → Bool) (f : α → List β) :
    (l.filter p).flatMap f = l.flatMap fun a ↦ if p a then f a else [] := by
  induction l with
  | nil => rfl
  | cons a rest ih => by_cases hp : p a <;> simp [hp, ih]

omit [AddMonoid A] in
/-- The entries up to a limit are those of the children up to the digit of the limit. -/
theorem filter_entries_succ (level : ℕ) (node : Radix b σ A (level + 1)) (base start : ℕ)
    (limited : Bool) :
    (entries (level + 1) node base).filter (upTo b (level + 1) base start limited) =
      (node.children.entries.filter fun entry ↦
        !limited || decide (entry.1 ≤ digit b (level + 1) start)).flatMap fun entry ↦
          (entries level entry.2 (base + entry.1 * b ^ (level + 1))).filter
            (upTo b level (base + entry.1 * b ^ (level + 1)) start
              (limited && decide (entry.1 = digit b (level + 1) start))) := by
  simp only [entries, List.filter_flatMap, flatMap_filter, filter_entries_child]

omit [AddMonoid A] in
theorem filter_entries_zero (node : Radix b σ A 0) (base start : ℕ) (limited : Bool) :
    (entries 0 node base).filter (upTo b 0 base start limited) =
      (node.children.entries.filter fun entry ↦
        !limited || decide (entry.1 ≤ digit b 0 start)).map fun entry ↦
          (base + entry.1, entry.2) := by
  simp only [entries, List.filter_map]
  congr 1
  refine List.filter_congr fun entry _ ↦ ?_
  simp [upTo, digit, Fin.le_def]

omit [AddMonoid A] in
/-- A walk passes the entries up to its limit, in descending order. -/
theorem walkDesc_eq (level : ℕ) (node : Radix b σ A level) (base start : ℕ) (limited : Bool) :
    walkDesc level node base start limited =
      ((entries level node base).filter (upTo b level base start limited)).reverse := by
  induction level generalizing base limited with
  | zero => rw [filter_entries_zero, ← List.map_reverse, walkDesc]
  | succ level ih =>
    rw [filter_entries_succ, List.reverse_flatMap, walkDesc]
    simp only [ih, Function.comp_def]

/-- The summary of an initial part is the sum over its entries. -/
theorem Sound.prefixSummary_eq {base : ℕ}
    (hsound : Sound measure level node base) (through : ℕ) (limited : Bool) :
    prefixSummary measure level node base through limited =
      (((entries level node base).filter (upTo b level base through limited)).map
        fun entry ↦ measure.weigh entry.1 entry.2).sum := by
  induction level generalizing base limited with
  | zero =>
    cases limited with
    | false =>
      simp only [upTo_unlimited, List.filter_true]
      exact hsound
    | true =>
      rw [filter_entries_zero, List.map_map]
      simp [prefixSummary, Function.comp_def]
  | succ level ih =>
    cases limited with
    | false =>
      simp only [upTo_unlimited, List.filter_true]
      exact hsound.1
    | true =>
      rw [filter_entries_succ, List.map_flatMap, List.flatMap_def, List.sum_flatten, List.map_map]
      simp only [prefixSummary, Bool.not_true, Bool.false_or, Bool.true_and, Bool.false_eq_true,
        if_false]
      congr 1
      refine List.map_congr_left fun entry hentry ↦ ?_
      have hchild := (FiniteMap.mem_entries ..).mp (List.mem_of_mem_filter hentry)
      exact ih (hsound.2 _ _ hchild) _

/-- A pruned walk passes the entries of its sort up to its limit, when a summary shows every slot of
the sort and the slots of the sort are not under zero. -/
theorem Sound.walkPruned_eq {enter : A → Bool} {keep : σ → Bool}
    (henter : measure.Shows enter keep)
    {base : ℕ} (start : ℕ) (limited : Bool)
    (hsound : Sound measure level node base)
    (hnamed : ∀ entry ∈ entries level node base, keep entry.2 = true → entry.1 ≠ 0)
    (hstart : limited = true → base + start % b ^ (level + 1) ≤ start) :
    walkPruned enter keep level node base start limited =
      (((entries level node base).filter (upTo b level base start limited)).filter
        fun entry ↦ keep entry.2).reverse := by
  -- nothing is missed in a node that is not entered
  have hskip : ∀ (level : ℕ) (node : Radix b σ A level) (base : ℕ), Sound measure level node base →
      (∀ entry ∈ entries level node base, keep entry.2 = true → entry.1 ≠ 0) →
      enter (summary level node) = false → ∀ p : ℕ × σ → Bool,
      ((entries level node base).filter p).filter (fun entry ↦ keep entry.2) = [] := by
    intro level node base hsound hnamed hclosed p
    refine List.filter_eq_nil_iff.mpr fun entry hmem hkeep ↦ ?_
    have hentry := List.mem_of_mem_filter hmem
    have hopen := henter _ entry hentry (hnamed entry hentry hkeep) hkeep
    rw [← hsound.summary_eq, hclosed] at hopen
    exact absurd hopen Bool.false_ne_true
  induction level generalizing base limited with
  | zero =>
    by_cases hopen : enter (Fork.summary node) = true
    · rw [filter_entries_zero, List.filter_map, ← List.map_reverse, ← List.filter_reverse,
        walkPruned, if_neg (by simp [hopen])]
      congr 1
      refine List.filter_congr fun entry hentry ↦ ?_
      have hlast := List.of_mem_filter (List.mem_reverse.mp hentry)
      have hwithin : (limited && decide (start < base + entry.1)) = false := by
        cases limited with
        | false => rfl
        | true =>
          have hle : (entry.1 : ℕ) ≤ start % b ^ 1 := by
            simpa [digit, Fin.le_def] using hlast
          simpa using (Nat.add_le_add_left hle base).trans (hstart rfl)
      simp [hwithin]
    · rw [hskip 0 node base hsound hnamed (by simpa [summary] using hopen), walkPruned,
        if_pos (by simpa using hopen), List.reverse_nil]
  | succ level ih =>
    by_cases hopen : enter (Fork.summary node) = true
    · rw [filter_entries_succ, List.filter_flatMap, List.reverse_flatMap, walkPruned]
      simp only [hopen, Bool.not_true, Bool.false_eq_true, if_false]
      refine List.flatMap_congr fun entry hentry ↦ ?_
      have hmem := List.mem_reverse.mp hentry
      have hchild := (FiniteMap.mem_entries ..).mp (List.mem_of_mem_filter hmem)
      have hbelow := hsound.2 _ _ hchild
      have hnames : ∀ slot ∈ entries level entry.2 (base + entry.1 * b ^ (level + 1)),
          keep slot.2 = true → slot.1 ≠ 0 := fun slot hslot ↦
        hnamed slot (List.mem_flatMap.mpr ⟨entry, List.mem_of_mem_filter hmem, hslot⟩)
      have hsplit := digit_mul_add_mod (b := b) (level + 1) start
      rw [Function.comp_apply]
      split_ifs with hpassed
      · rcases Bool.or_eq_true_iff.mp hpassed with hclosed | hbeyond
        · rw [hskip level entry.2 _ hbelow hnames (by simpa using hclosed), List.reverse_nil]
        · -- a child that was selected does not begin beyond the limit
          obtain ⟨hlimited, hgt⟩ := Bool.and_eq_true_iff.mp hbeyond
          have hselected := List.of_mem_filter hmem
          simp only [hlimited, Bool.not_true, Bool.false_or, decide_eq_true_eq] at hselected
          have hle : base + entry.1 * b ^ (level + 1) ≤ start :=
            calc base + entry.1 * b ^ (level + 1)
                ≤ base + digit b (level + 1) start * b ^ (level + 1) :=
                  Nat.add_le_add_left (Nat.mul_le_mul_right _ (Fin.le_def.mp hselected)) _
              _ ≤ base + start % b ^ (level + 1 + 1) :=
                  Nat.add_le_add_left (hsplit ▸ Nat.le_add_right ..) _
              _ ≤ start := hstart hlimited
          exact absurd (of_decide_eq_true hgt) (not_lt.mpr hle)
      · refine ih _ hbelow hnames fun hlast ↦ ?_
        obtain ⟨hlimited, heq⟩ := Bool.and_eq_true_iff.mp hlast
        rw [of_decide_eq_true heq, Nat.add_assoc, hsplit]
        exact hstart hlimited
    · rw [hskip (level + 1) node base hsound hnamed (by simpa [summary] using hopen), walkPruned]
      simp [hopen]

end Walks

end Nodes

end Radix

/-! ### Trees -/

/-- A tree: its highest node, with its level. -/
structure RadixTree (b : ℕ) (σ A : Type) where
  root : Option ((level : ℕ) × Radix b σ A level) := none

namespace RadixTree

variable {b : ℕ} [NeZero b] {σ A : Type}

def get? (tree : RadixTree b σ A) (num : ℕ) : Option σ :=
  tree.root.elim none fun root ↦
    if root.1 < Nat.log b num then none else Radix.get? root.1 root.2 num

def entries (tree : RadixTree b σ A) : List (ℕ × σ) :=
  tree.root.elim [] fun root ↦ Radix.entries root.1 root.2 0

/-- The slots from a number down, in descending order. -/
def walkDesc (tree : RadixTree b σ A) (start : ℕ) : List (ℕ × σ) :=
  tree.root.elim [] fun root ↦
    Radix.walkDesc root.1 root.2 0 start (decide (Nat.log b start ≤ root.1))

def walkPruned (enter : A → Bool) (keep : σ → Bool) (tree : RadixTree b σ A) (start : ℕ) :
    List (ℕ × σ) :=
  tree.root.elim [] fun root ↦
    Radix.walkPruned enter keep root.1 root.2 0 start (decide (Nat.log b start ≤ root.1))

variable [AddMonoid A]

def summary (tree : RadixTree b σ A) : A :=
  tree.root.elim 0 fun root ↦ Radix.summary root.1 root.2

/-- The node some levels higher with a node as its only child, and so on down. -/
def raise {level : ℕ} (node : Radix b σ A level) : (levels : ℕ) → Radix b σ A (level + levels)
  | 0 => node
  | levels + 1 => Radix.branchOf (level + levels) (FiniteMap.insert ∅ 0 (raise node levels))

variable (measure : Measure σ A)

/-- The summary of the slots up to a number. -/
def prefixSummary (tree : RadixTree b σ A) (through : ℕ) : A :=
  tree.root.elim 0 fun root ↦
    Radix.prefixSummary measure root.1 root.2 0 through (decide (Nat.log b through ≤ root.1))

def set (tree : RadixTree b σ A) (num : ℕ) (slot : σ) : RadixTree b σ A :=
  let level := Nat.log b num
  match tree.root with
  | none => ⟨some ⟨level, Radix.set measure level (Radix.blank level) 0 num slot⟩⟩
  | some ⟨height, node⟩ =>
    ⟨some ⟨height + (level - height),
      Radix.set measure _ (raise node (level - height)) 0 num slot⟩⟩

/-- The lowest node that has all slots of a node, going down first children only. -/
def shrink : (level : ℕ) → Radix b σ A level → (level : ℕ) × Radix b σ A level
  | 0, node => ⟨0, node⟩
  | level + 1, node =>
    match node.children.get? 0 with
    | none => ⟨level + 1, node⟩
    | some child =>
      if measure.count (Fork.summary node) = measure.count (Radix.summary level child) then
        shrink level child
      else ⟨level + 1, node⟩

/-- The tree without one slot, `none` when it has none under the number. -/
def remove (tree : RadixTree b σ A) (num : ℕ) : Option (RadixTree b σ A) :=
  tree.root.elim none fun root ↦
    if root.1 < Nat.log b num then none
    else (Radix.remove measure root.1 root.2 0 num).map fun rest ↦
      if measure.count (Radix.summary root.1 rest) = 0 then ⟨none⟩
      else ⟨some (shrink measure root.1 rest)⟩

/-- Every node of a tree has the summary of its own slots. -/
def Sound (tree : RadixTree b σ A) : Prop :=
  ∀ root, tree.root = some root → Radix.Sound measure root.1 root.2 0

/-! ### What a tree holds -/

theorem log_le_iff (hb : 1 < b) {num level : ℕ} :
    Nat.log b num ≤ level ↔ num < b ^ (level + 1) := by
  rcases Nat.eq_zero_or_pos num with rfl | hpos
  · exact iff_of_true (by simp) (Nat.pow_pos (Nat.pos_of_neZero b))
  · rw [← Nat.lt_succ_iff]
    exact Nat.log_lt_iff_lt_pow hb hpos.ne'

theorem get?_raise {level : ℕ} (node : Radix b σ A level) (levels num : ℕ) :
    Radix.get? (level + levels) (raise node levels) num =
      if num % b ^ (level + levels + 1) < b ^ (level + 1) then Radix.get? level node num
      else none := by
  induction levels with
  | zero => exact (if_pos (Nat.mod_lt _ (Nat.pow_pos (Nat.pos_of_neZero b)))).symm
  | succ levels ih =>
    have hsplit := Radix.digit_mul_add_mod (b := b) (level + levels + 1) num
    change ((FiniteMap.insert ∅ 0 (raise node levels)).get?
      (Radix.digit b (level + levels + 1) num)).bind _ = _
    rw [FiniteMap.get?_insert]
    by_cases hdigit : Radix.digit b (level + levels + 1) num = 0
    · rw [hdigit] at hsplit
      simp only [Fin.val_zero, Nat.zero_mul, Nat.zero_add] at hsplit
      rw [if_pos hdigit, Option.bind_some]
      refine ih.trans ?_
      rw [hsplit]
      rfl
    · -- a number with another first digit is too large for the node
      have hle : b ^ (level + 1) ≤ b ^ (level + levels + 1) :=
        Nat.pow_le_pow_right (Nat.pos_of_neZero b) (by omega)
      have hone : 1 ≤ (Radix.digit b (level + levels + 1) num : ℕ) :=
        Nat.pos_of_ne_zero fun hzero ↦ hdigit (Fin.ext hzero)
      have hmul := Nat.mul_le_mul_right (b ^ (level + levels + 1)) hone
      rw [if_neg hdigit, if_neg]
      · rfl
      · rw [Nat.one_mul] at hmul
        rw [not_lt]
        exact hle.trans (hmul.trans ((Nat.le_add_right _ _).trans hsplit.le))

section Updates

variable {measure} (hb : 1 < b) {tree : RadixTree b σ A}

include hb

theorem get?_set (tree : RadixTree b σ A) (num other : ℕ) (slot : σ) :
    (tree.set measure num slot).get? other =
      if other = num then some slot else tree.get? other := by
  -- a node that is high enough for both numbers
  have hnode : ∀ {level : ℕ} (node : Radix b σ A level), Nat.log b num ≤ level →
      Nat.log b other ≤ level → Radix.get? level (Radix.set measure level node 0 num slot) other =
        if other = num then some slot else Radix.get? level node other := by
    intro level node hnum hother
    rw [Radix.get?_set, Nat.mod_eq_of_lt ((log_le_iff hb).mp hnum),
      Nat.mod_eq_of_lt ((log_le_iff hb).mp hother)]
  have habove : ∀ {level : ℕ}, Nat.log b num ≤ level → level < Nat.log b other → other ≠ num := by
    rintro level hnum hother rfl
    exact absurd hnum (not_le.mpr hother)
  obtain ⟨root⟩ := tree
  cases root with
  | none =>
    simp only [set, get?, Option.elim_some, Option.elim_none]
    split_ifs with hhigh heq heq
    · exact absurd heq (habove le_rfl hhigh)
    · rfl
    · rw [hnode _ le_rfl (not_lt.mp hhigh), if_pos heq]
    · rw [hnode _ le_rfl (not_lt.mp hhigh), if_neg heq, Radix.get?_blank]
  | some root =>
    obtain ⟨height, node⟩ := root
    have hnum : Nat.log b num ≤ height + (Nat.log b num - height) := by omega
    simp only [set, get?, Option.elim_some]
    by_cases hhigh : height + (Nat.log b num - height) < Nat.log b other
    · rw [if_pos hhigh, if_neg (habove hnum hhigh), if_pos (by omega)]
    · rw [if_neg hhigh, hnode _ hnum (not_lt.mp hhigh), get?_raise,
        Nat.mod_eq_of_lt ((log_le_iff hb).mp (not_lt.mp hhigh))]
      simp only [← log_le_iff hb, ← not_le, ite_not]

omit [AddMonoid A] in
theorem mem_entries {num : ℕ} {slot : σ} :
    (num, slot) ∈ tree.entries ↔ tree.get? num = some slot := by
  obtain ⟨root⟩ := tree
  cases root with
  | none => simp [entries, get?]
  | some root =>
    simp only [entries, get?, Option.elim_some]
    split_ifs with hhigh
    · refine iff_of_false (fun hmem ↦ ?_) (by simp)
      obtain ⟨low, hlow, hnum⟩ := Radix.exists_of_mem_entries hmem
      rw [Nat.zero_add] at hnum
      exact absurd ((log_le_iff hb).mpr (hnum ▸ hlow)) (not_le.mpr hhigh)
    · have hlow := (log_le_iff hb).mp (not_lt.mp hhigh)
      rw [← Radix.mem_entries 0 hlow, Nat.zero_add]

omit [AddMonoid A] in
/-- A limit that a node is high enough for, or that is beyond it, is a limit on numbers. -/
theorem upTo_eq {level : ℕ} {node : Radix b σ A level} {entry : ℕ × σ}
    (hentry : entry ∈ Radix.entries level node 0) (start : ℕ) :
    Radix.upTo b level 0 start (decide (Nat.log b start ≤ level)) entry =
      decide (entry.1 ≤ start) := by
  obtain ⟨low, hlow, hnum⟩ := Radix.exists_of_mem_entries hentry
  rw [Nat.zero_add] at hnum
  by_cases hstart : Nat.log b start ≤ level
  · simp [Radix.upTo, hstart, Nat.mod_eq_of_lt ((log_le_iff hb).mp hstart)]
  · -- a start beyond the node limits nothing
    have hlt : entry.1 < start := hnum ▸ hlow.trans_le
      (not_lt.mp fun hlt ↦ hstart ((log_le_iff hb).mpr hlt))
    simp [hstart, hlt.le]

omit [NeZero b] [AddMonoid A] hb in
theorem pairwise_entries (tree : RadixTree b σ A) :
    tree.entries.Pairwise fun entry next ↦ entry.1 < next.1 := by
  obtain ⟨root⟩ := tree
  cases root with
  | none => exact List.Pairwise.nil
  | some root => exact Radix.pairwise_entries root.1 root.2 0

omit [AddMonoid A] in
/-- A walk passes the slots up to its start, in descending order. -/
theorem walkDesc_eq (tree : RadixTree b σ A) (start : ℕ) :
    tree.walkDesc start =
      (tree.entries.filter fun entry ↦ decide (entry.1 ≤ start)).reverse := by
  obtain ⟨root⟩ := tree
  cases root with
  | none => rfl
  | some root =>
    simp only [entries, walkDesc, Option.elim_some, Radix.walkDesc_eq]
    rw [List.filter_congr fun entry hentry ↦ upTo_eq hb hentry start]

omit [AddMonoid A] in
theorem mem_walkDesc {start num : ℕ} {slot : σ} :
    (num, slot) ∈ tree.walkDesc start ↔ tree.get? num = some slot ∧ num ≤ start := by
  rw [← mem_entries hb, walkDesc_eq hb, List.mem_reverse, List.mem_filter, decide_eq_true_eq]

/-! ### Sound trees -/

omit [NeZero b] hb in
theorem sound_empty : Sound measure (⟨none⟩ : RadixTree b σ A) := by
  rintro root ⟨⟩

omit hb in
theorem sound_raise {level : ℕ} {node : Radix b σ A level}
    (hsound : Radix.Sound measure level node 0) (levels : ℕ) :
    Radix.Sound measure (level + levels) (raise node levels) 0 := by
  induction levels with
  | zero => exact hsound
  | succ levels ih =>
    refine Radix.sound_branchOf fun high child hget ↦ ?_
    rw [FiniteMap.get?_insert] at hget
    split_ifs at hget with hhigh
    · obtain rfl := Option.some.inj hget
      simpa [hhigh] using ih
    · simp at hget

omit hb in
theorem Sound.set (hsound : tree.Sound measure) (num : ℕ) (slot : σ) :
    (tree.set measure num slot).Sound measure := by
  obtain ⟨root⟩ := tree
  cases root with
  | none =>
    rintro root ⟨⟩
    exact (Radix.sound_blank ..).set ..
  | some root =>
    rintro _ ⟨⟩
    exact (sound_raise (hsound root rfl) _).set ..

variable (measure) in
omit hb in
/-- Shrinking stops at a node or goes on at its first child, which has as many slots. -/
theorem shrink_succ (level : ℕ) (node : Radix b σ A (level + 1)) :
    shrink measure (level + 1) node = ⟨level + 1, node⟩ ∨
      ∃ child, node.children.get? 0 = some child ∧
      measure.count (Fork.summary node) = measure.count (Radix.summary level child) ∧
      shrink measure (level + 1) node = shrink measure level child := by
  cases hchild : node.children.get? 0 with
  | none =>
    left
    simp only [shrink, hchild]
  | some child =>
    by_cases hcount : measure.count (Fork.summary node) = measure.count (Radix.summary level child)
    · right
      refine ⟨child, rfl, hcount, ?_⟩
      simp only [shrink, hchild, hcount, if_true]
    · left
      simp only [shrink, hchild, hcount, if_false]

omit hb in
theorem sound_shrink {level : ℕ} {node : Radix b σ A level}
    (hsound : Radix.Sound measure level node 0) :
    Radix.Sound measure (shrink measure level node).1 (shrink measure level node).2 0 := by
  induction level with
  | zero => exact hsound
  | succ level ih =>
    rcases shrink_succ measure level node with hstay | ⟨child, hchild, -, hdown⟩
    · rw [hstay]
      exact hsound
    · rw [hdown]
      refine ih ?_
      simpa using hsound.2 _ _ hchild

omit hb in
/-- A child with as many slots as its node has all of them. -/
theorem get?_of_count_eq {level : ℕ} {node : Radix b σ A (level + 1)} {child : Radix b σ A level}
    (hsound : Radix.Sound measure (level + 1) node 0) (hchild : node.children.get? 0 = some child)
    (hcount : measure.count (Fork.summary node) = measure.count (Radix.summary level child))
    {num : ℕ} (hdigit : Radix.digit b (level + 1) num ≠ 0) :
    Radix.get? (level + 1) node num = none := by
  have hlength : (Radix.entries (level + 1) node 0).length =
      (Radix.entries level child (0 + (0 : Fin b) * b ^ (level + 1))).length := by
    rw [← hsound.count_eq, ← (hsound.2 _ _ hchild).count_eq]
    exact hcount
  -- the other children add nothing to the length
  obtain ⟨before, after, hsplit⟩ := List.append_of_mem ((FiniteMap.mem_entries ..).mpr hchild)
  rw [Radix.entries, hsplit, List.flatMap_append, List.flatMap_cons, List.length_append,
    List.length_append] at hlength
  have hothers : ((before ++ after).flatMap fun entry ↦
      Radix.entries level entry.2 (0 + entry.1 * b ^ (level + 1))) = [] := by
    rw [List.flatMap_append, ← List.length_eq_zero_iff, List.length_append]
    dsimp only at hlength
    omega
  rw [Radix.get?, Option.bind_eq_none_iff]
  intro found hfound
  have hentry : (Radix.digit b (level + 1) num, found) ∈ before ++ after := by
    have hmem := (FiniteMap.mem_entries ..).mpr hfound
    rw [hsplit] at hmem
    simp only [List.mem_append, List.mem_cons, Prod.mk.injEq, hdigit, false_and, false_or] at hmem
    exact List.mem_append.mpr hmem
  refine (hsound.2 _ _ hfound).get?_of_count ?_ num
  rw [(hsound.2 _ _ hfound).count_eq, List.flatMap_eq_nil_iff.mp hothers _ hentry, List.length_nil]

/-- A node that shrinks loses nothing. -/
theorem get?_shrink {level : ℕ} {node : Radix b σ A level}
    (hsound : Radix.Sound measure level node 0) (num : ℕ) :
    get? ⟨some (shrink measure level node)⟩ num = get? ⟨some ⟨level, node⟩⟩ num := by
  induction level with
  | zero => rfl
  | succ level ih =>
    rcases shrink_succ measure level node with hstay | ⟨child, hchild, hcount, hdown⟩
    · rw [hstay]
    · have hbelow : Radix.Sound measure level child 0 := by simpa using hsound.2 _ _ hchild
      rw [hdown, ih hbelow]
      simp only [get?, Option.elim_some]
      by_cases hlow : Nat.log b num ≤ level
      · have hdigit : Radix.digit b (level + 1) num = 0 := by
          rw [Radix.digit, Nat.div_eq_of_lt ((log_le_iff hb).mp hlow)]
          rfl
        rw [if_neg (not_lt.mpr hlow), if_neg (by omega), Radix.get?, hdigit, hchild]
        rfl
      · rw [if_pos (not_le.mp hlow)]
        split_ifs with hhigh
        · rfl
        · refine (get?_of_count_eq hsound hchild hcount fun hdigit ↦ hlow ?_).symm
          have hmod := Radix.digit_mul_add_mod (b := b) (level + 1) num
          rw [hdigit, Nat.mod_eq_of_lt ((log_le_iff hb).mp (not_lt.mp hhigh))] at hmod
          rw [log_le_iff hb, ← hmod]
          simpa using Nat.mod_lt num (Nat.pow_pos (Nat.pos_of_neZero b))

/-- What removing a slot does to a tree. -/
theorem remove_eq_some {tree rest : RadixTree b σ A} {num : ℕ} (hsound : tree.Sound measure)
    (hremove : tree.remove measure num = some rest) :
    rest.Sound measure ∧
      ∀ other, rest.get? other = if other = num then none else tree.get? other := by
  obtain ⟨root⟩ := tree
  cases root with
  | none => simp [remove] at hremove
  | some root =>
    simp only [remove, Option.elim_some] at hremove
    split_ifs at hremove with hhigh
    obtain ⟨node, hnode, rfl⟩ := Option.map_eq_some_iff.mp hremove
    have hroot := hsound root rfl
    have hrest := hroot.remove hnode
    have hnum := (log_le_iff hb).mp (not_lt.mp hhigh)
    have hget : ∀ other, get? ⟨some ⟨root.1, node⟩⟩ other =
        if other = num then none else get? ⟨some root⟩ other := by
      intro other
      simp only [get?, Option.elim_some]
      by_cases hbeyond : root.1 < Nat.log b other
      · simp [hbeyond]
      · rw [if_neg hbeyond, if_neg hbeyond, Radix.get?_remove hroot hnode,
          Nat.mod_eq_of_lt hnum, Nat.mod_eq_of_lt ((log_le_iff hb).mp (not_lt.mp hbeyond))]
    split_ifs with hempty
    · refine ⟨sound_empty, fun other ↦ ?_⟩
      rw [← hget]
      simp [get?, hrest.get?_of_count hempty]
    · refine ⟨?_, fun other ↦ (get?_shrink hb hrest other).trans (hget other)⟩
      rintro _ ⟨⟩
      exact sound_shrink hrest

omit hb in
theorem remove_eq_none {num : ℕ} :
    tree.remove measure num = none ↔ tree.get? num = none := by
  obtain ⟨root⟩ := tree
  cases root with
  | none => simp [remove, get?]
  | some root =>
    simp only [remove, get?, Option.elim_some]
    split_ifs
    · simp
    · rw [Option.map_eq_none_iff, Radix.remove_eq_none]

omit [NeZero b] hb in
theorem Sound.summary_eq (hsound : tree.Sound measure) :
    tree.summary = (tree.entries.map fun entry ↦ measure.weigh entry.1 entry.2).sum := by
  obtain ⟨root⟩ := tree
  cases root with
  | none => rfl
  | some root => exact (hsound root rfl).summary_eq

/-- The summary up to a number is the sum over the slots up to it. -/
theorem Sound.prefixSummary_eq (hsound : tree.Sound measure)
    (through : ℕ) :
    tree.prefixSummary measure through =
      ((tree.entries.filter fun entry ↦ decide (entry.1 ≤ through)).map
        fun entry ↦ measure.weigh entry.1 entry.2).sum := by
  obtain ⟨root⟩ := tree
  cases root with
  | none => rfl
  | some root =>
    simp only [prefixSummary, entries, Option.elim_some, (hsound root rfl).prefixSummary_eq]
    congr 2
    refine List.filter_congr fun entry hentry ↦ upTo_eq hb hentry through

variable {enter : A → Bool} {keep : σ → Bool}

/-- A pruned walk passes the slots of its sort up to its start, in descending order. -/
theorem Sound.walkPruned_eq (henter : measure.Shows enter keep) (hsound : tree.Sound measure)
    (hnamed : ∀ num slot, tree.get? num = some slot → keep slot = true → num ≠ 0) (start : ℕ) :
    tree.walkPruned enter keep start =
      ((tree.entries.filter fun entry ↦ decide (entry.1 ≤ start)).filter
        fun entry ↦ keep entry.2).reverse := by
  have hnames : ∀ entry ∈ tree.entries, keep entry.2 = true → entry.1 ≠ 0 := fun entry hentry ↦
    hnamed entry.1 entry.2 ((mem_entries hb).mp hentry)
  obtain ⟨root⟩ := tree
  cases root with
  | none => rfl
  | some root =>
    have hwalk := (hsound root rfl).walkPruned_eq henter start
      (decide (Nat.log b start ≤ root.1)) hnames fun _ ↦ by
        rw [Nat.zero_add]
        exact Nat.mod_le _ _
    simp only [entries, walkPruned, Option.elim_some, hwalk]
    rw [List.filter_congr fun entry hentry ↦ upTo_eq hb hentry start]

theorem Sound.mem_walkPruned (henter : measure.Shows enter keep) (hsound : tree.Sound measure)
    (hnamed : ∀ num slot, tree.get? num = some slot → keep slot = true → num ≠ 0)
    {start num : ℕ} {slot : σ} :
    (num, slot) ∈ tree.walkPruned enter keep start ↔
      tree.get? num = some slot ∧ keep slot = true ∧ num ≤ start := by
  rw [hsound.walkPruned_eq hb henter hnamed, ← mem_entries hb, List.mem_reverse, List.mem_filter,
    List.mem_filter, decide_eq_true_eq, and_assoc, and_comm (a := num ≤ start)]

end Updates

end RadixTree

end MoreConsensus.Library
