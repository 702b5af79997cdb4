import Mathlib

/-!
# Finite maps with ordered keys

A finite map is a list of entries whose keys increase strictly, so that a key has at most one value
and the enumeration of the keys is canonical. `get?` is the only observation the rest of a
development needs: `get?_insert` and `get?_erase` say what an update does to it, and `mem_entries`
that enumerating the entries and looking a key up are the same thing.
-/

set_option autoImplicit false

namespace MoreConsensus.Library

/-- A finite map: entries in the strict order of their keys. -/
structure FiniteMap (κ α : Type) [LinearOrder κ] where
  entries : List (κ × α)
  sorted : entries.Pairwise fun first second ↦ first.1 < second.1

namespace FiniteMap

variable {κ α β : Type} [LinearOrder κ]

/-- The value of a key in a list of entries. -/
def lookupEntry (key : κ) : List (κ × α) → Option α
  | [] => none
  | (other, value) :: rest => if key = other then some value else lookupEntry key rest

/-- Ordered insertion, replacing the value of a key that is present. -/
def insertEntry (key : κ) (value : α) : List (κ × α) → List (κ × α)
  | [] => [(key, value)]
  | (other, previous) :: rest =>
    if key < other then (key, value) :: (other, previous) :: rest
    else if key = other then (key, value) :: rest
    else (other, previous) :: insertEntry key value rest

variable {key : κ} {map : FiniteMap κ α}

theorem mem_insertEntry {value : α} {entry : κ × α} {entries : List (κ × α)}
    (hentry : entry ∈ insertEntry key value entries) : entry = (key, value) ∨ entry ∈ entries := by
  induction entries with
  | nil => exact Or.inl (List.mem_singleton.mp hentry)
  | cons head rest ih =>
    obtain ⟨other, previous⟩ := head
    simp only [insertEntry] at hentry
    split_ifs at hentry with hless hequal
    · exact List.mem_cons.mp hentry
    · rcases List.mem_cons.mp hentry with hnew | hold
      · exact Or.inl hnew
      · exact Or.inr (List.mem_cons_of_mem _ hold)
    · rcases List.mem_cons.mp hentry with hhead | htail
      · exact Or.inr (hhead ▸ List.mem_cons_self ..)
      · exact (ih htail).imp_right (List.mem_cons_of_mem _)

theorem pairwise_insertEntry (key : κ) (value : α) {entries : List (κ × α)}
    (hsorted : entries.Pairwise fun first second ↦ first.1 < second.1) :
    (insertEntry key value entries).Pairwise fun first second ↦ first.1 < second.1 := by
  induction entries with
  | nil => exact List.pairwise_singleton _ _
  | cons head rest ih =>
    obtain ⟨other, previous⟩ := head
    obtain ⟨hhead, hrest⟩ := List.pairwise_cons.mp hsorted
    simp only [insertEntry]
    split_ifs with hless hequal
    · refine List.pairwise_cons.mpr ⟨fun entry hentry ↦ ?_, hsorted⟩
      rcases List.mem_cons.mp hentry with hfirst | hlater
      · exact hfirst ▸ hless
      · exact hless.trans (hhead entry hlater)
    · exact List.pairwise_cons.mpr ⟨fun entry hentry ↦ hequal ▸ hhead entry hentry, hrest⟩
    · refine List.pairwise_cons.mpr ⟨fun entry hentry ↦ ?_, ih hrest⟩
      rcases mem_insertEntry hentry with hnew | hold
      · exact hnew ▸ lt_of_le_of_ne (not_lt.mp hless) (Ne.symm hequal)
      · exact hhead entry hold

theorem lookupEntry_insertEntry (key other : κ) (value : α) (entries : List (κ × α)) :
    lookupEntry other (insertEntry key value entries) =
      if other = key then some value else lookupEntry other entries := by
  induction entries with
  | nil => simp only [insertEntry, lookupEntry]
  | cons head rest ih =>
    obtain ⟨present, previous⟩ := head
    by_cases hkey : other = key
    · subst hkey
      rw [if_pos rfl] at ih ⊢
      simp only [insertEntry]
      split_ifs with hless hequal
      · simp [lookupEntry]
      · simp [lookupEntry]
      · simp [lookupEntry, hequal, ih]
    · rw [if_neg hkey] at ih ⊢
      simp only [insertEntry]
      split_ifs with hless hequal
      · simp [lookupEntry, hkey]
      · subst hequal
        simp [lookupEntry, hkey]
      · simp [lookupEntry, ih]

/-- The empty map. -/
def empty : FiniteMap κ α := ⟨[], List.Pairwise.nil⟩

/-- The value of a key. -/
def get? (map : FiniteMap κ α) (key : κ) : Option α := lookupEntry key map.entries

/-- The map with the value of one key set. -/
def insert (map : FiniteMap κ α) (key : κ) (value : α) : FiniteMap κ α :=
  ⟨insertEntry key value map.entries, pairwise_insertEntry key value map.sorted⟩

/-- The map without one key. -/
def erase (map : FiniteMap κ α) (key : κ) : FiniteMap κ α :=
  ⟨map.entries.filter fun entry ↦ !decide (entry.1 = key), map.sorted.filter _⟩

/-- The map with a function applied to every value. -/
def mapValues (f : α → β) (map : FiniteMap κ α) : FiniteMap κ β :=
  ⟨map.entries.map fun entry ↦ (entry.1, f entry.2), by
    rw [List.pairwise_map]
    exact map.sorted⟩

/-- The keys of a map, in order. -/
def keys (map : FiniteMap κ α) : List κ := map.entries.map Prod.fst

/-- Whether a key has a value. -/
def contains (map : FiniteMap κ α) (key : κ) : Bool := (map.get? key).isSome

instance : EmptyCollection (FiniteMap κ α) := ⟨empty⟩

instance : Inhabited (FiniteMap κ α) := ⟨empty⟩

@[simp] theorem get?_empty (key : κ) : (empty : FiniteMap κ α).get? key = none := rfl

@[simp] theorem get?_emptyCollection (key : κ) : (∅ : FiniteMap κ α).get? key = none := rfl

theorem get?_insert (map : FiniteMap κ α) (key other : κ) (value : α) :
    (map.insert key value).get? other = if other = key then some value else map.get? other :=
  lookupEntry_insertEntry key other value map.entries

@[simp] theorem get?_insert_self (map : FiniteMap κ α) (key : κ) (value : α) :
    (map.insert key value).get? key = some value := by
  rw [get?_insert, if_pos rfl]

theorem get?_insert_of_ne (map : FiniteMap κ α) {other : κ} (value : α)
    (hne : other ≠ key) : (map.insert key value).get? other = map.get? other := by
  rw [get?_insert, if_neg hne]

theorem get?_erase (map : FiniteMap κ α) (key other : κ) :
    (map.erase key).get? other = if other = key then none else map.get? other := by
  obtain ⟨entries, hsorted⟩ := map
  simp only [get?, erase]
  clear hsorted
  induction entries with
  | nil => simp [lookupEntry]
  | cons head rest ih =>
    obtain ⟨present, value⟩ := head
    by_cases hpresent : present = key
    · subst hpresent
      rw [List.filter_cons_of_neg (by simp), ih]
      by_cases hother : other = present <;> simp [lookupEntry, hother]
    · rw [List.filter_cons_of_pos (by simpa using hpresent)]
      simp only [lookupEntry, ih]
      by_cases hother : other = present
      · simp [hother, hpresent]
      · simp [hother]

/-- An entry of a map is a key together with its value. -/
theorem mem_entries (map : FiniteMap κ α) (key : κ) (value : α) :
    (key, value) ∈ map.entries ↔ map.get? key = some value := by
  obtain ⟨entries, hsorted⟩ := map
  simp only [get?]
  induction entries with
  | nil => simp [lookupEntry]
  | cons head rest ih =>
    obtain ⟨present, first⟩ := head
    obtain ⟨hhead, hrest⟩ := List.pairwise_cons.mp hsorted
    by_cases hkey : key = present
    · subst hkey
      have hlater : (key, value) ∉ rest := fun hmem ↦ lt_irrefl key (hhead (key, value) hmem)
      simp [lookupEntry, hlater, eq_comm]
    · simp [lookupEntry, hkey, ih hrest]

theorem mem_keys (map : FiniteMap κ α) (key : κ) :
    key ∈ map.keys ↔ ∃ value, map.get? key = some value := by
  simp only [keys, List.mem_map, Prod.exists, exists_and_right, exists_eq_right, mem_entries]

theorem contains_iff_mem_keys :
    map.contains key = true ↔ key ∈ map.keys := by
  rw [mem_keys, contains, Option.isSome_iff_exists]

theorem nodup_keys (map : FiniteMap κ α) : map.keys.Nodup := by
  rw [keys, List.nodup_iff_pairwise_ne, List.pairwise_map]
  exact map.sorted.imp fun hless ↦ hless.ne

/-- Maps with the same values are equal. -/
theorem ext {other : FiniteMap κ α} (hget : ∀ key, map.get? key = other.get? key) :
    map = other := by
  have hmem : ∀ entry, entry ∈ map.entries ↔ entry ∈ other.entries := by
    rintro ⟨key, value⟩
    rw [mem_entries, mem_entries, hget]
  have hnodup : ∀ m : FiniteMap κ α, m.entries.Nodup := fun m ↦
    List.Nodup.of_map Prod.fst m.nodup_keys
  have hperm := (List.perm_ext_iff_of_nodup (hnodup map) (hnodup other)).mpr hmem
  have hentries := hperm.eq_of_pairwise (fun a b _ _ hab hba ↦ absurd hba hab.asymm)
    map.sorted other.sorted
  obtain ⟨entries, hsorted⟩ := map
  obtain ⟨entries', hsorted'⟩ := other
  subst hentries
  rfl

/-- The last of two values of one key stays. -/
theorem insert_insert (map : FiniteMap κ α) (key : κ) (value value' : α) :
    (map.insert key value).insert key value' = map.insert key value' := by
  refine ext fun probe ↦ ?_
  simp only [get?_insert]
  by_cases hkey : probe = key
  · rw [if_pos hkey, if_pos hkey]
  · rw [if_neg hkey, if_neg hkey, if_neg hkey]

theorem insert_of_get? {value : α}
    (hget : map.get? key = some value) : map.insert key value = map := by
  refine ext fun other ↦ ?_
  rw [get?_insert]
  split
  · rename_i hother
    rw [hother, hget]
  · rfl

theorem get?_foldl_erase (entries : List (κ × α)) (map : FiniteMap κ α) (key : κ) :
    (entries.foldl (fun map entry ↦ map.erase entry.1) map).get? key =
      if key ∈ entries.map Prod.fst then none else map.get? key := by
  induction entries generalizing map with
  | nil => rfl
  | cons entry entries ih =>
    rw [List.foldl_cons, ih, get?_erase]
    by_cases hkey : key = entry.1
    · simp [hkey]
    · simp only [List.map_cons, List.mem_cons, hkey, if_false, false_or]

/-- The entries of some keys erased. -/
theorem get?_eraseSelected (map : FiniteMap κ α) (select : κ → Bool) (key : κ) :
    ((map.entries.filter fun entry ↦ select entry.1).foldl (fun map entry ↦ map.erase entry.1)
      map).get? key = if select key then none else map.get? key := by
  rw [get?_foldl_erase]
  cases hget : map.get? key with
  | none => rw [ite_self, ite_self]
  | some value =>
    refine if_congr ?_ rfl rfl
    simp [mem_entries, hget]

/-! ### Totals -/

/-- The sum of a weight of the values. -/
def total (weight : α → ℕ) (map : FiniteMap κ α) : ℕ :=
  (map.entries.map fun entry ↦ weight entry.2).sum

@[simp] theorem total_emptyCollection (weight : α → ℕ) :
    (∅ : FiniteMap κ α).total weight = 0 := rfl

/-- An insertion adds the weight of the new value and takes away that of the old one. -/
theorem total_insert (weight : α → ℕ) (map : FiniteMap κ α) (key : κ) (value : α) :
    (map.insert key value).total weight + ((map.get? key).elim 0 weight) =
      map.total weight + weight value := by
  obtain ⟨entries, hsorted⟩ := map
  simp only [insert, total, get?]
  induction entries with
  | nil => simp [insertEntry, lookupEntry]
  | cons head rest ih =>
    obtain ⟨other, previous⟩ := head
    obtain ⟨hhead, hrest⟩ := List.pairwise_cons.mp hsorted
    have hlater := ih hrest
    simp only [insertEntry]
    split_ifs with hless hequal
    · -- the key comes before every entry, so it has no value yet
      have habsent : lookupEntry key ((other, previous) :: rest) = none := by
        refine Option.eq_none_iff_forall_not_mem.mpr fun found hfound ↦ ?_
        have hmem := (mem_entries ⟨_, hsorted⟩ key found).mpr hfound
        rcases List.mem_cons.mp hmem with heq | hin
        · exact hless.ne (congrArg Prod.fst heq)
        · exact lt_asymm hless (hhead _ hin)
      rw [habsent]
      simp only [List.map_cons, List.sum_cons, Option.elim_none]
      omega
    · simp only [lookupEntry, if_pos hequal, List.map_cons, List.sum_cons, Option.elim_some]
      omega
    · simp only [lookupEntry, if_neg hequal, List.map_cons, List.sum_cons]
      omega

theorem total_erase (weight : α → ℕ) (map : FiniteMap κ α) (key : κ) :
    (map.erase key).total weight + ((map.get? key).elim 0 weight) = map.total weight := by
  obtain ⟨entries, hsorted⟩ := map
  simp only [erase, total, get?]
  induction entries with
  | nil => simp [lookupEntry]
  | cons head rest ih =>
    obtain ⟨other, previous⟩ := head
    obtain ⟨hhead, hrest⟩ := List.pairwise_cons.mp hsorted
    have hlater := ih hrest
    by_cases hequal : key = other
    · subst hequal
      have hkept : rest.filter (fun entry ↦ !decide (entry.1 = key)) = rest :=
        List.filter_eq_self.mpr fun entry hentry ↦ by simpa using (hhead entry hentry).ne'
      rw [List.filter_cons_of_neg (by simp), hkept]
      simp only [lookupEntry, if_pos, List.map_cons, List.sum_cons, Option.elim_some]
      omega
    · rw [List.filter_cons_of_pos (by simpa using fun heq : other = key ↦ hequal heq.symm)]
      simp only [lookupEntry, if_neg hequal, List.map_cons, List.sum_cons]
      omega

end FiniteMap

end MoreConsensus.Library
