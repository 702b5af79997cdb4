import MoreConsensus.KV.ApplyReady
import MoreConsensus.Library.Canonical

/-!
# Reads of the store

`GetWithBounds` and `Scan` of `examples/kv/kv.go` iterate over the versions in a range of the data
region. What was written is a set of versions of user keys (`Written`). A scan returns the newest
version inside the bounds of every key in its range, when it is a put
(`Written.scanWithBounds_exact`). A point read iterates over all keys that extend its own and
stops at the first version that is not too new. It is exact as long as that version is not one of a
longer key that it returns (`Written.getWithBounds_exact`, `getWithBounds_longer_key`).
-/

set_option autoImplicit false

namespace MoreConsensus.KV

open Library

/-! ### Timestamp bounds -/

namespace TimestampBounds

/-- The timestamps that the bounds stand for. -/
def Inside (b : TimestampBounds) (ts : UInt64) : Prop :=
  match b.mode with
  | .latest => True
  | .atOrBefore => ts ≤ b.max
  | .within | .exact => b.min ≤ ts ∧ ts ≤ b.max
  | .empty => False

end TimestampBounds

def timestampAtOrBefore (maxTS : UInt64) : TimestampBounds := { mode := .atOrBefore, max := maxTS }

namespace TimestampBounds

variable {b : TimestampBounds} {ts later : UInt64}

theorem classify_eq_visible : b.classify ts = .visible ↔ b.Inside ts := by
  unfold classify Inside
  cases b.mode with
  | latest => exact iff_of_true rfl trivial
  | atOrBefore =>
    simp only [← UInt64.not_lt]
    split_ifs with hnew <;> simp [hnew]
  | within | exact =>
    simp only [← UInt64.not_lt]
    split_ifs with hnew hold
    · simp [hnew]
    · simp [hold]
    · simp [hnew, hold]
  | empty => simp

/-- What is newer than something inside is inside or too new. -/
theorem inside_of_lt (hinside : b.Inside ts) (hlt : ts < later)
    (hnew : b.classify later ≠ .tooNew) :
    b.Inside later := by
  unfold classify at hnew
  unfold Inside at hinside ⊢
  cases hmode : b.mode with
  | latest => trivial
  | atOrBefore =>
    simp only [hmode] at hnew ⊢
    by_contra hle
    exact hnew (if_pos (UInt64.not_le.mp hle))
  | within | exact =>
    simp only [hmode] at hnew hinside ⊢
    refine ⟨UInt64.le_trans hinside.1 (UInt64.le_of_lt hlt), ?_⟩
    by_contra hle
    exact hnew (if_pos (UInt64.not_le.mp hle))
  | empty => simp [hmode] at hinside

theorem tooNew_of_seekUpper {maxTS : UInt64} (hseek : b.seekUpper = some maxTS) (hlt : maxTS < ts) :
    b.classify ts = .tooNew := by
  unfold seekUpper at hseek
  unfold classify
  cases hmode : b.mode with
  | latest | empty => simp [hmode] at hseek
  | atOrBefore | within | exact =>
    obtain rfl : b.max = maxTS := by simpa [hmode] using hseek
    exact if_pos hlt

end TimestampBounds

/-! ### What was written -/

inductive Version
  | put (value : Bytes)
  | tombstone
  deriving DecidableEq, Repr

/-- The versions of the user keys. -/
abbrev Versions := Bytes → UInt64 → Option Version

namespace Version

def encode : Version → Bytes
  | put value => valueRecord :: value
  | tombstone => [deleteRecord]

theorem encode_injective : Function.Injective encode := by
  rintro (value | _) (value' | _) heq
  · rw [(List.cons.inj heq).2]
  · exact absurd (List.cons.inj heq).1 (by decide)
  · exact absurd (List.cons.inj heq).1 (by decide)
  · rfl

/-- What a point read returns for a version. -/
def answer : Version → Bool × Bytes
  | put value => (true, value)
  | tombstone => (false, [])

/-- The version that an operation writes. -/
def ofOp (op : TxnOp) : Version := if op.delete then tombstone else put op.value

end Version

def Versions.write (versions : Versions) (ts : UInt64) (op : TxnOp) : Versions :=
  Function.update versions op.key (Function.update (versions op.key) ts (some (.ofOp op)))

/-- Contents that were written version by version: by `PutVersion` and `DeleteVersion`, and by the
operations of committed commands. -/
inductive Written : FiniteMap StoreKey Bytes → Versions → Prop
  | empty : Written ∅ fun _ _ ↦ none
  | write {data versions} (hwritten : Written data versions) (ts : UInt64) (op : TxnOp)
      (hkey : validateKey op.key = true) :
      Written (data.insert (stageOp ts op).1 (stageOp ts op).2) (versions.write ts op)

theorem stageOp_eq (ts : UInt64) (op : TxnOp) :
    stageOp ts op = (⟨encodeDataKey op.key ts⟩, (Version.ofOp op).encode) := by
  unfold stageOp Version.ofOp
  split_ifs <;> rfl

theorem encodeDataKey_inj {user other : Bytes} {ts ts' : UInt64} :
    encodeDataKey user ts = encodeDataKey other ts' ↔ user = other ∧ ts = ts' := by
  refine ⟨fun heq ↦ ?_, fun ⟨huser, hts⟩ ↦ huser ▸ hts ▸ rfl⟩
  have hdecode := congrArg decodeDataKey heq
  rw [decodeDataKey_encodeDataKey, decodeDataKey_encodeDataKey] at hdecode
  exact Prod.mk.inj (Option.some.inj hdecode)

namespace Written

variable {data : FiniteMap StoreKey Bytes} {versions : Versions}

section

variable (hwritten : Written data versions)

include hwritten

/-- The entry under the key of a version. -/
theorem get?_encodeDataKey (user : Bytes) (ts : UInt64) :
    data.get? ⟨encodeDataKey user ts⟩ = (versions user ts).map Version.encode := by
  induction hwritten with
  | empty => rfl
  | write _ stamp op _ ih =>
    rw [stageOp_eq, FiniteMap.get?_insert, ih, Versions.write]
    simp only [StoreKey.mk.injEq, encodeDataKey_inj]
    by_cases huser : user = op.key
    · subst huser
      by_cases hts : ts = stamp <;> simp [hts]
    · simp [huser]

/-- Every entry is a version of a valid key. -/
theorem exists_of_get? {key : StoreKey} {value : Bytes}
    (hget : data.get? key = some value) :
    ∃ user ts, validateKey user = true ∧ key = ⟨encodeDataKey user ts⟩ := by
  induction hwritten with
  | empty => cases hget
  | write _ stamp op hkey ih =>
    rw [stageOp_eq, FiniteMap.get?_insert] at hget
    split_ifs at hget with heq
    · exact ⟨op.key, stamp, hkey, heq⟩
    · exact ih hget

theorem validateKey_of_some {user : Bytes} {ts : UInt64}
    {version : Version} (hsome : versions user ts = some version) : validateKey user = true := by
  have hget := hwritten.get?_encodeDataKey user ts
  rw [hsome, Option.map_some] at hget
  obtain ⟨other, stamp, hvalid, hsame⟩ := hwritten.exists_of_get? hget
  obtain ⟨rfl, -⟩ := encodeDataKey_inj.mp (StoreKey.mk.inj hsame)
  exact hvalid

end

end Written

/-- One version of a user key. -/
structure Stored where
  user : Bytes
  ts : UInt64
  version : Version

def Stored.entry (stored : Stored) : StoreKey × Bytes :=
  (⟨encodeDataKey stored.user stored.ts⟩, stored.version.encode)

/-- The order of the versions in the data region. -/
def Stored.Before (stored next : Stored) : Prop :=
  stored.user < next.user ∨ stored.user = next.user ∧ next.ts < stored.ts

theorem Stored.entry_injective : Function.Injective Stored.entry := by
  rintro ⟨user, ts, version⟩ ⟨user', ts', version'⟩ heq
  obtain ⟨hkey, hvalue⟩ := Prod.mk.inj heq
  obtain ⟨rfl, rfl⟩ := encodeDataKey_inj.mp (StoreKey.mk.inj hkey)
  obtain rfl : version = version' := Version.encode_injective hvalue
  rfl

namespace Written

variable {data : FiniteMap StoreKey Bytes} {versions : Versions}

/-- An iteration passes the versions in its range, in order. -/
theorem exists_rows (hwritten : Written data versions) (lower : Bytes) (upper : Option Bytes) :
    ∃ rows : List Stored, iterate data lower upper = rows.map Stored.entry ∧
      rows.Pairwise Stored.Before ∧ ∀ stored, stored ∈ rows ↔
        versions stored.user stored.ts = some stored.version ∧
          inRange lower upper ⟨encodeDataKey stored.user stored.ts⟩ = true := by
  have hmem : ∀ stored : Stored, stored.entry ∈ data.entries ↔
      versions stored.user stored.ts = some stored.version := fun stored ↦ by
    rw [Stored.entry, FiniteMap.mem_entries, hwritten.get?_encodeDataKey, Option.map_eq_some_iff]
    simp [Version.encode_injective.eq_iff]
  have hentries : ∀ entry ∈ iterate data lower upper, entry ∈ Set.range Stored.entry := by
    rintro ⟨key, value⟩ hentry
    have hget := (data.mem_entries key value).mp (List.mem_filter.mp hentry).1
    obtain ⟨user, ts, -, rfl⟩ := hwritten.exists_of_get? hget
    rw [hwritten.get?_encodeDataKey, Option.map_eq_some_iff] at hget
    obtain ⟨version, -, rfl⟩ := hget
    exact ⟨⟨user, ts, version⟩, rfl⟩
  obtain ⟨rows, hrows⟩ : iterate data lower upper ∈ Set.range (List.map Stored.entry) := by
    rw [Set.range_list_map]
    exact hentries
  have hrow : ∀ stored, stored ∈ rows ↔ versions stored.user stored.ts = some stored.version ∧
      inRange lower upper ⟨encodeDataKey stored.user stored.ts⟩ = true := fun stored ↦ by
    rw [← List.mem_map_of_injective Stored.entry_injective, hrows, iterate, List.mem_filter, hmem]
    rfl
  have hplain : ∀ stored ∈ rows, (0 : UInt8) ∉ stored.user := fun stored hstored ↦
    not_mem_zero (hwritten.validateKey_of_some ((hrow stored).mp hstored).1)
  refine ⟨rows, hrows.symm, ?_, hrow⟩
  have hsorted : (iterate data lower upper).Pairwise fun entry next ↦ entry.1 < next.1 :=
    data.sorted.filter _
  rw [← hrows, List.pairwise_map] at hsorted
  refine hsorted.imp_of_mem fun hfirst hnext hlt ↦ ?_
  exact (encodeDataKey_lt_iff (hplain _ hfirst) (hplain _ hnext)).mp hlt

end Written

variable {bounds : TimestampBounds} {rows : List Stored} {limit : ℕ}

/-! ### Point reads -/

/-- The loop stops at the first version that is not too new. -/
theorem getLoop_eq (bounds : TimestampBounds) (rows : List Stored) :
    getLoop bounds (rows.map Stored.entry) =
      match rows.find? fun stored ↦ bounds.classify stored.ts != .tooNew with
      | none => (false, [])
      | some stored =>
        if bounds.classify stored.ts = .visible then stored.version.answer else (false, []) := by
  induction rows with
  | nil => rfl
  | cons stored rows ih =>
    rw [List.map_cons, Stored.entry, getLoop, decodeDataKey_encodeDataKey]
    cases hclass : bounds.classify stored.ts with
    | tooNew =>
      rw [List.find?_cons_of_neg (by simp [hclass])]
      simp only [hclass]
      exact ih
    | tooOld =>
      rw [List.find?_cons_of_pos (by simp [hclass])]
      simp [hclass]
    | visible =>
      rw [List.find?_cons_of_pos (by simp [hclass])]
      cases hversion : stored.version with
      | put value => simp [hclass, hversion, Version.encode, Version.answer, valueRecord,
        deleteRecord]
      | tombstone => simp [hclass, hversion, Version.encode, Version.answer]

/-- Without a version inside the bounds nothing is found. -/
theorem getLoop_eq_of_empty (hempty : bounds.empty = true)
    (rows : List Stored) : getLoop bounds (rows.map Stored.entry) = (false, []) := by
  have hold : ∀ ts, bounds.classify ts ≠ .visible := fun ts ↦ by
    have hmode : bounds.mode = .empty := by simpa [TimestampBounds.empty] using hempty
    simp [TimestampBounds.classify, hmode]
  rw [getLoop_eq]
  split
  · rfl
  · exact if_neg (hold _)

variable {data : FiniteMap StoreKey Bytes} {key : Bytes} {out : List KVRow}

/-- The seek passes versions that are too new only. -/
theorem getWithBounds_eq
    (hkey : validateKey key = true) (hbounds : bounds.validate = true)
    (hrows : iterate data (encodeUserPrefix key) (prefixLimit (encodeUserPrefix key)) =
      rows.map Stored.entry)
    (hplain : ∀ stored ∈ rows, (0 : UInt8) ∉ stored.user ∧ key ≤ stored.user) :
    getWithBounds data key bounds = .ok (getLoop bounds (rows.map Stored.entry)) := by
  unfold getWithBounds
  simp only [hkey, hbounds, hrows, Bool.not_true, Bool.false_eq_true, if_false]
  split_ifs with hempty
  · rw [getLoop_eq_of_empty hempty]
  · cases hseek : bounds.seekUpper with
    | none => rfl
    | some maxTS =>
      dsimp only
      rw [List.dropWhile_map, getLoop_eq, getLoop_eq, find?_dropWhile]
      intro stored hstored hpassed
      obtain ⟨hzero, hle⟩ := hplain stored hstored
      have hlt : (⟨encodeDataKey stored.user stored.ts⟩ : StoreKey) < ⟨encodeDataKey key maxTS⟩ :=
        StoreKey.lt_iff.mpr hpassed
      rcases (encodeDataKey_lt_iff hzero (not_mem_zero hkey)).mp hlt with hbelow | ⟨-, hnewer⟩
      · exact absurd hle (not_le.mpr hbelow)
      · simp [TimestampBounds.tooNew_of_seekUpper hseek hnewer]

/-- The versions of a key inside the bounds. -/
def Versions.inside (versions : Versions) (bounds : TimestampBounds) (key : Bytes) : Set UInt64 :=
  {ts | (versions key ts).isSome = true ∧ bounds.Inside ts}

/-- The version a point read stops at: the first one that is not too new, of the key or of a longer
key that extends it. -/
structure Versions.First (versions : Versions) (bounds : TimestampBounds) (key : Bytes)
    (stored : Stored) : Prop where
  user : key <+: stored.user
  version : versions stored.user stored.ts = some stored.version
  old : bounds.classify stored.ts ≠ .tooNew
  first : ∀ other : Stored, key <+: other.user → versions other.user other.ts = some other.version →
    bounds.classify other.ts ≠ .tooNew → stored = other ∨ stored.Before other

theorem Stored.Before.asymm {stored next : Stored} (hbefore : stored.Before next) :
    ¬ next.Before stored := by
  rcases hbefore with hless | ⟨hsame, hnewer⟩
  · rintro (hback | ⟨hback, -⟩)
    · exact lt_asymm hless hback
    · exact absurd hback hless.ne'
  · rintro (hback | ⟨-, hback⟩)
    · exact absurd hsame hback.ne'
    · exact absurd (UInt64.lt_trans hnewer hback) (UInt64.lt_irrefl _)

theorem le_of_isPrefix {user : Bytes} (hextends : key <+: user) : key ≤ user := by
  have hless := bytesLess_of_isPrefix hextends
  rwa [bytesLess_eq, decide_eq_false_iff_not, not_lt] at hless

section First

variable {versions : Versions} {found stored : Stored}

theorem Versions.First.unique (hfound : versions.First bounds key found)
    (hstored : versions.First bounds key stored) : stored = found := by
  rcases hstored.first found hfound.user hfound.version hfound.old with heq | hbefore
  · exact heq
  · rcases hfound.first stored hstored.user hstored.version hstored.old with heq | hafter
    · exact heq.symm
    · exact absurd hafter hbefore.asymm

/-- A version of the key inside the bounds is the one the read stops at, or that is a newer one of
the key. -/
theorem Versions.First.eq_or_newer (hfound : versions.First bounds key found) {ts : UInt64}
    {version : Version} (hsome : versions key ts = some version) (hinside : bounds.Inside ts) :
    found = ⟨key, ts, version⟩ ∨ found.user = key ∧ ts < found.ts := by
  have hold : bounds.classify ts ≠ .tooNew := by
    rw [TimestampBounds.classify_eq_visible.mpr hinside]
    decide
  refine (hfound.first ⟨key, ts, version⟩ List.prefix_rfl hsome hold).imp_right fun hbefore ↦ ?_
  exact hbefore.resolve_left (not_lt.mpr (le_of_isPrefix hfound.user))

/-- The read stops at the first version that is not too new, if there is one. -/
theorem Written.getWithBounds_stops (hwritten : Written data versions)
    (hkey : validateKey key = true) (hbounds : bounds.validate = true) :
    (∀ stored : Stored, key <+: stored.user →
        versions stored.user stored.ts = some stored.version →
          bounds.classify stored.ts = .tooNew) ∧ getWithBounds data key bounds = .ok (false, []) ∨
      ∃ found, versions.First bounds key found ∧ getWithBounds data key bounds =
        .ok (if bounds.classify found.ts =
          .visible then found.version.answer else (false, [])) := by
  obtain ⟨rows, hrows, hsorted, hmem⟩ :=
    hwritten.exists_rows (encodeUserPrefix key) (prefixLimit (encodeUserPrefix key))
  have hrow : ∀ stored : Stored, stored ∈ rows ↔
      versions stored.user stored.ts = some stored.version ∧ key <+: stored.user := fun stored ↦ by
    rw [hmem, ← isPrefix_iff_inRange, isPrefix_encodeDataKey_iff (not_mem_zero hkey)]
  have hplain : ∀ stored ∈ rows, (0 : UInt8) ∉ stored.user ∧ key ≤ stored.user := by
    intro stored hstored
    obtain ⟨hsome, hextends⟩ := (hrow stored).mp hstored
    exact ⟨not_mem_zero (hwritten.validateKey_of_some hsome), le_of_isPrefix hextends⟩
  rw [getWithBounds_eq hkey hbounds hrows hplain, getLoop_eq]
  cases hfind : rows.find? fun stored ↦ bounds.classify stored.ts != .tooNew with
  | none =>
    refine .inl ⟨fun stored hextends hsome ↦ ?_, rfl⟩
    simpa using List.find?_eq_none.mp hfind stored ((hrow stored).mpr ⟨hsome, hextends⟩)
  | some found =>
    obtain ⟨hsome, hextends⟩ := (hrow found).mp (List.mem_of_find?_eq_some hfind)
    refine .inr ⟨found, ⟨hextends, hsome, by simpa using List.find?_some hfind, ?_⟩, rfl⟩
    intro other hextends hsome hold
    exact eq_or_rel_of_find? hsorted hfind ((hrow other).mpr ⟨hsome, hextends⟩)
      (by simpa using hold)

/-- A read that stops at a version of the key returns the newest version inside the bounds. -/
theorem Versions.First.answers_own (hfound : versions.First bounds key found)
    (huser : found.user = key) :
    let answer := if bounds.classify found.ts = .visible then found.version.answer else (false, [])
    (∀ ts version, IsGreatest (versions.inside bounds key) ts → versions key ts = some version →
        answer = version.answer) ∧
      (versions.inside bounds key = ∅ → answer = (false, [])) := by
  have hinside : bounds.Inside found.ts → found.ts ∈ versions.inside bounds key := fun hinside ↦
    ⟨by rw [← huser, hfound.version]; rfl, hinside⟩
  refine ⟨fun ts version hgreatest hsome ↦ ?_, fun hnone ↦ if_neg fun hvisible ↦ ?_⟩
  · rcases hfound.eq_or_newer hsome hgreatest.1.2 with rfl | ⟨-, hnewer⟩
    · exact if_pos (TimestampBounds.classify_eq_visible.mpr hgreatest.1.2)
    · have hin := hinside (TimestampBounds.inside_of_lt hgreatest.1.2 hnewer hfound.old)
      exact absurd (hgreatest.2 hin) (UInt64.not_le.mpr hnewer)
  · exact hnone.le (hinside (TimestampBounds.classify_eq_visible.mp hvisible))

/-- A read that stops past the key found no version of it inside the bounds. -/
theorem Versions.First.inside_eq_empty (hfound : versions.First bounds key found)
    (huser : found.user ≠ key) : versions.inside bounds key = ∅ := by
  refine Set.eq_empty_of_forall_notMem fun ts hts ↦ ?_
  obtain ⟨version, hversion⟩ := Option.isSome_iff_exists.mp hts.1
  rcases hfound.eq_or_newer hversion hts.2 with rfl | ⟨hsame, -⟩
  · exact huser rfl
  · exact huser hsame

end First

/-- A point read returns the newest version inside the bounds when it is a put, and nothing when it
is a tombstone or there is none, exactly when the version it stops at is one of the key, a tombstone
or too old. Assumes: the key and the bounds are valid. -/
theorem Written.getWithBounds_exact {data : FiniteMap StoreKey Bytes} {versions : Versions}
    (hwritten : Written data versions) {key : Bytes} (hkey : validateKey key = true)
    {bounds : TimestampBounds} (hbounds : bounds.validate = true) :
    ((∀ ts version, IsGreatest (versions.inside bounds key) ts → versions key ts = some version →
        getWithBounds data key bounds = .ok version.answer) ∧
      (versions.inside bounds key = ∅ → getWithBounds data key bounds = .ok (false, []))) ↔
    ∀ stored, versions.First bounds key stored →
      stored.user = key ∨ stored.version = .tombstone ∨ ¬ bounds.Inside stored.ts := by
  rcases hwritten.getWithBounds_stops hkey hbounds with ⟨hnew, hread⟩ | ⟨found, hfound, hread⟩
  · refine iff_of_true ⟨fun ts version hgreatest hsome ↦ ?_, fun _ ↦ hread⟩ fun stored hstored ↦ ?_
    · have hvisible := TimestampBounds.classify_eq_visible.mpr hgreatest.1.2
      rw [hnew ⟨key, ts, version⟩ List.prefix_rfl hsome] at hvisible
      cases hvisible
    · exact absurd (hnew stored hstored.user hstored.version) hstored.old
  · have hall : (∀ stored, versions.First bounds key stored → stored.user = key ∨
          stored.version = .tombstone ∨ ¬ bounds.Inside stored.ts) ↔
        found.user = key ∨ found.version = .tombstone ∨ ¬ bounds.Inside found.ts :=
      ⟨fun h ↦ h found hfound, fun h stored hstored ↦ hfound.unique hstored ▸ h⟩
    rw [hall, hread]
    simp only [Except.ok.injEq]
    by_cases huser : found.user = key
    · exact iff_of_true (hfound.answers_own huser) (.inl huser)
    · -- the loop has run past the key: what it stops at has to answer as nothing does
      have hpassed := hfound.inside_eq_empty huser
      rw [and_iff_right fun ts _ hgreatest ↦ (hpassed.le hgreatest.1).elim]
      simp only [hpassed, forall_const, huser, false_or, ← TimestampBounds.classify_eq_visible]
      by_cases hvisible : bounds.classify found.ts = .visible
      · rw [if_pos hvisible]
        cases hversion : found.version <;> simp [Version.answer, hvisible]
      · simp [hvisible]

/-- Two versions of one key, the newer one a tombstone that the bounds leave out. -/
theorem getWithBounds_exact_older :
    ∃ data versions, Written data versions ∧
      getWithBounds data [97] (timestampAtOrBefore 5) = .ok (true, [7]) := by
  have hwritten := (Written.empty.write 4 ⟨false, [97], [7]⟩ rfl).write 9 ⟨true, [97], []⟩ rfl
  refine ⟨_, _, hwritten, ((@Written.getWithBounds_exact _ _ hwritten [97] rfl _ rfl).mpr
    fun stored hstored ↦ .inl ?_).1 4 (.put [7]) ⟨⟨rfl, ?_⟩, ?_⟩ rfl⟩
  · rcases hstored.first ⟨[97], 4, .put [7]⟩ List.prefix_rfl rfl (by decide) with
      rfl | hless | ⟨hsame, -⟩
    · rfl
    · obtain ⟨rest, hrest⟩ := hstored.user
      rw [← hrest] at hless
      exact absurd hless (by simp)
    · exact hsame
  · change (4 : UInt64) ≤ 5
    decide
  · rintro ts ⟨hsome, hinside⟩
    by_cases hnew : ts = 9
    · subst hnew
      exact absurd hinside (by change ¬ (9 : UInt64) ≤ 5; decide)
    · by_cases hold : ts = 4
      · exact hold ▸ UInt64.le_refl _
      · simp [Versions.write, hnew, hold] at hsome

/-- The only key is longer than the one that is read, and its value is returned. -/
theorem getWithBounds_longer_key :
    ∃ data versions, Written data versions ∧ (∀ ts, versions [97] ts = none) ∧
      getWithBounds data [97] {} = .ok (true, [7]) :=
  ⟨_, _, Written.empty.write 4 ⟨false, [97, 98], [7]⟩ rfl, fun _ ↦ rfl, by decide +kernel⟩

/-! ### Scans -/

/-- The rows that a scan without limit collects. -/
def collect (bounds : TimestampBounds) : List Stored → List Bytes → List KVRow
  | [], _ => []
  | stored :: rows, seen =>
    if seen.contains stored.user then collect bounds rows seen
    else match bounds.classify stored.ts, stored.version with
      | .tooNew, _ => collect bounds rows seen
      | .visible, .put value =>
        ⟨stored.user, value, stored.ts⟩ :: collect bounds rows (stored.user :: seen)
      | _, _ => collect bounds rows (stored.user :: seen)

/-- How a scan keeps rows: a forward scan stops when it is full, a reversed one drops its first. -/
def gather (limit : ℕ) (reverse : Bool) : List KVRow → List KVRow → List KVRow
  | [], out => out
  | row :: rows, out =>
    if reverse then
      gather limit reverse rows ((if out.length = limit then out.drop 1 else out) ++ [row])
    else if (out ++ [row]).length = limit then out ++ [row]
    else gather limit reverse rows (out ++ [row])

theorem boundedLoop_eq_gather {reverse : Bool}
    {seen : List Bytes} :
    boundedLoop bounds limit reverse (rows.map Stored.entry) seen out =
      gather limit reverse (collect bounds rows seen) out := by
  induction rows generalizing seen out with
  | nil => rfl
  | cons stored rows ih =>
    rw [List.map_cons, Stored.entry, boundedLoop, decodeDataKey_encodeDataKey, collect]
    dsimp only
    by_cases hseen : seen.contains stored.user = true
    · rw [if_pos hseen, if_pos hseen, ih]
    · rw [if_neg hseen, if_neg hseen]
      cases hclass : bounds.classify stored.ts with
      | tooNew => exact ih
      | tooOld => exact ih
      | visible =>
        cases hversion : stored.version with
        | tombstone => exact ih
        | put value =>
          have hput : (Version.put value).encode = valueRecord :: value := rfl
          simp only [hput, List.head?_cons, beq_self_eq_true, if_true, List.drop_succ_cons,
            List.drop_zero, ih, gather]
          split_ifs <;> rfl

theorem gather_forward {rows : List KVRow} (hroom : out.length < limit) :
    gather limit false rows out = (out ++ rows).take limit := by
  induction rows generalizing out with
  | nil => rw [gather, List.append_nil, List.take_of_length_le hroom.le]
  | cons row rows ih =>
    rw [gather, if_neg Bool.false_ne_true, List.append_cons out row rows]
    split_ifs with hfull
    · rw [List.take_append_of_le_length hfull.ge, ← hfull, List.take_length]
    · rw [List.length_append, List.length_singleton] at hfull
      rw [ih (by rw [List.length_append, List.length_singleton]; omega)]

/-- The last members of a list. -/
def lastOf (limit : ℕ) (rows : List KVRow) : List KVRow := (rows.reverse.take limit).reverse

theorem lastOf_cons {rows : List KVRow} (row : KVRow) (hlong : limit ≤ rows.length) :
    lastOf limit (row :: rows) = lastOf limit rows := by
  rw [lastOf, lastOf, List.reverse_cons,
    List.take_append_of_le_length (hlong.trans_eq rows.length_reverse.symm)]

theorem gather_reverse {rows : List KVRow} (hlimit : 0 < limit)
    (hroom : out.length ≤ limit) : gather limit true rows out = lastOf limit (out ++ rows) := by
  induction rows generalizing out with
  | nil =>
    rw [gather, List.append_nil, lastOf, List.take_of_length_le (by simpa using hroom),
      List.reverse_reverse]
  | cons row rows ih =>
    rw [gather, if_pos rfl, List.append_cons out row rows]
    split_ifs with hfull
    · cases out with
      | nil => exact absurd hfull hlimit.ne
      | cons first out =>
        rw [List.length_cons] at hfull
        rw [List.drop_succ_cons, List.drop_zero, ih (by simp [hfull]), List.cons_append,
          List.cons_append, lastOf_cons]
        simp only [List.length_append, List.length_cons]
        omega
    · rw [ih (by rw [List.length_append, List.length_singleton]; omega)]

/-- The version of a row is the newest of its key that is not too new, and inside the bounds. -/
structure Shown (bounds : TimestampBounds) (rows : List Stored) (row : KVRow) : Prop where
  stored : ⟨row.key, row.time, .put row.value⟩ ∈ rows
  inside : bounds.Inside row.time
  newest : ∀ other ∈ rows, other.user = row.key → row.time < other.ts →
    bounds.classify other.ts = .tooNew

section Shown

variable {bounds : TimestampBounds} {stored : Stored} {rows : List Stored} {row : KVRow}

/-- A version of another key, or one that is too new, makes no difference. -/
theorem shown_cons_of_skip (hskip : row.key = stored.user → bounds.classify stored.ts = .tooNew) :
    Shown bounds (stored :: rows) row ↔ Shown bounds rows row := by
  constructor
  · rintro ⟨hstored, hinside, hnewest⟩
    refine ⟨(List.mem_cons.mp hstored).resolve_left fun hsame ↦ ?_, hinside,
      fun other hother ↦ hnewest other (List.mem_cons_of_mem _ hother)⟩
    have hnew := hskip (congrArg Stored.user hsame)
    rw [← hsame, TimestampBounds.classify_eq_visible.mpr hinside] at hnew
    exact absurd hnew (by simp)
  · rintro ⟨hstored, hinside, hnewest⟩
    exact ⟨List.mem_cons_of_mem _ hstored, hinside,
      List.forall_mem_cons.mpr ⟨fun huser _ ↦ hskip huser.symm, hnewest⟩⟩

/-- The first version of a key that is not too new is the only one that can be shown. -/
theorem shown_cons_of_settled (hsorted : (stored :: rows).Pairwise Stored.Before)
    (hsettled : bounds.classify stored.ts ≠ .tooNew) (hkey : row.key = stored.user) :
    Shown bounds (stored :: rows) row ↔
      stored = ⟨row.key, row.time, .put row.value⟩ ∧ bounds.Inside row.time := by
  obtain ⟨hfirst, -⟩ := List.pairwise_cons.mp hsorted
  have holder : ∀ other ∈ rows, other.user = row.key → other.ts < stored.ts := by
    intro other hother huser
    rcases hfirst other hother with hless | ⟨-, holder⟩
    · exact absurd (huser.trans hkey) hless.ne'
    · exact holder
  constructor
  · rintro ⟨hstored, hinside, hnewest⟩
    rcases List.mem_cons.mp hstored with hsame | hlater
    · exact ⟨hsame.symm, hinside⟩
    · exact absurd (hnewest stored List.mem_cons_self hkey.symm (holder _ hlater rfl)) hsettled
  · rintro ⟨hsame, hinside⟩
    refine ⟨hsame ▸ List.mem_cons_self, hinside, fun other hother huser hnewer ↦ ?_⟩
    have hts : stored.ts = row.time := congrArg Stored.ts hsame
    rcases List.mem_cons.mp hother with rfl | hlater
    · exact absurd (hts ▸ hnewer) (UInt64.lt_irrefl _)
    · exact absurd (UInt64.lt_trans hnewer (hts ▸ holder other hlater huser)) (UInt64.lt_irrefl _)

end Shown

theorem mem_collect {bounds : TimestampBounds} {rows : List Stored}
    (hsorted : rows.Pairwise Stored.Before) {seen : List Bytes} {row : KVRow} :
    row ∈ collect bounds rows seen ↔ row.key ∉ seen ∧ Shown bounds rows row := by
  induction rows generalizing seen with
  | nil => exact iff_of_false (by simp [collect]) fun hshown ↦ by cases hshown.2.stored
  | cons stored rows ih =>
    have hrest := (List.pairwise_cons.mp hsorted).2
    -- A version that settles its key without a row.
    have hsettle : bounds.classify stored.ts ≠ .tooNew →
        (∀ value, stored.version = .put value → ¬ bounds.Inside stored.ts) →
        (row ∈ collect bounds rows (stored.user :: seen) ↔
          row.key ∉ seen ∧ Shown bounds (stored :: rows) row) := by
      intro hsettled hhidden
      rw [ih hrest, List.mem_cons, not_or]
      by_cases hkey : row.key = stored.user
      · refine iff_of_false (fun hshown ↦ hshown.1.1 hkey) fun hshown ↦ ?_
        obtain ⟨hsame, hinside⟩ := (shown_cons_of_settled hsorted hsettled hkey).mp hshown.2
        exact hhidden row.value (congrArg Stored.version hsame)
          (congrArg Stored.ts hsame ▸ hinside)
      · rw [shown_cons_of_skip fun hsame ↦ absurd hsame hkey]
        simp [hkey]
    rw [collect]
    by_cases hseen : seen.contains stored.user = true
    · rw [if_pos hseen, ih hrest]
      refine and_congr_right fun hkey ↦ (shown_cons_of_skip fun hsame ↦ ?_).symm
      exact absurd (hsame ▸ List.contains_iff_mem.mp hseen) hkey
    · rw [if_neg hseen]
      cases hclass : bounds.classify stored.ts with
      | tooNew =>
        rw [shown_cons_of_skip fun _ ↦ hclass]
        exact ih hrest
      | tooOld =>
        refine hsettle (by simp [hclass]) fun _ _ hinside ↦ ?_
        rw [TimestampBounds.classify_eq_visible.mpr hinside] at hclass
        exact absurd hclass (by simp)
      | visible =>
        cases hversion : stored.version with
        | tombstone =>
          exact hsettle (by simp [hclass]) fun value hput ↦ by simp [hversion] at hput
        | put value =>
          have hstored : stored = ⟨stored.user, stored.ts, .put value⟩ := by rw [← hversion]
          rw [List.mem_cons, ih hrest, List.mem_cons, not_or]
          by_cases hkey : row.key = stored.user
          · rw [shown_cons_of_settled hsorted (by simp [hclass]) hkey]
            constructor
            · rintro (rfl | hshown)
              · exact ⟨fun hmem ↦ hseen (List.contains_iff_mem.mpr hmem), hstored,
                  TimestampBounds.classify_eq_visible.mp hclass⟩
              · exact absurd hkey hshown.1.1
            · rintro ⟨-, hsame, -⟩
              have hvalue : value = row.value :=
                Version.put.inj (hversion.symm.trans (congrArg Stored.version hsame))
              have hts : stored.ts = row.time := congrArg Stored.ts hsame
              exact .inl (by rw [hvalue, hts, ← hkey])
          · rw [shown_cons_of_skip fun hsame ↦ absurd hsame hkey]
            have hother : row ≠ ⟨stored.user, value, stored.ts⟩ := fun hrow ↦
              hkey (congrArg KVRow.key hrow)
            simp [hkey, hother]

theorem pairwise_collect {bounds : TimestampBounds} {rows : List Stored}
    (hsorted : rows.Pairwise Stored.Before) (seen : List Bytes) :
    (collect bounds rows seen).Pairwise fun row next ↦ row.key < next.key := by
  induction rows generalizing seen with
  | nil => exact List.Pairwise.nil
  | cons stored rows ih =>
    obtain ⟨hfirst, hrest⟩ := List.pairwise_cons.mp hsorted
    rw [collect]
    split_ifs
    · exact ih hrest seen
    · split
      · exact ih hrest seen
      · refine List.pairwise_cons.mpr ⟨fun next hnext ↦ ?_, ih hrest _⟩
        obtain ⟨hunseen, hshown⟩ := (mem_collect hrest).mp hnext
        rcases hfirst _ hshown.stored with hless | ⟨hsame, -⟩
        · exact hless
        · exact absurd (hsame ▸ List.mem_cons_self) hunseen
      · exact ih hrest _

/-! ### Which keys a scan asks for -/

/-- A key that a scan asks for: one with its prefix, or one in its range when it has no prefix. -/
def BoundedScan.Requests (opt : BoundedScan) (user : Bytes) : Prop :=
  if opt.pfx = [] then opt.start ≤ user ∧ (opt.stop = [] ∨ user < opt.stop) else opt.pfx <+: user

theorem not_mem_zero_of_optional (hkey : validateOptionalScanKey key = true) :
    (0 : UInt8) ∉ key := by
  cases key with
  | nil => simp
  | cons c key => simpa [validateOptionalScanKey] using hkey

/-- Every version is in the range of the whole region. -/
theorem inRange_region (lower user : Bytes) (ts : UInt64) :
    inRange lower (prefixLimit (encodeUserPrefix [])) ⟨encodeDataKey user ts⟩ =
      !bytesLess (encodeDataKey user ts) lower := by
  have hregion : inRange (encodeUserPrefix []) (prefixLimit (encodeUserPrefix []))
      ⟨encodeDataKey user ts⟩ = true :=
    isPrefix_iff_inRange.mp ((isPrefix_encodeDataKey_iff (by simp)).mpr List.nil_prefix)
  rw [inRange, Bool.and_eq_true] at hregion
  rw [inRange, hregion.2, Bool.and_true]

theorem inRange_range_iff {opt : BoundedScan} (hstart : validateOptionalScanKey opt.start = true)
    (hstop : validateOptionalScanKey opt.stop = true)
    (hpfx : validateOptionalScanKey opt.pfx = true) {user : Bytes} {ts : UInt64} :
    inRange opt.range.1 opt.range.2 ⟨encodeDataKey user ts⟩ = true ↔ opt.Requests user := by
  have hlower : ∀ {bound : Bytes}, validateOptionalScanKey bound = true →
      ((!bytesLess (encodeDataKey user ts) (encodeUserPrefix bound)) = true ↔ bound ≤ user) :=
    fun hbound ↦ by
      rw [bytesLess_encodeDataKey_of_plain (not_mem_zero_of_optional hbound), bytesLess_eq]
      simp
  by_cases hplain : opt.pfx = []
  · rw [BoundedScan.Requests, if_pos hplain]
    by_cases hopen : opt.stop = []
    · have hbounds : opt.range = (encodeUserPrefix opt.start,
          prefixLimit (encodeUserPrefix [])) := by
        simp [BoundedScan.range, scanBounds, hplain, hopen]
      rw [hbounds, inRange_region, hlower hstart]
      simp [hopen]
    · have hbounds : opt.range = (encodeUserPrefix opt.start,
          some (encodeUserPrefix opt.stop)) := by
        simp [BoundedScan.range, scanBounds, hplain, hopen]
      rw [hbounds, inRange, Bool.and_eq_true, hlower hstart, Option.elim_some,
        bytesLess_encodeDataKey_of_plain (not_mem_zero_of_optional hstop), bytesLess_eq]
      simp [hopen]
  · have hextends : opt.pfx <+: user ↔
        inRange opt.pfx (prefixLimit opt.pfx) ⟨user ++ 0 :: bigEndian 8 (~~~ts).toNat⟩ = true := by
      rw [← isPrefix_iff_inRange]
      exact ⟨fun hextends ↦ hextends.trans (List.prefix_append user _),
        isPrefix_user (not_mem_zero_of_optional hpfx)⟩
    rw [BoundedScan.Requests, if_neg hplain, hextends]
    cases hlimit : prefixLimit opt.pfx with
    | none =>
      have hbounds : opt.range = (encodeUserPrefix opt.pfx, prefixLimit (encodeUserPrefix [])) := by
        simp [BoundedScan.range, scanBounds, hplain, hlimit]
      rw [hbounds, inRange_region, bytesLess_encodeDataKey, inRange, Option.elim_none,
        Bool.and_true]
    | some limit =>
      have hbounds : opt.range = (encodeUserPrefix opt.pfx, some (encodeUserPrefix limit)) := by
        simp [BoundedScan.range, scanBounds, hplain, hlimit, prefixLimit_ne_nil hlimit]
      rw [hbounds, inRange, inRange, Option.elim_some, Option.elim_some, bytesLess_encodeDataKey,
        bytesLess_encodeDataKey]

/-- The row of a key: its newest version inside the bounds, which is a put. -/
structure RowOf (versions : Versions) (bounds : TimestampBounds) (row : KVRow) : Prop where
  newest : IsGreatest (versions.inside bounds row.key) row.time
  put : versions row.key row.time = some (.put row.value)

theorem BoundedScan.most_pos (opt : BoundedScan) : 0 < opt.most := by
  unfold BoundedScan.most
  split_ifs with hlimit
  · decide
  · omega

/-- Among the versions in the range of a scan, the rows that are shown are those of the keys that it
asks for. -/
theorem shown_iff {versions : Versions} {opt : BoundedScan} {stored : List Stored}
    (hmem : ∀ one : Stored, one ∈ stored ↔
      versions one.user one.ts = some one.version ∧ opt.Requests one.user) {row : KVRow} :
    Shown opt.bounds stored row ↔ opt.Requests row.key ∧ RowOf versions opt.bounds row := by
  constructor
  · rintro ⟨hstored, hinside, hnewest⟩
    obtain ⟨hput, hrequest⟩ := (hmem _).mp hstored
    refine ⟨hrequest, ⟨⟨by simp [hput], hinside⟩, fun later hlater ↦ ?_⟩, hput⟩
    obtain ⟨version, hversion⟩ := Option.isSome_iff_exists.mp hlater.1
    by_contra hnewer
    have hnew := hnewest ⟨row.key, later, version⟩ ((hmem _).mpr ⟨hversion, hrequest⟩) rfl
      (UInt64.not_le.mp hnewer)
    rw [TimestampBounds.classify_eq_visible.mpr hlater.2] at hnew
    exact absurd hnew (by simp)
  · rintro ⟨hrequest, hgreatest, hput⟩
    refine ⟨(hmem _).mpr ⟨hput, hrequest⟩, hgreatest.1.2, fun other hother huser hnewer ↦ ?_⟩
    by_contra hnew
    have hversion := ((hmem other).mp hother).1
    have hinside : other.ts ∈ versions.inside opt.bounds row.key :=
      ⟨by simp [← huser, hversion], TimestampBounds.inside_of_lt hgreatest.1.2 hnewer hnew⟩
    exact absurd (hgreatest.2 hinside) (UInt64.not_le.mpr hnewer)

/-- A scan returns one row for each key that it asks for and whose newest version inside the bounds
is a put, in the order of the keys or the reverse order, up to its limit. Assumes: the options are
accepted. -/
theorem Written.scanWithBounds_exact {data : FiniteMap StoreKey Bytes} {versions : Versions}
    (hwritten : Written data versions) {opt : BoundedScan} (hbounds : opt.bounds.validate = true)
    (hstart : validateOptionalScanKey opt.start = true)
    (hstop : validateOptionalScanKey opt.stop = true)
    (hpfx : validateOptionalScanKey opt.pfx = true) :
    ∃ rows : List KVRow, (rows.Pairwise fun row next ↦ row.key < next.key) ∧
      (∀ row, row ∈ rows ↔ opt.Requests row.key ∧ RowOf versions opt.bounds row) ∧
        scanWithBounds data opt =
          .ok ((if opt.reverse then rows.reverse else rows).take opt.most) := by
  obtain ⟨stored, hstored, hsorted, hrange⟩ := hwritten.exists_rows opt.range.1 opt.range.2
  have hmem : ∀ one : Stored, one ∈ stored ↔
      versions one.user one.ts = some one.version ∧ opt.Requests one.user := fun one ↦ by
    rw [hrange, inRange_range_iff hstart hstop hpfx]
  have hrow : ∀ row, row ∈ collect opt.bounds stored [] ↔
      opt.Requests row.key ∧ RowOf versions opt.bounds row := fun row ↦ by
    rw [mem_collect hsorted, shown_iff hmem]
    simp
  refine ⟨collect opt.bounds stored [], pairwise_collect hsorted [], hrow, ?_⟩
  unfold scanWithBounds
  simp only [hbounds, hstart, hstop, hpfx, hstored, Bool.not_true, Bool.and_self,
    Bool.false_eq_true,
    if_false]
  by_cases hempty : opt.bounds.empty = true
  · have hmode : opt.bounds.mode = .empty := by simpa [TimestampBounds.empty] using hempty
    have hnone : collect opt.bounds stored [] = [] := by
      refine List.eq_nil_iff_forall_not_mem.mpr fun row hshown ↦ ?_
      have hinside := ((hrow row).mp hshown).2.newest.1.2
      simp [TimestampBounds.Inside, hmode] at hinside
    simp [hempty, hnone]
  · rw [if_neg hempty]
    cases opt.reverse with
    | true =>
      rw [boundedLoop_eq_gather, gather_reverse opt.most_pos (Nat.zero_le _), List.nil_append,
        lastOf, if_pos rfl,
        if_pos rfl, List.reverse_reverse]
    | false =>
      rw [boundedLoop_eq_gather, gather_forward opt.most_pos, List.nil_append]
      rfl

/-- The last of two keys that are left of three. -/
theorem scanWithBounds_exact_last :
    ∃ data versions, Written data versions ∧
      scanWithBounds data { limit := 1, reverse := true } = .ok [⟨[97, 98], [8], 5⟩] ∧
        RowOf versions {} ⟨[97, 98], [8], 5⟩ := by
  have hwritten := ((Written.empty.write 4 ⟨false, [97], [7]⟩ rfl).write 5 ⟨false, [97, 98], [8]⟩
    rfl).write 6 ⟨true, [98], []⟩ rfl
  obtain ⟨rows, -, hrow, hscan⟩ :=
    @Written.scanWithBounds_exact _ _ hwritten { limit := 1, reverse := true } rfl rfl rfl rfl
  refine ⟨_, _, hwritten, by decide +kernel, ((hrow _).mp ?_).2⟩
  have htake : rows.reverse.take 1 = [⟨[97, 98], [8], 5⟩] :=
    Except.ok.inj (hscan.symm.trans (by decide +kernel))
  exact List.mem_reverse.mp (List.mem_of_mem_take (htake ▸ List.mem_cons_self))

end MoreConsensus.KV
