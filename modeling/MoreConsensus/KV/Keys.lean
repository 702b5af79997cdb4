import MoreConsensus.KV.Store

/-!
# Keys of the data region

A version of a user key is stored under the user key, a separator byte and the complement of its
timestamp (`examples/kv/kv.go`). Valid user keys have no separator byte, so the key of a version is
read back (`decodeDataKey_encodeDataKey`), the byte order of the keys is that of the user keys and,
for one user key, from the newest version to the oldest (`encodeDataKey_lt_iff`), and a range of the
engine is a range or a prefix of user keys. The store has one column family; the encoding and its
order are the same in every other one (`encodeDataKeyIn`).
-/

set_option autoImplicit false

namespace MoreConsensus.KV

open Library

variable {key user bound b x limit other : Bytes} {ts : UInt64}

theorem not_mem_zero (hkey : validateKey key = true) : (0 : UInt8) ∉ key := by
  simp only [validateKey, Bool.and_eq_true, Bool.not_eq_true'] at hkey
  simpa using hkey.2

/-- Whether a key is in a range of the engine. -/
def inRange (lower : Bytes) (upper : Option Bytes) (key : StoreKey) : Bool :=
  !bytesLess key.bytes lower && upper.elim true fun bound ↦ bytesLess key.bytes bound

/-! ### Ranges of keys -/

theorem bytesLess_append (front a b : Bytes) :
    bytesLess (front ++ a) (front ++ b) = bytesLess a b := by
  induction front with
  | nil => rfl
  | cons c front ih => simp only [List.cons_append, bytesLess, if_true, ih]

/-- A key below a bound without separator bytes stays below it with a version after it. -/
theorem bytesLess_separated (version : Bytes) (hbound : (0 : UInt8) ∉ bound)
    (hless : bytesLess user bound = true) : bytesLess (user ++ 0 :: version) bound = true := by
  induction user generalizing bound with
  | nil =>
    cases bound with
    | nil => cases hless
    | cons c bound =>
      have hc : (0 : UInt8) ≠ c := fun heq ↦ hbound (heq ▸ List.mem_cons_self)
      have hpos : 0 < c.toNat := Nat.pos_of_ne_zero fun h ↦ hc (UInt8.toNat_inj.mp h.symm)
      rw [List.nil_append, bytesLess, if_neg hc, decide_eq_true_eq, UInt8.lt_iff_toNat_lt]
      exact hpos
  | cons a user ih =>
    cases bound with
    | nil => cases hless
    | cons c bound =>
      simp only [List.cons_append, bytesLess] at hless ⊢
      split_ifs at hless ⊢ with heq
      · exact ih (fun hmem ↦ hbound (List.mem_cons_of_mem _ hmem)) hless
      · exact hless

/-- What is below a bound with a version after it is below it without. -/
theorem bytesLess_of_separated {version : Bytes}
    (hless : bytesLess (user ++ 0 :: version) bound = true) : bytesLess user bound = true := by
  induction user generalizing bound with
  | nil =>
    cases bound with
    | nil => cases hless
    | cons c bound => rfl
  | cons a user ih =>
    cases bound with
    | nil => cases hless
    | cons c bound =>
      simp only [List.cons_append, bytesLess] at hless ⊢
      split_ifs at hless ⊢ with heq
      · exact ih hless
      · exact hless

/-- The front that all keys of the region have does not matter. -/
theorem bytesLess_encodeDataKey (user bound : Bytes) (ts : UInt64) :
    bytesLess (encodeDataKey user ts) (encodeUserPrefix bound) =
      bytesLess (user ++ 0 :: bigEndian 8 (~~~ts).toNat) bound := by
  have happend := bytesLess_append (recordPrefix :: bigEndian 4 columnFamily.toNat)
    (user ++ 0 :: bigEndian 8 (~~~ts).toNat) bound
  simpa only [encodeDataKey, encodeDataKeyIn, encodeUserPrefix, encodeUserPrefixIn,
    List.cons_append, List.append_assoc] using happend

/-- The versions of a user key are below a bound without separator bytes when the key is. -/
theorem bytesLess_encodeDataKey_of_plain
    (hbound : (0 : UInt8) ∉ bound) :
    bytesLess (encodeDataKey user ts) (encodeUserPrefix bound) = bytesLess user bound := by
  rw [bytesLess_encodeDataKey, Bool.eq_iff_iff]
  exact ⟨bytesLess_of_separated, bytesLess_separated _ hbound⟩

theorem isPrefix_of_all_max (hmax : ∀ c ∈ b, c = 255)
    (hlower : bytesLess x b = false) : b <+: x := by
  induction b generalizing x with
  | nil => exact List.nil_prefix
  | cons c b ih =>
    cases x with
    | nil => cases hlower
    | cons d x =>
      have hc := hmax c List.mem_cons_self
      simp only [bytesLess] at hlower
      split_ifs at hlower with heq
      · subst heq
        exact List.cons_prefix_cons.mpr
          ⟨rfl, ih (fun e he ↦ hmax e (List.mem_cons_of_mem _ he)) hlower⟩
      · have hd := d.toNat_lt
        rw [decide_eq_false_iff_not, UInt8.lt_iff_toNat_lt, hc] at hlower
        exact absurd (UInt8.toNat_inj.mp (by simp at hlower ⊢; omega)) (hc ▸ heq)

theorem prefixLimit_cons (c : UInt8) (b : Bytes) :
    prefixLimit (c :: b) = match prefixLimit b with
      | some limit => some (c :: limit)
      | none => if c = 255 then none else some [c + 1] := by
  simp only [prefixLimit, List.reverse_cons, List.dropWhile_append]
  cases hdrop : b.reverse.dropWhile fun c ↦ c == 255 with
  | nil =>
    by_cases hc : c = 255 <;> simp [hc]
  | cons last rest => simp

theorem all_max_of_prefixLimit_none (hlimit : prefixLimit b = none) :
    ∀ c ∈ b, c = 255 := by
  induction b with
  | nil => simp
  | cons c b ih =>
    rw [prefixLimit_cons] at hlimit
    split at hlimit
    · cases hlimit
    · rename_i hrest
      split_ifs at hlimit with hc
      intro d hd
      rcases List.mem_cons.mp hd with rfl | hd
      · exact hc
      · exact ih hrest d hd

theorem prefixLimit_ne_nil (hlimit : prefixLimit b = some limit) :
    limit.isEmpty = false := by
  rw [prefixLimit] at hlimit
  split at hlimit
  · cases hlimit
  · cases hlimit
    simp

/-- Between a byte string and its limit there are only its extensions. -/
theorem isPrefix_of_mem_range (hlimit : prefixLimit b = some limit)
    (hlower : bytesLess x b = false) (hupper : bytesLess x limit = true) : b <+: x := by
  induction b generalizing x limit with
  | nil => exact List.nil_prefix
  | cons c b ih =>
    cases x with
    | nil => cases hlower
    | cons d x =>
      rw [prefixLimit_cons] at hlimit
      simp only [bytesLess] at hlower
      split at hlimit
      · rename_i limit' hrest
        cases hlimit
        simp only [bytesLess] at hupper
        split_ifs at hlower hupper with heq
        · exact List.cons_prefix_cons.mpr ⟨heq.symm, ih hrest hlower hupper⟩
        · rw [decide_eq_false_iff_not, UInt8.lt_iff_toNat_lt] at hlower
          rw [decide_eq_true_eq, UInt8.lt_iff_toNat_lt] at hupper
          exact absurd hupper hlower
      · rename_i hrest
        split_ifs at hlimit with hc
        cases hlimit
        have hsucc : (c + 1).toNat = c.toNat + 1 := by
          have hlt := c.toNat_lt
          have hne : c.toNat ≠ 255 := fun h ↦ hc (UInt8.toNat_inj.mp h)
          rw [UInt8.toNat_add]
          exact Nat.mod_eq_of_lt (by simp; omega)
        simp only [bytesLess] at hupper
        split_ifs at hupper with hlast
        · cases x <;> cases hupper
        · rw [decide_eq_true_eq, UInt8.lt_iff_toNat_lt, hsucc] at hupper
          split_ifs at hlower with heq
          · exact List.cons_prefix_cons.mpr
              ⟨heq.symm, isPrefix_of_all_max (all_max_of_prefixLimit_none hrest) hlower⟩
          · rw [decide_eq_false_iff_not, UInt8.lt_iff_toNat_lt] at hlower
            exact absurd (UInt8.toNat_inj.mp (by omega)) heq

theorem isPrefix_user {version : Bytes} (hkey : (0 : UInt8) ∉ key)
    (hextends : key <+: user ++ 0 :: version) : key <+: user := by
  rcases List.prefix_or_prefix_of_prefix hextends (List.prefix_append user (0 :: version)) with
    hshort | ⟨rest, rfl⟩
  · exact hshort
  · have hrest : rest <+: 0 :: version := (List.prefix_append_right_inj user).mp hextends
    cases rest with
    | nil => simp
    | cons c rest =>
      obtain ⟨rfl, -⟩ := List.cons_prefix_cons.mp hrest
      exact absurd (List.mem_append_right _ List.mem_cons_self) hkey

/-- A byte string is not above its extensions. -/
theorem bytesLess_of_isPrefix (hextends : b <+: x) : bytesLess x b = false := by
  obtain ⟨rest, rfl⟩ := hextends
  have happend := bytesLess_append b rest []
  rw [List.append_nil] at happend
  rw [happend]
  cases rest <;> rfl

/-- The extensions of a byte string are below its limit. -/
theorem bytesLess_prefixLimit (hlimit : prefixLimit b = some limit)
    (hextends : b <+: x) : bytesLess x limit = true := by
  induction b generalizing x limit with
  | nil => cases hlimit
  | cons c b ih =>
    obtain ⟨rest, rfl⟩ := hextends
    rw [prefixLimit_cons] at hlimit
    split at hlimit
    · rename_i limit' hrest
      cases hlimit
      rw [List.cons_append, bytesLess, if_pos rfl]
      exact ih hrest (List.prefix_append b rest)
    · split_ifs at hlimit with hc
      cases hlimit
      have hlt : c.toNat < (c + 1).toNat := by
        have hbound := c.toNat_lt
        have hne : c.toNat ≠ 255 := fun h ↦ hc (UInt8.toNat_inj.mp h)
        rw [UInt8.toNat_add, Nat.mod_eq_of_lt (by simp; omega)]
        exact Nat.lt_succ_self _
      rw [List.cons_append, bytesLess, if_neg fun heq ↦ hlt.ne (congrArg UInt8.toNat heq),
        decide_eq_true_eq, UInt8.lt_iff_toNat_lt]
      exact hlt

/-- From a byte string up to its limit, or without end when it has none, there are its
extensions. -/
theorem isPrefix_iff_inRange :
    b <+: x ↔ inRange b (prefixLimit b) ⟨x⟩ = true := by
  rw [inRange, Bool.and_eq_true, Bool.not_eq_true']
  cases hlimit : prefixLimit b with
  | none =>
    exact ⟨fun hextends ↦ ⟨bytesLess_of_isPrefix hextends, rfl⟩,
      fun hrange ↦ isPrefix_of_all_max (all_max_of_prefixLimit_none hlimit) hrange.1⟩
  | some limit =>
    exact ⟨fun hextends ↦ ⟨bytesLess_of_isPrefix hextends, bytesLess_prefixLimit hlimit hextends⟩,
      fun hrange ↦ isPrefix_of_mem_range hlimit hrange.1 hrange.2⟩

/-- The keys of the versions of a user key extend its code, and those of longer keys do. -/
theorem isPrefix_encodeDataKey_iff (hkey : (0 : UInt8) ∉ key) :
    encodeUserPrefix key <+: encodeDataKey user ts ↔ key <+: user := by
  have hfront : encodeUserPrefix key <+: encodeDataKey user ts ↔
      key <+: user ++ 0 :: bigEndian 8 (~~~ts).toNat := by
    have happend : recordPrefix :: bigEndian 4 columnFamily.toNat ++ key <+:
        recordPrefix :: bigEndian 4 columnFamily.toNat ++ (user ++ 0 :: bigEndian 8 (~~~ts).toNat) ↔
          key <+: user ++ 0 :: bigEndian 8 (~~~ts).toNat := List.prefix_append_right_inj _
    rw [← happend]
    simp only [encodeDataKey, encodeDataKeyIn, encodeUserPrefix, encodeUserPrefixIn,
      List.cons_append, List.append_assoc]
  rw [hfront]
  exact ⟨isPrefix_user hkey, fun hextends ↦ hextends.trans (List.prefix_append user _)⟩

/-! ### Keys are read back -/

theorem ofBigEndian_append (b : Bytes) (digit : UInt8) :
    ofBigEndian (b ++ [digit]) = ofBigEndian b * 256 + digit.toNat := by
  rw [ofBigEndian, List.foldl_append]
  rfl

theorem bigEndian_succ (width value : ℕ) :
    bigEndian (width + 1) value = bigEndian width (value / 256) ++ [UInt8.ofNat value] := by
  rw [bigEndian, List.range_succ_eq_map, List.reverse_cons, List.map_append, bigEndian,
    ← List.map_reverse, List.map_map, List.map_singleton, pow_zero, Nat.div_one]
  congr 1
  refine List.map_congr_left fun i _ ↦ ?_
  rw [Function.comp_apply, Nat.div_div_eq_div_mul, Nat.succ_eq_add_one, pow_succ']

theorem ofBigEndian_bigEndian (width value : ℕ) (hvalue : value < 256 ^ width) :
    ofBigEndian (bigEndian width value) = value := by
  induction width generalizing value with
  | zero => exact (Nat.lt_one_iff.mp hvalue).symm
  | succ width ih =>
    have hdiv : value / 256 < 256 ^ width := by
      rw [Nat.div_lt_iff_lt_mul (by decide), ← pow_succ]
      exact hvalue
    rw [bigEndian_succ, ofBigEndian_append, ih _ hdiv, UInt8.toNat_ofNat']
    exact Nat.div_add_mod' value 256

theorem length_bigEndian (width value : ℕ) : (bigEndian width value).length = width := by
  simp [bigEndian]

theorem lastIndexByte_append (b : Bytes) (c : UInt8) :
    lastIndexByte (b ++ [c]) c = some b.length := by
  rw [lastIndexByte, List.length_append, List.length_singleton, List.range_succ,
    List.reverse_append]
  simp

theorem encodeDataKeyIn_eq (cf : UInt32) (user : Bytes) (ts : UInt64) :
    encodeDataKeyIn cf user ts = (encodeUserPrefixIn cf user ++ [0]) ++
      bigEndian 8 (~~~ts).toNat := by
  rw [encodeDataKeyIn, List.append_assoc, List.singleton_append]

theorem length_encodeUserPrefixIn (cf : UInt32) (user : Bytes) :
    (encodeUserPrefixIn cf user).length = 5 + user.length := by
  rw [encodeUserPrefixIn, List.length_cons, List.length_append, length_bigEndian]
  omega

/-- The key of a version is read back, whatever the column family and the user key. -/
theorem decodeDataKeyIn_encodeDataKeyIn (cf : UInt32) (user : Bytes) (ts : UInt64) :
    decodeDataKeyIn (encodeDataKeyIn cf user ts) cf = some (user, ts) := by
  have htail := length_bigEndian 8 (~~~ts).toNat
  have hlength : (encodeDataKeyIn cf user ts).length =
      (encodeUserPrefixIn cf user ++ [0]).length + 8 := by
    rw [encodeDataKeyIn_eq, List.length_append, htail]
  have hfront : (encodeDataKeyIn cf user ts).take ((encodeDataKeyIn cf user ts).length - 8) =
      encodeUserPrefixIn cf user ++ [0] := by
    rw [hlength, Nat.add_sub_cancel, encodeDataKeyIn_eq]
    exact List.take_left
  have hback : (encodeDataKeyIn cf user ts).drop ((encodeDataKeyIn cf user ts).length - 8) =
      bigEndian 8 (~~~ts).toNat := by
    rw [hlength, Nat.add_sub_cancel, encodeDataKeyIn_eq]
    exact List.drop_left
  have hkey : (encodeDataKeyIn cf user ts).take (encodeUserPrefixIn cf user).length =
      encodeUserPrefixIn cf user := by
    rw [encodeDataKeyIn]
    exact List.take_left
  have huser : (encodeUserPrefixIn cf user).drop 5 = user := rfl
  have hversion : ~~~UInt64.ofNat (ofBigEndian (bigEndian 8 (~~~ts).toNat)) = ts := by
    rw [ofBigEndian_bigEndian _ _ (UInt64.toNat_lt _), UInt64.ofNat_toNat, UInt64.not_not]
  have hlong : ¬ (encodeDataKeyIn cf user ts).length < 14 := by
    rw [hlength, List.length_append, length_encodeUserPrefixIn, List.length_singleton]
    omega
  have hsep : ¬ (encodeUserPrefixIn cf user).length < 5 := by
    rw [length_encodeUserPrefixIn]
    omega
  have hcolumn : ofBigEndian (((encodeDataKeyIn cf user ts).drop 1).take 4) = cf.toNat :=
    ofBigEndian_bigEndian 4 _ (UInt32.toNat_lt _)
  have hhead : (encodeDataKeyIn cf user ts).head? = some recordPrefix := rfl
  rw [decodeDataKeyIn, hfront, lastIndexByte_append, hback, hversion, hcolumn, hhead]
  simp only [hlong, decide_false, bne_self_eq_false, Bool.or_self, Bool.false_eq_true, if_false,
    hsep, hkey, huser]

theorem decodeDataKey_encodeDataKey (user : Bytes) (ts : UInt64) :
    decodeDataKey (encodeDataKey user ts) = some (user, ts) :=
  decodeDataKeyIn_encodeDataKeyIn columnFamily user ts

/-! ### The order of keys -/

theorem StoreKey.lt_iff {a b : StoreKey} : a < b ↔ bytesLess a.bytes b.bytes = true := by
  obtain ⟨a⟩ := a
  obtain ⟨b⟩ := b
  change a.map UInt8.toNat < b.map UInt8.toNat ↔ bytesLess a b = true
  induction a generalizing b with
  | nil => cases b <;> simp [bytesLess]
  | cons c a ih =>
    cases b with
    | nil => simp [bytesLess]
    | cons d b =>
      rw [List.map_cons, List.map_cons, List.cons_lt_cons_iff, ih, bytesLess, UInt8.toNat_inj]
      split_ifs with heq
      · simp [heq]
      · simp [heq, UInt8.lt_iff_toNat_lt]

theorem bigEndian_succ_head (width value : ℕ) :
    bigEndian (width + 1) value = UInt8.ofNat (value / 256 ^ width) :: bigEndian width value := by
  rw [bigEndian, List.range_succ, List.reverse_append, List.map_append]
  rfl

/-- Numbers with different high parts are in the order of the high parts. -/
theorem mul_add_lt_mul_add_iff {base high high' low low' : ℕ} (hne : high ≠ high')
    (hlow : low < base) (hlow' : low' < base) :
    base * high + low < base * high' + low' ↔ high < high' := by
  constructor
  · intro hlt
    by_contra hge
    have hmul := Nat.mul_le_mul_left base
        (Nat.succ_le_of_lt (lt_of_le_of_ne (not_lt.mp hge) hne.symm))
    rw [Nat.mul_succ] at hmul
    omega
  · intro hlt
    have hmul := Nat.mul_le_mul_left base (Nat.succ_le_of_lt hlt)
    rw [Nat.mul_succ] at hmul
    omega

/-- Numbers of one width are in the order of their bytes. -/
theorem bytesLess_bigEndian (width a b : ℕ) :
    bytesLess (bigEndian width a) (bigEndian width b) =
      decide (a % 256 ^ width < b % 256 ^ width) := by
  induction width with
  | zero => simp [bigEndian, bytesLess, Nat.mod_one]
  | succ width ih =>
    have hdigits : ∀ value, value % 256 ^ (width + 1) =
        256 ^ width * (value / 256 ^ width % 256) + value % 256 ^ width := fun value ↦ by
      rw [pow_succ, Nat.mod_mul, Nat.add_comm]
    have hlow : ∀ value, value % 256 ^ width < 256 ^ width := fun value ↦
      Nat.mod_lt _ (Nat.pow_pos (by decide))
    rw [bigEndian_succ_head, bigEndian_succ_head, bytesLess, ih, hdigits a, hdigits b]
    have hhead : UInt8.ofNat (a / 256 ^ width) = UInt8.ofNat (b / 256 ^ width) ↔
        a / 256 ^ width % 256 = b / 256 ^ width % 256 := by
      rw [← UInt8.toNat_inj, UInt8.toNat_ofNat', UInt8.toNat_ofNat']
    by_cases hsame : a / 256 ^ width % 256 = b / 256 ^ width % 256
    · rw [if_pos (hhead.mpr hsame), hsame]
      simp
    · rw [if_neg (hhead.not.mpr hsame), decide_eq_decide, UInt8.lt_iff_toNat_lt,
        UInt8.toNat_ofNat', UInt8.toNat_ofNat']
      exact (mul_add_lt_mul_add_iff hsame (hlow a) (hlow b)).symm

/-- A key is below another, with versions after them. -/
theorem separated_lt (version version' : Bytes) (hother : (0 : UInt8) ∉ other)
    (hless : user < other) : user ++ 0 :: version < other ++ 0 :: version' := by
  have hbelow : user ++ 0 :: version < other := by
    simpa [bytesLess_eq] using bytesLess_separated version hother (by simpa [bytesLess_eq])
  have habove := bytesLess_of_isPrefix (List.prefix_append other (0 :: version'))
  rw [bytesLess_eq, decide_eq_false_iff_not, not_lt] at habove
  exact hbelow.trans_le habove

/-- The keys of versions are in the order of the user keys, and those of one user key from the
newest version to the oldest. Assumes: neither user key has the separator byte. -/
theorem encodeDataKeyIn_lt_iff (cf : UInt32) {ts' : UInt64}
    (huser : (0 : UInt8) ∉ user) (hother : (0 : UInt8) ∉ other) :
    bytesLess (encodeDataKeyIn cf user ts) (encodeDataKeyIn cf other ts') = true ↔
      user < other ∨ user = other ∧ ts' < ts := by
  have hfront : ∀ key stamp, encodeDataKeyIn cf key stamp =
      recordPrefix :: bigEndian 4 cf.toNat ++ (key ++ 0 :: bigEndian 8 (~~~stamp).toNat) := by
    simp [encodeDataKeyIn, encodeUserPrefixIn]
  rw [hfront, hfront, bytesLess_append]
  rcases lt_trichotomy user other with hlt | rfl | hgt
  · refine iff_of_true ?_ (.inl hlt)
    simpa [bytesLess_eq] using separated_lt _ _ hother hlt
  · have hmod : ∀ stamp : UInt64, (~~~stamp).toNat % 256 ^ 8 = (~~~stamp).toNat := fun stamp ↦
      Nat.mod_eq_of_lt (UInt64.toNat_lt _)
    rw [bytesLess_append, bytesLess, if_pos rfl, bytesLess_bigEndian, decide_eq_true_eq, hmod, hmod,
      UInt64.lt_iff_toNat_lt]
    have hts := ts.toNat_lt
    have hts' := ts'.toNat_lt
    have hsize : UInt64.size = 2 ^ 64 := rfl
    simp only [UInt64.toNat_not, lt_self_iff_false, true_and, false_or]
    omega
  · have hless := separated_lt (bigEndian 8 (~~~ts').toNat) (bigEndian 8 (~~~ts).toNat) huser hgt
    refine iff_of_false ?_ fun hor ↦ ?_
    · simpa [bytesLess_eq] using hless.le
    · rcases hor with hlt | ⟨rfl, -⟩
      · exact hgt.asymm hlt
      · exact lt_irrefl _ hgt

theorem encodeDataKey_lt_iff {ts' : UInt64} (huser : (0 : UInt8) ∉ user)
    (hother : (0 : UInt8) ∉ other) :
    (⟨encodeDataKey user ts⟩ : StoreKey) < ⟨encodeDataKey other ts'⟩ ↔
      user < other ∨ user = other ∧ ts' < ts :=
  StoreKey.lt_iff.trans (encodeDataKeyIn_lt_iff 1 huser hother)

/-- The byte strings above all extensions of `b`. -/
def above (b : Bytes) : Set Bytes := {x | ∀ y, b <+: y → y < x}

/-- What is above all extensions of a byte string is above it and none of them. -/
theorem not_isPrefix_of_mem_above (habove : x ∈ above b) :
    bytesLess x b = false ∧ ¬ b <+: x := by
  refine ⟨?_, fun hextends ↦ lt_irrefl x (habove x hextends)⟩
  rw [bytesLess_eq, decide_eq_false_iff_not]
  exact (habove b List.prefix_rfl).asymm

theorem above_eq_empty (hlimit : prefixLimit b = none) : above b = ∅ := by
  refine Set.eq_empty_of_forall_notMem fun x habove ↦ ?_
  obtain ⟨hlower, hextends⟩ := not_isPrefix_of_mem_above habove
  exact hextends (isPrefix_of_all_max (all_max_of_prefixLimit_none hlimit) hlower)

theorem isLeast_prefixLimit (hlimit : prefixLimit b = some limit) :
    IsLeast (above b) limit := by
  refine ⟨fun x hextends ↦ ?_, fun x habove ↦ ?_⟩
  · simpa only [bytesLess_eq, decide_eq_true_eq] using bytesLess_prefixLimit hlimit hextends
  · obtain ⟨hlower, hextends⟩ := not_isPrefix_of_mem_above habove
    by_contra hless
    refine hextends (isPrefix_of_mem_range hlimit hlower ?_)
    rw [bytesLess_eq, decide_eq_true_eq]
    exact not_le.mp hless

/-- The data keys of a column family are read back and differ, and their byte order is that of the
user keys and, within a user key, from the newest timestamp to the oldest; the limit of a byte
string is the least one above all its extensions, and there is no limit exactly when nothing is
above them. Assumes: the user keys are valid. -/
theorem dataKeys_ordered (cf : UInt32) {user other : Bytes} (ts ts' : UInt64)
    (huser : validateKey user = true) (hother : validateKey other = true) :
    decodeDataKeyIn (encodeDataKeyIn cf user ts) cf = some (user, ts) ∧
      (encodeDataKeyIn cf user ts = encodeDataKeyIn cf other ts' → user = other ∧ ts = ts') ∧
      (encodeDataKeyIn cf user ts < encodeDataKeyIn cf other ts' ↔
        user < other ∨ user = other ∧ ts' < ts) ∧
      ∀ b, (∀ limit, prefixLimit b = some limit ↔ IsLeast (above b) limit) ∧
        (prefixLimit b = none ↔ above b = ∅) := by
  have hread := decodeDataKeyIn_encodeDataKeyIn cf
  refine ⟨hread user ts, fun heq ↦ ?_, ?_, fun b ↦ ?_⟩
  · have hpair := (hread user ts).symm.trans (heq ▸ hread other ts')
    exact Prod.mk.inj (Option.some.inj hpair)
  · rw [← encodeDataKeyIn_lt_iff cf (not_mem_zero huser) (not_mem_zero hother), bytesLess_eq,
      decide_eq_true_eq]
  · cases hlimit : prefixLimit b with
    | none =>
      have hempty := above_eq_empty hlimit
      refine ⟨fun limit ↦ iff_of_false (by simp) fun hleast ↦ ?_, iff_of_true rfl hempty⟩
      exact Set.notMem_empty limit (hempty ▸ hleast.1)
    | some least =>
      have hleast := isLeast_prefixLimit hlimit
      refine ⟨fun limit ↦ ⟨fun heq ↦ Option.some.inj heq ▸ hleast, fun hother ↦ ?_⟩, ?_⟩
      · rw [hleast.unique hother]
      · exact iff_of_false (by simp) (Set.nonempty_iff_ne_empty.mp ⟨least, hleast.1⟩)

/-- A key and a longer one with another timestamp, in the second column family. -/
theorem dataKeys_ordered_extension :
    encodeDataKeyIn 2 [97] 3 < encodeDataKeyIn 2 [97, 98] 5 :=
  (dataKeys_ordered 2 3 5 (by decide : validateKey [97] = true)
    (by decide : validateKey [97, 98] = true)).2.2.1.mpr (.inl (by decide))

end MoreConsensus.KV
