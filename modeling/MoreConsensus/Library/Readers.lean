import Mathlib

/-!
# Byte readers and what they read back

Base-128 numbers of at most 64 bits (`putUvarint`, `uvarint`) and readers of byte streams with a
sticky error flag: a reader that has failed goes on and returns defaults, and its caller looks at
the flag when it is done. A caller that gives up at once ends the reading, the `none` of `Reading`.

Two laws describe a reader, and both compose. `Reads`: in front of any further input the reader
turns the given bytes into the given value and consumes exactly those. `Takes`: if the flag is down
after a reading, it was down before, and the input consumed is the encoding of the value returned.

`Agrees` compares two readers: they accept from the same inputs, coming to an end with the flag
down, and leave the same behind. It composes too (`Agrees.bind`), and it does not see where on the
way the flag is looked at (`Agrees.unflag`).
-/

set_option autoImplicit false

namespace MoreConsensus.Library

/-! ### Base-128 numbers -/

/-- The base-128 digits of a number, the least significant first and every digit but the last
with its top bit set; at most `count` of them. -/
def digits : ℕ → ℕ → List UInt8
  | 0, _ => []
  | count + 1, value =>
    if value < 128 then [UInt8.ofNat value]
    else UInt8.ofNat (value % 128 + 128) :: digits count (value / 128)

/-- The number read from at most `count` digits, with the rest of the input. Of the last digit
allowed only one bit counts. -/
def ofDigits : ℕ → List UInt8 → Option (ℕ × List UInt8)
  | 0, _ => none
  | _ + 1, [] => none
  | count + 1, digit :: rest =>
    if digit.toNat < 128 then
      if count = 0 ∧ 1 < digit.toNat then none else some (digit.toNat, rest)
    else (ofDigits count rest).map fun (high, rest) ↦ (digit.toNat - 128 + 128 * high, rest)

/-- Enough digits give a number back, whatever follows them. -/
theorem ofDigits_digits (count value : ℕ) (rest : List UInt8)
    (hvalue : value < 2 ^ (7 * count + 1)) :
    ofDigits (count + 1) (digits (count + 1) value ++ rest) = some (value, rest) := by
  induction count generalizing value with
  | zero =>
    have hsmall : value < 2 := by simpa using hvalue
    have hdigit : (UInt8.ofNat value).toNat = value := by
      rw [UInt8.toNat_ofNat']
      exact Nat.mod_eq_of_lt (by omega)
    have hlow : value < 128 := by omega
    have hlast : ¬ 1 < value := by omega
    simp [digits, ofDigits, hlow, hdigit, hlast]
  | succ count ih =>
    by_cases hlow : value < 128
    · have hdigit : (UInt8.ofNat value).toNat = value := by
        rw [UInt8.toNat_ofNat']
        exact Nat.mod_eq_of_lt (by omega)
      simp [digits, ofDigits, hlow, hdigit]
    · have hdigit : (UInt8.ofNat (value % 128 + 128)).toNat = value % 128 + 128 := by
        rw [UInt8.toNat_ofNat']
        exact Nat.mod_eq_of_lt (by omega)
      have hhigh : value / 128 < 2 ^ (7 * count + 1) := by
        rw [Nat.div_lt_iff_lt_mul (by decide)]
        calc value < 2 ^ (7 * (count + 1) + 1) := hvalue
          _ = 2 ^ (7 * count + 1) * 128 := by rw [Nat.mul_succ, Nat.add_right_comm, Nat.pow_add]
      have hrest := ih (value / 128) hhigh
      rw [digits, if_neg hlow, List.cons_append, ofDigits, hdigit, if_neg (by omega), hrest]
      simp only [Option.map_some, Option.some.injEq, Prod.mk.injEq, and_true]
      omega

/-- The length of the longest encoding of a 64-bit number. -/
def maxVarintLen64 : ℕ := 10

def putUvarint (value : UInt64) : List UInt8 := digits maxVarintLen64 value.toNat

/-- The number at the head of the input and what follows it, if there is one of 64 bits. -/
def uvarint (src : List UInt8) : Option (UInt64 × List UInt8) :=
  (ofDigits maxVarintLen64 src).map fun (value, rest) ↦ (UInt64.ofNat value, rest)

@[simp] theorem uvarint_putUvarint (value : UInt64) (rest : List UInt8) :
    uvarint (putUvarint value ++ rest) = some (value, rest) := by
  have hread := ofDigits_digits 9 value.toNat rest value.toNat_lt
  rw [uvarint, putUvarint, maxVarintLen64, hread]
  simp

variable {rest : List UInt8}

theorem ofDigits_lt {count value : ℕ} {src : List UInt8}
    (hread : ofDigits (count + 1) src = some (value, rest)) : value < 2 ^ (7 * count + 1) := by
  induction count generalizing src value with
  | zero =>
    cases src with
    | nil => cases hread
    | cons digit src =>
      rw [ofDigits] at hread
      split_ifs at hread with hlast hlarge
      · simp only [Option.some.injEq, Prod.mk.injEq] at hread
        simp only [true_and, Nat.not_lt] at hlarge
        omega
      · cases hread
  | succ count ih =>
    have hpow : 2 ^ (7 * (count + 1) + 1) = 2 ^ (7 * count + 1) * 128 := by
      rw [Nat.mul_succ, Nat.add_right_comm, Nat.pow_add]
    have hpos : 0 < 2 ^ (7 * count + 1) := Nat.two_pow_pos _
    cases src with
    | nil => cases hread
    | cons digit src =>
      have hdigit := digit.toNat_lt
      rw [ofDigits] at hread
      split_ifs at hread with hlast
      · simp only [Option.some.injEq, Prod.mk.injEq] at hread
        omega
      · obtain ⟨⟨high, tail⟩, hhigh, heq⟩ := Option.map_eq_some_iff.mp hread
        simp only [Prod.mk.injEq] at heq
        obtain ⟨hvalue, rfl⟩ := heq
        have hbound := ih hhigh
        omega

/-- As many digits as the shortest spelling has are that spelling. -/
theorem ofDigits_eq_some {count value : ℕ} {src : List UInt8}
    (hread : ofDigits count src = some (value, rest)) :
    ∃ spelled, src = spelled ++ rest ∧ spelled ≠ [] ∧ ∀ most, count ≤ most →
      (digits most value).length = spelled.length → spelled = digits most value := by
  induction count generalizing src value with
  | zero => cases hread
  | succ count ih =>
    cases src with
    | nil => cases hread
    | cons digit src =>
      have hdigit := digit.toNat_lt
      rw [ofDigits] at hread
      split_ifs at hread with hlast hlarge
      · simp only [Option.some.injEq, Prod.mk.injEq] at hread
        obtain ⟨rfl, rfl⟩ := hread
        refine ⟨[digit], rfl, by simp, fun most hmost _ ↦ ?_⟩
        obtain ⟨most, rfl⟩ := Nat.exists_eq_succ_of_ne_zero (Nat.ne_zero_of_lt hmost)
        rw [Nat.succ_eq_add_one, digits, if_pos hlast, UInt8.ofNat_toNat]
      · obtain ⟨⟨high, tail⟩, hhigh, heq⟩ := Option.map_eq_some_iff.mp hread
        simp only [Prod.mk.injEq] at heq
        obtain ⟨hvalue, rfl⟩ := heq
        obtain ⟨spelled, rfl, hsome, hspelled⟩ := ih hhigh
        refine ⟨digit :: spelled, rfl, by simp, fun most hmost hlength ↦ ?_⟩
        obtain ⟨most, rfl⟩ := Nat.exists_eq_succ_of_ne_zero (Nat.ne_zero_of_lt hmost)
        have hlow : value % 128 + 128 = digit.toNat := by omega
        have hhigh : value / 128 = high := by omega
        rw [Nat.succ_eq_add_one, digits] at hlength ⊢
        split_ifs at hlength ⊢ with hsmall
        · exact absurd (by simpa using hlength.symm) hsome
        · rw [hlow, hhigh, UInt8.ofNat_toNat]
          rw [hhigh, List.length_cons, List.length_cons, Nat.add_right_cancel_iff] at hlength
          rw [hspelled most (Nat.le_of_succ_le_succ hmost) hlength]

theorem length_putUvarint_pos (value : UInt64) : 0 < (putUvarint value).length := by
  rw [putUvarint, maxVarintLen64, digits]
  split <;> exact Nat.succ_pos _

/-- A spelling of the length of the shortest one is the shortest one. -/
theorem uvarint_eq_some {src : List UInt8} {value : UInt64}
    (hread : uvarint src = some (value, rest))
    (hlength : (putUvarint value).length = src.length - rest.length) :
    src = putUvarint value ++ rest := by
  obtain ⟨⟨number, tail⟩, hdigits, heq⟩ := Option.map_eq_some_iff.mp hread
  simp only [Prod.mk.injEq] at heq
  obtain ⟨rfl, rfl⟩ := heq
  have hnumber : (UInt64.ofNat number).toNat = number := by
    rw [UInt64.toNat_ofNat']
    exact Nat.mod_eq_of_lt (ofDigits_lt hdigits)
  obtain ⟨spelled, rfl, -, hspelled⟩ := ofDigits_eq_some hdigits
  rw [putUvarint, hnumber] at hlength ⊢
  rw [List.length_append, Nat.add_sub_cancel] at hlength
  exact congrArg (· ++ tail) (hspelled maxVarintLen64 (Nat.le_refl _) hlength)

/-! ### Readers -/

/-- The unread input, and whether an earlier reading failed. -/
structure Reader where
  b : List UInt8
  err : Bool := false
  deriving DecidableEq, Repr

/-- A reading step; `none` when the caller gives up at once. -/
abbrev Reading (α : Type) := StateT Reader Option α

namespace Reading

variable {α β : Type} {read : Reading α} {next : α → Reading β} {encode : α → List UInt8}
  {bytes : List UInt8} {result : β}

/-- In front of any further input the reader turns `bytes` into `value` and consumes them. -/
def Reads (read : Reading α) (bytes : List UInt8) (value : α) : Prop :=
  ∀ rest, read.run ⟨bytes ++ rest, false⟩ = some (value, ⟨rest, false⟩)

/-- If the flag is down after the reading, it was down before, and what the reader consumed makes
`before`, the bytes consumed ahead of it, the encoding of the value. -/
def Takes (before : List UInt8) (read : Reading α) (encode : α → List UInt8) : Prop :=
  ∀ r value r', read.run r = some (value, r') → r'.err = false →
    r.err = false ∧ before ++ r.b = encode value ++ r'.b

theorem Reads.pure (value : α) : Reads (Pure.pure value) [] value := fun _ ↦ rfl

variable {value : α} {condition : Prop} {before : List UInt8} {Q : β → Prop} {γ : Type}
  {other : Reading β}

theorem Reads.bind {bytes more : List UInt8}
    (hread : Reads read bytes value) (hnext : Reads (next value) more result) :
    Reads (read >>= next) (bytes ++ more) result := by
  intro rest
  rw [StateT.run_bind, List.append_assoc, hread (more ++ rest)]
  exact hnext rest

/-- The last reading of a sequence: nothing follows the value it returns. -/
theorem Reads.map (f : α → β)
    (hread : Reads read bytes value) :
    Reads (read >>= fun v ↦ Pure.pure (f v)) bytes (f value) := by
  intro rest
  rw [StateT.run_bind, hread rest]
  rfl

/-- A check that does not refuse is passed over. -/
theorem Reads.guarded [Decidable condition] {refused next : Reading β}
    (hcondition : ¬ condition) (hnext : Reads next bytes result) :
    Reads (if condition then refused else next) bytes result := by
  rwa [if_neg hcondition]

/-- The same reading a number of times. -/
def times (read : Reading α) : ℕ → Reading (List α)
  | 0 => Pure.pure []
  | count + 1 => do
    let value ← read
    let values ← times read count
    Pure.pure (value :: values)

/-- A sequence of encodings is read element by element. -/
theorem Reads.times {read : Reading β} {f : α → β} (values : List α)
    (hread : ∀ value ∈ values, Reads read (encode value) (f value)) :
    Reads (Reading.times read values.length) (values.flatMap encode) (values.map f) := by
  induction values with
  | nil => exact Reads.pure []
  | cons value values ih =>
    have hvalues := ih fun v hv ↦ hread v (List.mem_cons_of_mem _ hv)
    exact (hread value List.mem_cons_self).bind (hvalues.map (f value :: ·))

/-- Tries a reading on a copy of the reader and gives up if it does. -/
def lookahead (read : Reading α) : Reading Unit := fun r ↦
  if (read.run r).isNone then none else some ((), r)

/-- A trial that reads the bytes to come is passed over. -/
theorem Reads.lookahead {trial : Reading α} {next : Reading β} {seen : α}
    (htrial : Reads trial bytes seen) (hnext : Reads next bytes result) :
    Reads (Reading.lookahead trial >>= fun _ ↦ next) bytes result := by
  intro rest
  have hpass : (Reading.lookahead trial).run ⟨bytes ++ rest, false⟩ =
      some ((), ⟨bytes ++ rest, false⟩) := by
    change (if (trial.run ⟨bytes ++ rest, false⟩).isNone then none else _) = _
    rw [htrial rest]
    rfl
  rw [StateT.run_bind, hpass]
  exact hnext rest

/-- Marks the reader as failed. -/
def raise : Reading Unit := fun r ↦ some ((), { r with err := true })

/-- Marks the reader as failed when the condition holds. -/
def raiseIf (condition : Bool) : Reading Unit := if condition then raise else Pure.pure ()

theorem Reads.raiseIf {condition : Bool} {next : Reading β}
    (hcondition : condition = false) (hnext : Reads next bytes result) :
    Reads (Reading.raiseIf condition >>= fun _ ↦ next) bytes result := by
  subst hcondition
  exact hnext

/-- The state of a reader that has read what was written is the unread input alone. -/
theorem Reads.get {next : Reader → Reading β}
    (hnext : ∀ rest, (next ⟨bytes ++ rest, false⟩).run ⟨bytes ++ rest, false⟩ =
      some (result, ⟨rest, false⟩)) :
    Reads (MonadState.get >>= next) bytes result := fun rest ↦ hnext rest

theorem Takes.pure
    (hvalue : before = encode value) : Takes before (Pure.pure value) encode := by
  rintro r _ _ hrun herr
  obtain ⟨rfl, rfl⟩ : value = _ ∧ r = _ := by simpa using hrun
  exact ⟨herr, by rw [hvalue]⟩

/-- A reader adds the encoding of what it returns to the bytes consumed ahead of the next one. -/
theorem Takes.bind
    {encodeAll : β → List UInt8} (hread : Takes [] read encode)
    (hnext : ∀ value, Takes (before ++ encode value) (next value) encodeAll) :
    Takes before (read >>= next) encodeAll := by
  intro r result r' hrun herr
  rw [StateT.run_bind] at hrun
  obtain ⟨⟨value, r₁⟩, hfirst, hsecond⟩ := Option.bind_eq_some_iff.mp hrun
  obtain ⟨herr₁, hafter⟩ := hnext value r₁ result r' hsecond herr
  obtain ⟨herr₀, hbefore⟩ := hread r value r₁ hfirst herr₁
  rw [List.nil_append] at hbefore
  exact ⟨herr₀, by rw [hbefore, ← List.append_assoc, hafter]⟩

/-- A guard can only end the reading. -/
theorem Takes.guarded [Decidable condition]
    {next : Reading β} {encodeAll : β → List UInt8}
    (hnext : ¬ condition → Takes before next encodeAll) :
    Takes before (if condition then failure else next) encodeAll := by
  intro r result r' hrun herr
  split at hrun
  · cases hrun
  · exact hnext ‹_› r result r' hrun herr

/-! ### What a reading can return -/

/-- Whatever the input, a value that is returned has the property. -/
def Yields (read : Reading α) (P : α → Prop) : Prop :=
  ∀ r value r', read.run r = some (value, r') → P value

theorem Yields.pure {P : α → Prop} (hvalue : P value) :
    Yields (Pure.pure value) P := by
  intro r _ _ hrun
  obtain ⟨rfl, rfl⟩ : value = _ ∧ r = _ := by simpa using hrun
  exact hvalue

theorem Yields.bind {P : α → Prop}
    (hread : Yields read P) (hnext : ∀ value, P value → Yields (next value) Q) :
    Yields (read >>= next) Q := by
  intro r result r' hrun
  rw [StateT.run_bind] at hrun
  obtain ⟨⟨value, r₁⟩, hfirst, hsecond⟩ := Option.bind_eq_some_iff.mp hrun
  exact hnext value (hread r value r₁ hfirst) r₁ result r' hsecond

/-- A reading whose value does not matter. -/
theorem Yields.skip
    (hnext : ∀ value, Yields (next value) Q) : Yields (read >>= next) Q :=
  Yields.bind (P := fun _ ↦ True) (fun _ _ _ _ ↦ trivial) fun value _ ↦ hnext value

theorem Yields.guarded [Decidable condition] {next : Reading β}
    (hnext : ¬ condition → Yields next Q) : Yields (if condition then failure else next) Q := by
  intro r result r' hrun
  split at hrun
  · cases hrun
  · exact hnext ‹_› r result r' hrun

theorem Yields.times (read : Reading α) (count : ℕ) :
    Yields (Reading.times read count) fun values ↦ values.length = count := by
  induction count with
  | zero => exact Yields.pure rfl
  | succ count ih =>
    exact Yields.skip fun value ↦ ih.bind fun values hlength ↦ Yields.pure (by simp [hlength])

/-! ### Checked sequences -/

section CheckedTimes

variable {ε : Type} (read : Reading α) (check : Option α → α → Except ε Unit) (malformed : ε)

/-- The same reading a number of times; every value is checked against the one before it, and the
first that cannot be read or does not pass ends the reading with its error. -/
def checkedTimes : ℕ → Option α → Reader → Except ε (List α × Reader)
  | 0, _, r => .ok ([], r)
  | count + 1, previous, r =>
    match read.run r with
    | none => .error malformed
    | some (value, r') =>
      if r'.err then .error malformed
      else match check previous value with
        | .error err => .error err
        | .ok () => (checkedTimes count (some value) r').map fun rest ↦ (value :: rest.1, rest.2)

/-- Every value passes the check against the one before it. -/
def Checked : Option α → List α → Prop
  | _, [] => True
  | previous, value :: values => check previous value = .ok () ∧ Checked (some value) values

variable {read check malformed}

variable {previous : Option α} {values : List α}

/-- What is read is the encodings of the values, one after the other, and they pass; a flag that is
down at the end was down at the start. -/
theorem checkedTimes_eq_ok (htakes : Takes [] read encode) {count : ℕ}
    {r r' : Reader}
    (hread : checkedTimes read check malformed count previous r = .ok (values, r')) :
    r.b = values.flatMap encode ++ r'.b ∧ values.length = count ∧ Checked check previous values ∧
      (r'.err = false → r.err = false) := by
  induction count generalizing previous r values with
  | zero =>
    cases hread
    exact ⟨rfl, rfl, trivial, id⟩
  | succ count ih =>
    rw [checkedTimes] at hread
    split at hread
    · cases hread
    · rename_i value r₁ hrun
      split at hread
      · cases hread
      · rename_i hclean
        split at hread
        · cases hread
        · rename_i hcheck
          cases hrest : checkedTimes read check malformed count (some value) r₁ with
          | error err =>
            rw [hrest] at hread
            cases hread
          | ok rest =>
            rw [hrest] at hread
            cases hread
            obtain ⟨hbytes, hlength, hchecked, -⟩ := ih hrest
            obtain ⟨herr, hvalue⟩ := htakes r value r₁ hrun (Bool.eq_false_iff.mpr hclean)
            rw [List.nil_append] at hvalue
            exact ⟨by rw [hvalue, hbytes, List.flatMap_cons, List.append_assoc],
              by rw [List.length_cons, hlength], ⟨hcheck, hchecked⟩, fun _ ↦ herr⟩

/-- Encodings of values that pass are read back. -/
theorem checkedTimes_append
    (hreads : ∀ value ∈ values, Reads read (encode value) value)
    (hchecked : Checked check previous values) (rest : List UInt8) :
    checkedTimes read check malformed values.length previous
      ⟨values.flatMap encode ++ rest, false⟩ =
      .ok (values, ⟨rest, false⟩) := by
  induction values generalizing previous with
  | nil => rfl
  | cons value values ih =>
    obtain ⟨hcheck, hchecked⟩ := hchecked
    rw [List.length_cons, checkedTimes, List.flatMap_cons, List.append_assoc,
      hreads value List.mem_cons_self]
    simp only [Bool.false_eq_true, if_false, hcheck,
      ih (fun v hv ↦ hreads v (List.mem_cons_of_mem _ hv)) hchecked, Except.map]

/-- A check of each value and of each value against the one before it is a check of each value and
of all pairs, if the relation is transitive. -/
theorem checked_iff {P : α → Prop} {R : α → α → Prop}
    (hcheck : ∀ previous value,
      check previous value = .ok () ↔ P value ∧ ∀ before ∈ previous, R before value)
    (htrans : ∀ a b c, R a b → R b c → R a c)
    :
    Checked check previous values ↔ (∀ value ∈ values, P value) ∧ values.Pairwise R ∧
      ∀ before ∈ previous, ∀ value ∈ values, R before value := by
  induction values generalizing previous with
  | nil => simp [Checked]
  | cons value values ih =>
    rw [Checked, hcheck, ih]
    simp only [Option.mem_def, Option.some.injEq, forall_eq', List.mem_cons, forall_eq_or_imp,
      List.pairwise_cons]
    constructor
    · rintro ⟨⟨hvalue, hbefore⟩, hvalues, hpairs, hafter⟩
      exact ⟨⟨hvalue, hvalues⟩, ⟨hafter, hpairs⟩, fun before h ↦
        ⟨hbefore before h, fun v hv ↦ htrans _ _ _ (hbefore before h) (hafter v hv)⟩⟩
    · rintro ⟨⟨hvalue, hvalues⟩, ⟨hafter, hpairs⟩, hbefore⟩
      exact ⟨⟨hvalue, fun before h ↦ (hbefore before h).1⟩, hvalues, hpairs, hafter⟩

end CheckedTimes

/-! ### Readings that accept the same input -/

/-- The reading comes to its end with the flag down. -/
def Accepts (read : Reading α) (r : Reader) (value : α) (r' : Reader) : Prop :=
  read.run r = some (value, r') ∧ r'.err = false

/-- The reading does not lower the flag. -/
def Sticky (read : Reading α) : Prop := ∀ r value r', Accepts read r value r' → r.err = false

theorem accepts_bind {r r' : Reader} :
    Accepts (read >>= next) r result r' ↔
      ∃ value r₁, read.run r = some (value, r₁) ∧ Accepts (next value) r₁ result r' := by
  rw [Accepts, StateT.run_bind]
  constructor
  · rintro ⟨hrun, herr⟩
    obtain ⟨⟨value, r₁⟩, hfirst, hsecond⟩ := Option.bind_eq_some_iff.mp hrun
    exact ⟨value, r₁, hfirst, hsecond, herr⟩
  · rintro ⟨value, r₁, hfirst, hsecond, herr⟩
    exact ⟨Option.bind_eq_some_iff.mpr ⟨(value, r₁), hfirst, hsecond⟩, herr⟩

theorem Sticky.pure (value : α) : Sticky (Pure.pure value) := by
  rintro r _ _ ⟨hrun, herr⟩
  cases hrun
  exact herr

theorem Sticky.bind (hread : Sticky read)
    (hnext : ∀ value, Sticky (next value)) : Sticky (read >>= next) := by
  intro r result r' haccepts
  obtain ⟨value, r₁, hfirst, hsecond⟩ := accepts_bind.mp haccepts
  exact hread r value r₁ ⟨hfirst, hnext value r₁ result r' hsecond⟩

theorem Sticky.times (hread : Sticky read) (count : ℕ) :
    Sticky (Reading.times read count) := by
  induction count with
  | zero => exact Sticky.pure []
  | succ count ih => exact hread.bind fun _ ↦ ih.bind fun _ ↦ Sticky.pure _

/-- Two readings accept from the same readers and leave the same input. -/
structure Agrees (read : Reading α) (other : Reading β) : Prop where
  sticky : Sticky read
  sticky_other : Sticky other
  forth : ∀ r value r', Accepts read r value r' → ∃ seen, Accepts other r seen r'
  back : ∀ r seen r', Accepts other r seen r' → ∃ value, Accepts read r value r'

theorem Agrees.pure (value : α) (seen : β) : Agrees (Pure.pure value) (Pure.pure seen) where
  sticky := Sticky.pure value
  sticky_other := Sticky.pure seen
  forth r _ r' haccepts := by
    cases haccepts.1
    exact ⟨seen, rfl, haccepts.2⟩
  back r _ r' haccepts := by
    cases haccepts.1
    exact ⟨value, rfl, haccepts.2⟩

/-- Agreeing readings after agreeing ones, whatever each of them read. -/
theorem Agrees.bind {δ : Type} [Nonempty α] [Nonempty γ] {other : Reading γ}
    {nextOther : γ → Reading δ} (hread : Agrees read other)
    (hnext : ∀ value seen, Agrees (next value) (nextOther seen)) :
    Agrees (read >>= next) (other >>= nextOther) where
  sticky := hread.sticky.bind fun value ↦ (hnext value (Classical.arbitrary γ)).sticky
  sticky_other := hread.sticky_other.bind fun seen ↦
    (hnext (Classical.arbitrary α) seen).sticky_other
  forth r result r' haccepts := by
    obtain ⟨value, r₁, hfirst, hsecond⟩ := accepts_bind.mp haccepts
    have herr := (hnext value (Classical.arbitrary γ)).sticky r₁ result r' hsecond
    obtain ⟨seen, hseen⟩ := hread.forth r value r₁ ⟨hfirst, herr⟩
    obtain ⟨last, hlast⟩ := (hnext value seen).forth r₁ result r' hsecond
    exact ⟨last, accepts_bind.mpr ⟨seen, r₁, hseen.1, hlast⟩⟩
  back r result r' haccepts := by
    obtain ⟨seen, r₁, hfirst, hsecond⟩ := accepts_bind.mp haccepts
    have herr := (hnext (Classical.arbitrary α) seen).sticky_other r₁ result r' hsecond
    obtain ⟨value, hvalue⟩ := hread.back r seen r₁ ⟨hfirst, herr⟩
    obtain ⟨last, hlast⟩ := (hnext value seen).back r₁ result r' hsecond
    exact ⟨last, accepts_bind.mpr ⟨value, r₁, hvalue.1, hlast⟩⟩

/-- Agreeing readings after the same reading, which each of them may use. -/
theorem Agrees.bind_same
    {nextOther : α → Reading γ} (hread : Sticky read)
    (hnext : ∀ value, Agrees (next value) (nextOther value)) :
    Agrees (read >>= next) (read >>= nextOther) where
  sticky := hread.bind fun value ↦ (hnext value).sticky
  sticky_other := hread.bind fun value ↦ (hnext value).sticky_other
  forth r result r' haccepts := by
    obtain ⟨value, r₁, hfirst, hsecond⟩ := accepts_bind.mp haccepts
    obtain ⟨last, hlast⟩ := (hnext value).forth r₁ result r' hsecond
    exact ⟨last, accepts_bind.mpr ⟨value, r₁, hfirst, hlast⟩⟩
  back r result r' haccepts := by
    obtain ⟨value, r₁, hfirst, hsecond⟩ := accepts_bind.mp haccepts
    obtain ⟨last, hlast⟩ := (hnext value).back r₁ result r' hsecond
    exact ⟨last, accepts_bind.mpr ⟨value, r₁, hfirst, hlast⟩⟩

theorem Agrees.symm (h : Agrees read other) :
    Agrees other read :=
  ⟨h.sticky_other, h.sticky, h.back, h.forth⟩

theorem Agrees.trans {third : Reading γ}
    (h : Agrees read other) (h' : Agrees other third) : Agrees read third where
  sticky := h.sticky
  sticky_other := h'.sticky_other
  forth r value r' haccepts := by
    obtain ⟨seen, hseen⟩ := h.forth r value r' haccepts
    exact h'.forth r seen r' hseen
  back r value r' haccepts := by
    obtain ⟨seen, hseen⟩ := h'.back r value r' haccepts
    exact h.back r seen r' hseen

theorem Agrees.refl (hread : Sticky read) : Agrees read read :=
  ⟨hread, hread, fun _ value _ haccepts ↦ ⟨value, haccepts⟩,
    fun _ value _ haccepts ↦ ⟨value, haccepts⟩⟩

/-- A reading agrees with itself when something else is made of its value. -/
theorem Agrees.map (hread : Sticky read) (f : α → β) :
    Agrees (read >>= fun value ↦ Pure.pure (f value)) read := by
  have hsame : Agrees (read >>= fun value ↦ Pure.pure (f value)) (read >>= Pure.pure) :=
    Agrees.bind_same hread fun value ↦ Agrees.pure (f value) value
  rwa [bind_pure] at hsame

/-- Readings that accept nothing. -/
theorem Agrees.dead
    (hread : ∀ r value r', ¬ Accepts read r value r')
    (hother : ∀ r value r', ¬ Accepts other r value r') : Agrees read other where
  sticky r value r' haccepts := absurd haccepts (hread r value r')
  sticky_other r value r' haccepts := absurd haccepts (hother r value r')
  forth r value r' haccepts := absurd haccepts (hread r value r')
  back r value r' haccepts := absurd haccepts (hother r value r')

theorem not_accepts_failure (r : Reader) (value : α) (r' : Reader) :
    ¬ Accepts failure r value r' := fun haccepts ↦ nomatch haccepts.1

/-- Nothing is accepted once the flag is raised. -/
theorem not_accepts_raise {next : Unit → Reading β} (hnext : ∀ value, Sticky (next value))
    (r : Reader) (value : β) (r' : Reader) : ¬ Accepts (raise >>= next) r value r' := by
  intro haccepts
  obtain ⟨_, r₁, hraise, hrest⟩ := accepts_bind.mp haccepts
  cases hraise
  exact absurd (hnext () _ value r' hrest) (by simp)

/-- What is read with the flag down in the end has a property. -/
def Secures (read : Reading α) (P : α → Prop) : Prop :=
  ∀ r value r', Accepts read r value r' → P value

theorem Secures.pure {P : α → Prop} (hvalue : P value) : Secures (Pure.pure value) P :=
  fun r value r' haccepts ↦ Yields.pure hvalue r value r' haccepts.1

theorem Yields.secures {P : α → Prop} (hread : Yields read P)
    (hnext : ∀ value, P value → Secures (next value) Q) : Secures (read >>= next) Q := by
  intro r result r' haccepts
  obtain ⟨value, r₁, hfirst, hsecond⟩ := accepts_bind.mp haccepts
  exact hnext value (hread r value r₁ hfirst) r₁ result r' hsecond

theorem Secures.skip (hnext : ∀ value, Secures (next value) Q) : Secures (read >>= next) Q :=
  Yields.secures (P := fun _ ↦ True) (fun _ _ _ _ ↦ trivial) fun value _ ↦ hnext value

/-- The flag is not lowered after the first reading, so it was down there. -/
theorem Secures.bind {P : α → Prop} (hread : Secures read P)
    (hsticky : ∀ value, Sticky (next value))
    (hnext : ∀ value, P value → Secures (next value) Q) : Secures (read >>= next) Q := by
  intro r result r' haccepts
  obtain ⟨value, r₁, hfirst, hsecond⟩ := accepts_bind.mp haccepts
  have herr := hsticky value r₁ result r' hsecond
  exact hnext value (hread r value r₁ ⟨hfirst, herr⟩) r₁ result r' hsecond

theorem Secures.ite [Decidable condition] {other : Reading β} {next : Reading β}
    (hpos : condition → Secures other Q) (hneg : ¬ condition → Secures next Q) :
    Secures (if condition then other else next) Q := by
  split
  · exact hpos ‹_›
  · exact hneg ‹_›

theorem Secures.raise {next : Unit → Reading β} (hnext : ∀ value, Sticky (next value)) :
    Secures (Reading.raise >>= next) Q :=
  fun r value r' haccepts ↦ absurd haccepts (not_accepts_raise hnext r value r')

theorem Secures.raiseIf {flag : Bool} {next : Unit → Reading β}
    (hsticky : ∀ value, Sticky (next value)) (hnext : flag = false → Secures (next ()) Q) :
    Secures (Reading.raiseIf flag >>= next) Q := by
  cases flag with
  | false => exact hnext rfl
  | true => exact Secures.raise hsticky

theorem Agrees.ite [Decidable condition] {read read' : Reading α}
    {other' : Reading β} (hpos : condition → Agrees read other)
    (hneg : ¬ condition → Agrees read' other') :
    Agrees (if condition then read else read') (if condition then other else other') := by
  split
  · exact hpos ‹_›
  · exact hneg ‹_›

/-- A look at the flag ahead of a reading that does not lower it changes nothing. -/
theorem Agrees.unflag [Decidable condition]
    (hread : Sticky read) :
    Agrees (do
        let r ← MonadState.get
        if r.err || decide condition then failure else read)
      (if condition then failure else read) := by
  have hiff (r value r') : Accepts (do
        let r ← MonadState.get
        if r.err || decide condition then failure else read : Reading α) r value r' ↔
      Accepts (if condition then failure else read) r value r' := by
    change Accepts (if r.err || decide condition then failure else read) r value r' ↔ _
    by_cases hcondition : condition
    · simp [hcondition]
    · cases herr : r.err with
      | false => simp [hcondition]
      | true =>
        simp only [hcondition, Bool.true_or, if_true, if_false]
        refine ⟨fun haccepts ↦ absurd haccepts (not_accepts_failure _ _ _), fun haccepts ↦ ?_⟩
        exact absurd (hread r value r' haccepts) (by simp [herr])
  have hplain : Sticky (if condition then failure else read) := by
    split
    · exact fun r value r' haccepts ↦ absurd haccepts (not_accepts_failure r value r')
    · exact hread
  exact ⟨fun r value r' haccepts ↦ hplain r value r' ((hiff r value r').mp haccepts), hplain,
    fun r value r' haccepts ↦ ⟨value, (hiff r value r').mp haccepts⟩,
    fun r value r' haccepts ↦ ⟨value, (hiff r value r').mpr haccepts⟩⟩

/-- A last look at the flag changes nothing. -/
theorem Agrees.flag (value : α) (seen : β) : Agrees (Pure.pure value)
    (do
      let r ← MonadState.get
      if r.err then failure else Pure.pure seen) := by
  have hflag (r last r') (haccepts : Accepts (do
      let r ← MonadState.get
      if r.err then failure else Pure.pure seen : Reading β) r last r') :
      r.err = false ∧ r' = r := by
    change Accepts (if r.err then failure else Pure.pure seen) r last r' at haccepts
    cases herr : r.err with
    | true =>
      rw [herr] at haccepts
      exact absurd haccepts (not_accepts_failure _ _ _)
    | false =>
      rw [herr] at haccepts
      cases haccepts.1
      exact ⟨rfl, rfl⟩
  refine ⟨Sticky.pure value, fun r last r' haccepts ↦ (hflag r last r' haccepts).1,
    fun r last r' haccepts ↦ ?_, fun r last r' haccepts ↦ ?_⟩
  · cases haccepts.1
    refine ⟨seen, ?_⟩
    change Accepts (if r.err then failure else Pure.pure seen) r seen r
    rw [haccepts.2]
    exact ⟨rfl, haccepts.2⟩
  · obtain ⟨herr, rfl⟩ := hflag r last r' haccepts
    exact ⟨value, rfl, herr⟩

theorem Agrees.times [Nonempty α] [Nonempty β]
    (h : Agrees read other) (count : ℕ) :
    Agrees (Reading.times read count) (Reading.times other count) := by
  induction count with
  | zero => exact Agrees.pure [] []
  | succ count ih => exact h.bind fun _ _ ↦ ih.bind fun _ _ ↦ Agrees.pure _ _

/-- A trial ahead that accepts whenever the reading does changes nothing. -/
theorem Agrees.lookahead {trial : Reading γ}
    (htrial : Agrees read trial) (h : Agrees read other) :
    Agrees read (Reading.lookahead trial >>= fun _ ↦ other) := by
  have hrun (r : Reader) : (Reading.lookahead trial >>= fun _ ↦ other).run r =
      if (trial.run r).isNone then none else other.run r := by
    change (if (trial.run r).isNone then none else some ((), r)).bind _ = _
    split <;> rfl
  have hback (r seen r')
      (haccepts : Accepts (Reading.lookahead trial >>= fun _ ↦ other) r seen r') :
      Accepts other r seen r' := by
    rw [Accepts, hrun] at haccepts
    split at haccepts
    · exact absurd haccepts.1 (by simp)
    · exact haccepts
  refine ⟨h.sticky, fun r seen r' haccepts ↦ h.sticky_other r seen r' (hback r seen r' haccepts),
    fun r value r' haccepts ↦ ?_, fun r seen r' haccepts ↦
      h.back r seen r' (hback r seen r' haccepts)⟩
  obtain ⟨seen, hseen⟩ := h.forth r value r' haccepts
  obtain ⟨_, htried⟩ := htrial.forth r value r' haccepts
  refine ⟨seen, ?_⟩
  rw [Accepts, hrun, htried.1]
  exact hseen

end Reading

end MoreConsensus.Library
