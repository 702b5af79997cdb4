import Mathlib

/-!
# Codes that can be concatenated

`SelfDelimiting S encode`: in front of any further text, the encoding of a value of `S` determines
the value and where it ends. Injective encodings of one length are self-delimiting
(`SelfDelimiting.of_length`), and so is a sequence behind its length when its members are
(`SelfDelimiting.counted`). Texts written field by field are compared with `SelfDelimiting.iff`.
-/

set_option autoImplicit false

namespace MoreConsensus.Library

variable {α β : Type}

/-- In front of any further text, the encoding of a value determines the value and where it ends. -/
def SelfDelimiting (S : Set α) (encode : α → List β) : Prop :=
  ∀ ⦃a⦄, a ∈ S → ∀ ⦃b⦄, b ∈ S → ∀ ⦃x y : List β⦄, encode a ++ x = encode b ++ y → a = b ∧ x = y

namespace SelfDelimiting

variable {S : Set α} {encode : α → List β}

theorem iff (h : SelfDelimiting S encode) {a b : α} (ha : a ∈ S) (hb : b ∈ S) {x y : List β} :
    encode a ++ x = encode b ++ y ↔ a = b ∧ x = y := by
  constructor
  · exact fun heq ↦ h ha hb heq
  · rintro ⟨rfl, rfl⟩
    rfl

theorem of_length {n : ℕ} (hlength : ∀ a ∈ S, (encode a).length = n) (hinj : S.InjOn encode) :
    SelfDelimiting S encode := by
  intro a ha b hb x y heq
  obtain ⟨hword, hrest⟩ := List.append_inj heq ((hlength a ha).trans (hlength b hb).symm)
  exact ⟨hinj ha hb hword, hrest⟩

/-- Sequences of one length. -/
theorem flatMap_append (h : SelfDelimiting S encode) {as bs : List α} (has : ∀ a ∈ as, a ∈ S)
    (hbs : ∀ b ∈ bs, b ∈ S) (hlength : as.length = bs.length) {x y : List β}
    (heq : as.flatMap encode ++ x = bs.flatMap encode ++ y) : as = bs ∧ x = y := by
  induction as generalizing bs with
  | nil =>
    obtain rfl := List.length_eq_zero_iff.mp hlength.symm
    exact ⟨rfl, heq⟩
  | cons a as ih =>
    cases bs with
    | nil => cases hlength
    | cons b bs =>
      rw [List.flatMap_cons, List.flatMap_cons, List.append_assoc, List.append_assoc] at heq
      obtain ⟨rfl, htail⟩ := h (has a List.mem_cons_self) (hbs b List.mem_cons_self) heq
      obtain ⟨rfl, hrest⟩ := ih (fun c hc ↦ has c (List.mem_cons_of_mem _ hc))
        (fun c hc ↦ hbs c (List.mem_cons_of_mem _ hc)) (Nat.succ.inj hlength) htail
      exact ⟨rfl, hrest⟩

/-- A sequence behind its length. -/
theorem counted {lengths : Set ℕ} {count : ℕ → List β} (hcount : SelfDelimiting lengths count)
    (h : SelfDelimiting S encode) :
    SelfDelimiting {as : List α | as.length ∈ lengths ∧ ∀ a ∈ as, a ∈ S}
      fun as ↦ count as.length ++ as.flatMap encode := by
  rintro as ⟨has, hmem⟩ bs ⟨hbs, hmem'⟩ x y heq
  rw [List.append_assoc, List.append_assoc] at heq
  obtain ⟨hlength, heq⟩ := hcount has hbs heq
  exact h.flatMap_append hmem hmem' hlength heq

end SelfDelimiting

end MoreConsensus.Library
