import ApiAnnotations.Proofs.Text.Words
import ApiAnnotations.Text.Decimal
import Mathlib.Data.List.Induction

/-! # Reading numerals

* `unsigned?_ofNat` : the canonical numeral of a number within the bound is read as that number.
* `isWord_ofNat` : it is a word.
* `IsNumeral n s` : the text is a numeral of the number. `unsigned?_eq_some_iff` : these are the
  texts that are read as that number. -/

namespace ApiAnnotations.Text.Decimal

theorem isDigit_of_mem_ofNat {n : Nat} {c : Char} (h : c ∈ ofNat n) : isDigit c = true := by
  have hc := Nat.isDigit_of_mem_toDigits (by decide) (by decide) h
  simpa [isDigit, Char.isDigit, Char.le_def] using hc

theorem not_blank_of_isDigit {c : Char} (h : isDigit c = true) : isBlank c = false := by
  have hrange : 48 ≤ c.toNat ∧ c.toNat ≤ 57 := by
    rw [isDigit, Bool.and_eq_true, decide_eq_true_eq, decide_eq_true_eq] at h
    exact h
  simp only [isBlank, Bool.or_eq_false_iff, Bool.and_eq_false_iff, decide_eq_false_iff_not,
    beq_eq_false_iff_ne]
  omega

theorem value_ofNat (n : Nat) : value (ofNat n) = n := by
  have h := Nat.ofDigitChars_ten_toDigits (n := n)
  rw [Nat.ofDigitChars_eq_foldl] at h
  simpa [value, valueFrom, digitValue, ofNat, Nat.mul_comm] using h

theorem dropPlus_of_digits {digits : Text} (h : ∀ c ∈ digits, isDigit c = true) :
    dropPlus digits = digits := by
  unfold dropPlus
  split
  · exact absurd (h '+' List.mem_cons_self) (by decide)
  · rfl

theorem dropPlus_ofNat (n : Nat) : dropPlus (ofNat n) = ofNat n :=
  dropPlus_of_digits fun _ => isDigit_of_mem_ofNat

/-- **A numeral is read back.** -/
theorem unsigned?_ofNat {most n : Nat} (h : n ≤ most) : unsigned? most (ofNat n) = some n := by
  have hdigits : (ofNat n).all isDigit = true :=
    List.all_eq_true.mpr fun c hc => isDigit_of_mem_ofNat hc
  rw [unsigned?, dropPlus_ofNat, value_ofNat]
  exact if_pos ⟨Nat.toDigits_ne_nil, hdigits, h⟩

theorem isWord_ofNat (n : Nat) : IsWord (ofNat n) :=
  ⟨Nat.toDigits_ne_nil, fun _ hc => not_blank_of_isDigit (isDigit_of_mem_ofNat hc)⟩

/-! ## Numerals of a number -/

/-- The text is a numeral of `n`: the canonical one behind any number of zeros, and behind a plus
sign or not. -/
inductive IsNumeral (n : Nat) : Text → Prop
  | plain (zeros : Nat) : IsNumeral n (List.replicate zeros '0' ++ ofNat n)
  | signed (zeros : Nat) : IsNumeral n ('+' :: (List.replicate zeros '0' ++ ofNat n))

theorem digitValue_lt {c : Char} (h : isDigit c = true) : digitValue c < 10 := by
  rw [isDigit, Bool.and_eq_true, decide_eq_true_eq, decide_eq_true_eq] at h
  have hle : c.toNat ≤ 57 := h.2
  have hvalue : digitValue c = c.toNat - 48 := rfl
  omega

theorem digitChar_digitValue {c : Char} (h : isDigit c = true) : (digitValue c).digitChar = c := by
  have hchar : ∀ k < 10, Nat.digitChar k = Char.ofNat (k + 48) := by decide
  rw [hchar _ (digitValue_lt h)]
  rw [isDigit, Bool.and_eq_true, decide_eq_true_eq, decide_eq_true_eq] at h
  have hvalue : digitValue c + 48 = c.toNat := Nat.sub_add_cancel h.1
  rw [hvalue, Char.ofNat_toNat]

theorem value_zeros_append (zeros : Nat) (digits : Text) :
    value (List.replicate zeros '0' ++ digits) = value digits := by
  induction zeros with
  | zero => rfl
  | succ zeros ih => exact ih

theorem ofNat_concat {n d : Nat} (hn : 0 < n) (hd : d < 10) :
    ofNat (n * 10 + d) = ofNat n ++ [d.digitChar] := by
  rw [ofNat, Nat.mul_comm, ← Nat.toDigits_append_toDigits (by decide) hn hd,
    Nat.toDigits_of_lt_base hd]
  rfl

/-- **Digits are a canonical numeral behind zeros.** -/
theorem exists_zeros {digits : Text} (hne : digits ≠ [])
    (hdigits : ∀ c ∈ digits, isDigit c = true) :
    ∃ zeros n, digits = List.replicate zeros '0' ++ ofNat n := by
  induction digits using List.reverseRecOn with
  | nil => exact absurd rfl hne
  | append_singleton digits c ih =>
    have hc : isDigit c = true := hdigits c (by simp)
    have hlast : ofNat (digitValue c) = [c] := by
      rw [ofNat, Nat.toDigits_of_lt_base (digitValue_lt hc), digitChar_digitValue hc]
    by_cases hnil : digits = []
    · exact ⟨0, digitValue c, by rw [hnil, hlast]; rfl⟩
    · obtain ⟨zeros, n, heq⟩ := ih hnil fun d hd => hdigits d (List.mem_append_left _ hd)
      rcases Nat.eq_zero_or_pos n with rfl | hpos
      · -- All digits before the last one are zeros.
        have hzeros : digits = List.replicate (zeros + 1) '0' := by
          rw [heq, List.replicate_succ']
          rfl
        exact ⟨zeros + 1, digitValue c, by rw [hzeros, hlast]⟩
      · refine ⟨zeros, n * 10 + digitValue c, ?_⟩
        rw [ofNat_concat hpos (digitValue_lt hc), digitChar_digitValue hc, ← List.append_assoc,
          ← heq]

theorem isDigit_of_mem_zeros {zeros n : Nat} {c : Char}
    (h : c ∈ List.replicate zeros '0' ++ ofNat n) : isDigit c = true := by
  rcases List.mem_append.mp h with h | h
  · rw [(List.mem_replicate.mp h).2]
    rfl
  · exact isDigit_of_mem_ofNat h

/-- A numeral is an optional plus sign and digits with the value of the number. -/
theorem isNumeral_iff {s : Text} {n : Nat} :
    IsNumeral n s ↔
      dropPlus s ≠ [] ∧ (∀ c ∈ dropPlus s, isDigit c = true) ∧ value (dropPlus s) = n := by
  have hdigits : ∀ zeros, List.replicate zeros '0' ++ ofNat n ≠ [] ∧
      (∀ c ∈ List.replicate zeros '0' ++ ofNat n, isDigit c = true) ∧
      value (List.replicate zeros '0' ++ ofNat n) = n := by
    intro zeros
    refine ⟨?_, fun c => isDigit_of_mem_zeros, by rw [value_zeros_append, value_ofNat]⟩
    exact List.append_ne_nil_of_right_ne_nil _ Nat.toDigits_ne_nil
  constructor
  · rintro (zeros | zeros)
    · rw [dropPlus_of_digits fun c => isDigit_of_mem_zeros]
      exact hdigits zeros
    · exact hdigits zeros
  · rintro ⟨hne, hall, rfl⟩
    obtain ⟨zeros, n, heq⟩ := exists_zeros hne hall
    have hvalue : value (dropPlus s) = n := by rw [heq, value_zeros_append, value_ofNat]
    rw [hvalue]
    unfold dropPlus at heq
    split at heq
    · rw [heq]
      exact .signed zeros
    · rw [heq]
      exact .plain zeros

theorem IsNumeral.unique {s : Text} {m n : Nat} (hm : IsNumeral m s) (hn : IsNumeral n s) :
    m = n := by
  rw [← (isNumeral_iff.mp hm).2.2, (isNumeral_iff.mp hn).2.2]

/-- Some number is denoted by an optional plus sign and at least one digit. -/
theorem exists_isNumeral_iff {s : Text} :
    (∃ n, IsNumeral n s) ↔ ∃ digits, (s = digits ∨ s = '+' :: digits) ∧ digits ≠ [] ∧
      ∀ c ∈ digits, isDigit c = true := by
  constructor
  · rintro ⟨n, zeros | zeros⟩
    all_goals
      have hne : List.replicate zeros '0' ++ ofNat n ≠ [] :=
        List.append_ne_nil_of_right_ne_nil _ Nat.toDigits_ne_nil
    · exact ⟨_, .inl rfl, hne, fun c => isDigit_of_mem_zeros⟩
    · exact ⟨_, .inr rfl, hne, fun c => isDigit_of_mem_zeros⟩
  · rintro ⟨digits, hs, hne, hall⟩
    obtain ⟨zeros, n, rfl⟩ := exists_zeros hne hall
    rcases hs with rfl | rfl
    · exact ⟨n, .plain zeros⟩
    · exact ⟨n, .signed zeros⟩

/-- **The texts that are read as a number** are its numerals, if it is within the bound. -/
theorem unsigned?_eq_some_iff {most n : Nat} {s : Text} :
    unsigned? most s = some n ↔ IsNumeral n s ∧ n ≤ most := by
  rw [isNumeral_iff]
  simp only [unsigned?, List.all_eq_true]
  constructor
  · intro h
    split at h
    · next hread =>
      obtain rfl := Option.some.inj h
      exact ⟨⟨hread.1, hread.2.1, rfl⟩, hread.2.2⟩
    · cases h
  · rintro ⟨⟨hne, hall, rfl⟩, hmost⟩
    exact if_pos ⟨hne, hall, hmost⟩

theorem unsigned?_eq_none_iff {most : Nat} {s : Text} :
    unsigned? most s = none ↔ ∀ n, IsNumeral n s → most < n := by
  rw [Option.eq_none_iff_forall_ne_some]
  simp only [ne_eq, unsigned?_eq_some_iff, not_and, Nat.not_le]

end ApiAnnotations.Text.Decimal
