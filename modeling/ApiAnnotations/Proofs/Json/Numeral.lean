import ApiAnnotations.Json.Numeral
import ApiAnnotations.Proofs.Text.Decimal
import Mathlib.Data.List.TakeDrop

/-! # Reading written numerals

* `Numeral.text` : the text of a numeral, and `Numeral.Proper` : the numerals that can be read.
* `Numeral.read_text` : a numeral is read up to its end, if no numeral goes on.
* `Numeral.value?_ofInt` : the numeral of an integer denotes it, if the integer fits into 64 bits
  with or without a sign. -/

namespace ApiAnnotations

namespace Text.Decimal

/-- A positive number has no leading zero. -/
theorem ofNat_ne_zero_cons {n : Nat} (h : 0 < n) (s : Text) : ofNat n ≠ '0' :: s := by
  induction n using Nat.strongRecOn generalizing s with
  | ind n ih =>
    by_cases hsmall : n < 10
    · rw [ofNat, Nat.toDigits_of_lt_base hsmall]
      intro heq
      have hchar : ∀ k < 10, k.digitChar = '0' → k = 0 := by decide
      have := hchar n hsmall (List.cons.inj heq).1
      omega
    · have hsplit := Nat.toDigits_append_toDigits (b := 10) (n := n / 10) (d := n % 10)
        (by decide) (by omega) (Nat.mod_lt _ (by decide))
      rw [Nat.div_add_mod] at hsplit
      have hhead := ih (n / 10) (by omega) (by omega)
      rw [ofNat, ← hsplit]
      cases hdigits : ofNat (n / 10) with
      | nil => exact absurd hdigits Nat.toDigits_ne_nil
      | cons c t =>
        intro heq
        rw [ofNat] at hdigits
        rw [hdigits, List.cons_append] at heq
        exact hhead t (hdigits.trans (by rw [(List.cons.inj heq).1]))

theorem le_valueFrom (start : Nat) (digits : Text) : start ≤ valueFrom start digits := by
  induction digits generalizing start with
  | nil => exact Nat.le_refl _
  | cons c digits ih =>
    have := ih (start * 10 + digitValue c)
    rw [valueFrom, List.foldl_cons]
    change start ≤ valueFrom (start * 10 + digitValue c) digits
    omega

end Text.Decimal

namespace Json.Numeral

open Text.Decimal (isDigit digitValue ofNat valueFrom isDigit_of_mem_ofNat)

/-- At least one digit, and nothing else. -/
structure IsDigits (s : Text) : Prop where
  ne_nil : s ≠ []
  digits : ∀ c ∈ s, isDigit c = true

/-- Digits without a zero before others. -/
structure IsWhole (s : Text) : Prop extends IsDigits s where
  zero : s.head? = some '0' → s = ['0']

/-- The parts of a numeral are as they can be read. -/
structure Proper (n : Numeral) : Prop where
  whole : IsWhole n.whole
  fraction : ∀ digits ∈ n.fraction, IsDigits digits
  exponent : ∀ e ∈ n.exponent, IsDigits e.2

def signText (negative : Bool) : Text := if negative then ['-'] else []

def fractionText : Option Text → Text
  | none => []
  | some digits => '.' :: digits

/-- An exponent with its sign. -/
def exponentText : Option (Bool × Text) → Text
  | none => []
  | some (negative, digits) => 'e' :: (if negative then '-' else '+') :: digits

/-- The text of a numeral. -/
def text (n : Numeral) : Text :=
  signText n.negative ++ (n.whole ++ (fractionText n.fraction ++ exponentText n.exponent))

/-- No numeral goes on with this text. -/
def Ends (rest : Text) : Prop :=
  ∀ c ∈ rest.head?, isDigit c = false ∧ c ≠ '.' ∧ c ≠ 'e' ∧ c ≠ 'E'

theorem ends_nil : Ends [] := fun _ hc => absurd hc (Option.not_mem_none _)

/-! ## Parts -/

variable {rest : Text}

theorem IsDigits.exists_cons {s : Text} (h : IsDigits s) :
    ∃ c t, s = c :: t ∧ isDigit c = true := by
  cases s with
  | nil => exact absurd rfl h.ne_nil
  | cons c t => exact ⟨c, t, rfl, h.digits c List.mem_cons_self⟩

theorem readDigits_append {digits : Text} (hdigits : IsDigits digits)
    (hrest : ∀ c ∈ rest.head?, isDigit c = false) :
    readDigits (digits ++ rest) = .ok (digits, rest) := by
  have hstop : rest.takeWhile isDigit = [] ∧ rest.dropWhile isDigit = rest := by
    cases rest with
    | nil => exact ⟨rfl, rfl⟩
    | cons c t => simp [hrest c rfl]
  rw [readDigits, List.span_eq_takeWhile_dropWhile, List.takeWhile_append_of_pos hdigits.digits,
    List.dropWhile_append_of_pos hdigits.digits, hstop.1, hstop.2, List.append_nil]
  obtain ⟨c, t, rfl, -⟩ := hdigits.exists_cons
  rfl

theorem readMinus_append {whole : Text} (negative : Bool) (h : IsDigits whole) :
    readMinus (signText negative ++ (whole ++ rest)) = (negative, whole ++ rest) := by
  cases negative with
  | true => rfl
  | false =>
    obtain ⟨c, t, rfl, hc⟩ := h.exists_cons
    change readMinus (c :: (t ++ rest)) = _
    rw [readMinus]
    · rfl
    · intro s heq
      rw [(List.cons.inj heq).1] at hc
      exact absurd hc (by decide)

theorem readWhole_append {whole : Text} (h : IsWhole whole)
    (hrest : ∀ c ∈ rest.head?, isDigit c = false) :
    readWhole (whole ++ rest) = .ok (whole, rest) := by
  by_cases hzero : whole.head? = some '0'
  · rw [h.zero hzero]
    change readWhole ('0' :: rest) = .ok (['0'], rest)
    cases rest with
    | nil => rfl
    | cons c t => simp [readWhole, hrest c rfl]
  · have hread := readDigits_append h.toIsDigits hrest
    obtain ⟨c, t, rfl, -⟩ := h.toIsDigits.exists_cons
    rw [List.cons_append] at hread ⊢
    rw [readWhole]
    · exact hread
    · intro s heq
      exact hzero (congrArg some (List.cons.inj heq).1)

theorem readFraction_append {fraction : Option Text} (h : ∀ digits ∈ fraction, IsDigits digits)
    (hrest : ∀ c ∈ rest.head?, isDigit c = false ∧ c ≠ '.') :
    readFraction (fractionText fraction ++ rest) = .ok (fraction, rest) := by
  cases fraction with
  | none =>
    change readFraction rest = _
    cases rest with
    | nil => rfl
    | cons c t =>
      rw [readFraction]
      intro s heq
      exact (hrest c rfl).2 (List.cons.inj heq).1
  | some digits =>
    change (readDigits (digits ++ rest)).map _ = _
    rw [readDigits_append (h digits rfl) fun c hc => (hrest c hc).1]
    rfl

theorem readExponent_append {exponent : Option (Bool × Text)}
    (h : ∀ e ∈ exponent, IsDigits e.2) (hrest : Ends rest) :
    readExponent (exponentText exponent ++ rest) = .ok (exponent, rest) := by
  cases exponent with
  | none =>
    change readExponent rest = _
    cases rest with
    | nil => rfl
    | cons c t => simp [readExponent, (hrest c rfl).2.2.1, (hrest c rfl).2.2.2]
  | some e =>
    obtain ⟨negative, digits⟩ := e
    have hread := readDigits_append (h _ rfl) fun c hc => (hrest c hc).1
    have hsign : readSign ((if negative then '-' else '+') :: (digits ++ rest)) =
        (negative, digits ++ rest) := by
      cases negative <;> rfl
    simp only [exponentText, List.cons_append, readExponent, true_or, if_true, hsign, hread]
    rfl

/-- **A numeral is read up to its end.** -/
theorem read_text {n : Numeral} (h : n.Proper) (hrest : Ends rest) :
    read (n.text ++ rest) = .ok (n, rest) := by
  have hexponent : ∀ c ∈ (exponentText n.exponent ++ rest).head?, isDigit c = false ∧ c ≠ '.' := by
    cases n.exponent with
    | none => exact fun c hc => ⟨(hrest c hc).1, (hrest c hc).2.1⟩
    | some e => rintro c ⟨⟩; decide
  have hfraction : ∀ c ∈ (fractionText n.fraction ++ (exponentText n.exponent ++ rest)).head?,
      isDigit c = false := by
    cases n.fraction with
    | none => exact fun c hc => (hexponent c hc).1
    | some digits => rintro c ⟨⟩; decide
  simp only [text, List.append_assoc, read, readMinus_append n.negative h.whole.toIsDigits,
    readWhole_append h.whole hfraction, readFraction_append h.fraction hexponent,
    readExponent_append h.exponent hrest, bind, Except.bind]

/-- A numeral begins with a minus sign or a digit. -/
theorem text_eq_cons {n : Numeral} (h : n.Proper) :
    ∃ c s, n.text = c :: s ∧ (c = '-' ∨ isDigit c = true) := by
  rw [text]
  cases n.negative with
  | true => exact ⟨'-', _, rfl, .inl rfl⟩
  | false =>
    obtain ⟨c, t, hwhole, hc⟩ := h.whole.toIsDigits.exists_cons
    exact ⟨c, _, by rw [hwhole]; rfl, .inr hc⟩

/-! ## Integers -/

theorem isDigits_ofNat (n : Nat) : IsDigits (ofNat n) :=
  ⟨Nat.toDigits_ne_nil, fun _ => isDigit_of_mem_ofNat⟩

theorem head?_ofNat {n : Nat} (h : 0 < n) : (ofNat n).head? ≠ some '0' := by
  obtain ⟨c, t, hdigits, -⟩ := (isDigits_ofNat n).exists_cons
  rw [hdigits]
  intro hzero
  exact Text.Decimal.ofNat_ne_zero_cons h t (hdigits.trans (by rw [Option.some.inj hzero]))

theorem isWhole_ofNat (n : Nat) : IsWhole (ofNat n) := by
  refine ⟨isDigits_ofNat n, fun hzero => ?_⟩
  rcases Nat.eq_zero_or_pos n with rfl | hpos
  · rfl
  · exact absurd hzero (head?_ofNat hpos)

/-- The numeral of an integer. -/
def ofInt : Int → Numeral
  | .ofNat n => ⟨false, ofNat n, none, none⟩
  | .negSucc n => ⟨true, ofNat (n + 1), none, none⟩

theorem proper_ofInt (n : Int) : (ofInt n).Proper := by
  cases n <;> exact ⟨isWhole_ofNat _, nofun, nofun⟩

theorem text_ofInt (n : Int) : (ofInt n).text = Text.Decimal.ofInt n := by
  cases n <;> simp [text, ofInt, Text.Decimal.ofInt, signText, fractionText, exponentText]

/-! ## Values -/

theorem collect_eq {start : Nat} {digits : Text} (h : valueFrom start digits ≤ maxSignificand) :
    collect start digits = (valueFrom start digits, []) := by
  induction digits generalizing start with
  | nil => rfl
  | cons c digits ih =>
    have hnext : start * 10 + digitValue c ≤ maxSignificand :=
      Nat.le_trans (Text.Decimal.le_valueFrom _ digits) h
    rw [collect, if_pos hnext]
    exact ih h

theorem collect_ofNat {n : Nat} (h : n ≤ maxSignificand) : collect 0 (ofNat n) = (n, []) := by
  have hvalue : valueFrom 0 (ofNat n) = n := Text.Decimal.value_ofNat n
  rw [collect_eq (hvalue.symm ▸ h), hvalue]

/-- Integers that fit into 64 bits, with or without a sign. -/
def InRange (n : Int) : Prop := -(maxNegative : Int) ≤ n ∧ n ≤ maxSignificand

instance (n : Int) : Decidable (InRange n) := inferInstanceAs (Decidable (_ ∧ _))

/-- **The numeral of an integer denotes it.** -/
theorem value?_ofInt {n : Int} (h : InRange n) : (ofInt n).value? = some (.integer n) := by
  obtain ⟨hleast, hgreatest⟩ := h
  cases n with
  | ofNat n =>
    have hn : n ≤ maxSignificand := Int.ofNat_le.mp hgreatest
    simp [value?, ofInt, collect_ofNat hn]
  | negSucc n =>
    have hn : n + 1 ≤ maxNegative := by omega
    have hfits : n + 1 ≤ maxSignificand := Nat.le_trans hn (by decide)
    simp only [value?, ofInt, collect_ofNat hfits, Bool.not_true, Bool.false_eq_true, if_false]
    rw [if_pos ⟨Nat.succ_ne_zero n, hn⟩]
    rfl

end Json.Numeral

end ApiAnnotations
