import ApiAnnotations.Proofs.Json.Numeral

/-! # The numerals of floats

Whatever the layout of a float is, its text is a numeral that can be read. It need not denote the
float again, since a numeral is read with one rounding more than is needed.

* `Binary64.shortest_eq_zero_or_pos` : the shortest decimal has a digit other than zero, unless none
  was found.
* `Numeral.ofNumber` : the numeral of a number, with `Numeral.text_ofNumber` and
  `Numeral.proper_ofNumber`. -/

namespace ApiAnnotations

namespace Binary64

theorem pos_of_gridPoint? {x : Binary64} {k : Int} {n : Nat} (h : x.gridPoint? k = some n) :
    0 < n := by
  simp only [gridPoint?] at h
  generalize x.center * (x.gridUnit k).2 / (x.gridUnit k).1 = below at h
  have hbelow : (x.roundsTo (x.gridUnit k) below && below != 0) = true → 0 < below := by
    rw [Bool.and_eq_true_iff, bne_iff_ne, Nat.pos_iff_ne_zero]
    exact And.right
  split at h
  · next hrounds _ =>
    split at h
    · cases h
      exact hbelow hrounds
    · cases h
      exact Nat.succ_pos below
  · next hrounds _ =>
    cases h
    exact hbelow hrounds
  · cases h
    exact Nat.succ_pos below
  · cases h

theorem searchGrid_eq_zero_or_pos (x : Binary64) (steps : Nat) (k : Int) :
    x.searchGrid steps k = ⟨0, 0⟩ ∨ 0 < (x.searchGrid steps k).digits := by
  induction steps generalizing k with
  | zero => exact .inl rfl
  | succ steps ih =>
    rw [searchGrid]
    cases hpoint : x.gridPoint? k with
    | none => exact ih (k - 1)
    | some n => exact .inr (pos_of_gridPoint? hpoint)

theorem shortest_eq_zero_or_pos (x : Binary64) : x.shortest = ⟨0, 0⟩ ∨ 0 < x.shortest.digits :=
  searchGrid_eq_zero_or_pos x gridSteps x.integerDigits

end Binary64

namespace Json.Numeral

open Text.Decimal (ofNat isDigit)

/-! ## Digits -/

section

variable {s t : Text}

theorem IsDigits.append (hs : IsDigits s) (ht : ∀ c ∈ t, isDigit c = true) : IsDigits (s ++ t) := by
  refine ⟨by simp [hs.ne_nil], fun c hc => ?_⟩
  rcases List.mem_append.mp hc with hc | hc
  · exact hs.digits c hc
  · exact ht c hc

theorem IsDigits.of_append (hs : ∀ c ∈ s, isDigit c = true) (ht : IsDigits t) :
    IsDigits (s ++ t) := by
  refine ⟨by simp [ht.ne_nil], fun c hc => ?_⟩
  rcases List.mem_append.mp hc with hc | hc
  · exact hs c hc
  · exact ht.digits c hc

theorem IsDigits.take (hs : IsDigits s) {n : Nat} (hn : 0 < n) : IsDigits (s.take n) := by
  obtain ⟨c, t, rfl, -⟩ := hs.exists_cons
  obtain ⟨n, rfl⟩ := Nat.exists_eq_succ_of_ne_zero (Nat.ne_of_gt hn)
  exact ⟨List.cons_ne_nil _ _, fun d hd => hs.digits d (List.mem_of_mem_take hd)⟩

theorem IsDigits.drop (hs : IsDigits s) {n : Nat} (hn : n < s.length) : IsDigits (s.drop n) :=
  ⟨by simpa using hn, fun c hc => hs.digits c (List.mem_of_mem_drop hc)⟩

theorem isDigit_zeros (n : Int) : ∀ c ∈ FloatStyle.zeros n, isDigit c = true := by
  intro c hc
  rw [List.eq_of_mem_replicate hc]
  rfl

theorem isDigits_zero : IsDigits ['0'] := isDigits_ofNat 0

/-- Digits that do not begin with a zero. -/
theorem IsDigits.isWhole (hs : IsDigits s) (hzero : s.head? ≠ some '0') : IsWhole s :=
  ⟨hs, fun h => absurd h hzero⟩

end

/-! ## Layouts -/

/-- The numeral of a decimal. The point stands after `before` digits. -/
def ofDecimal (negative : Bool) (d : DecimalFloat) : Numeral :=
  let digits := ofNat d.digits
  let before := (digits.length : Int) + d.exponent
  if 0 ≤ d.exponent ∧ before ≤ floatStyle.mostBefore then
    ⟨negative, digits ++ FloatStyle.zeros d.exponent, some ['0'], none⟩
  else if 0 < before ∧ before ≤ floatStyle.mostBefore then
    ⟨negative, digits.take before.toNat, some (digits.drop before.toNat), none⟩
  else if -floatStyle.fewerAfter < before ∧ before ≤ 0 then
    ⟨negative, ['0'], some (FloatStyle.zeros (-before) ++ digits), none⟩
  else
    let fraction := digits.drop 1
    ⟨negative, digits.take 1, if fraction.isEmpty then none else some fraction,
      some (decide (before - 1 < 0), ofNat (before - 1).natAbs)⟩

theorem text_ofDecimal (negative : Bool) (d : DecimalFloat) :
    (ofDecimal negative d).text = signText negative ++ floatStyle.decimalText d := by
  rw [ofDecimal, FloatStyle.decimalText]
  simp only []
  split
  · simp [text, fractionText, exponentText]
  · split
    · simp [text, fractionText, exponentText]
    · split
      · simp [text, fractionText, exponentText]
      · have hexponent : ∀ e : Int, exponentText (some (decide (e < 0), ofNat e.natAbs)) =
            'e' :: floatStyle.exponentText e := by
          intro e
          rw [exponentText, FloatStyle.exponentText]
          by_cases he : e < 0 <;> simp [he, floatStyle]
        rw [text, hexponent]
        split <;> simp [fractionText]

theorem proper_ofDecimal (negative : Bool) {d : DecimalFloat} (hpos : 0 < d.digits) :
    (ofDecimal negative d).Proper := by
  have hdigits := isDigits_ofNat d.digits
  have hhead := head?_ofNat hpos
  rw [ofDecimal]
  generalize ofNat d.digits = digits at hdigits hhead
  have hfront : ∀ n, 0 < n → IsWhole (digits.take n) := fun n hn =>
    (hdigits.take hn).isWhole (by rwa [List.head?_take, if_neg (Nat.ne_of_gt hn)])
  simp only []
  split
  · refine ⟨(hdigits.append (isDigit_zeros _)).isWhole ?_, ?_, nofun⟩
    · obtain ⟨c, t, rfl, -⟩ := hdigits.exists_cons
      exact hhead
    · rintro s ⟨⟩
      exact isDigits_zero
  · next hexponent =>
    split
    · next hbefore =>
      refine ⟨hfront _ (by omega), ?_, nofun⟩
      rintro s ⟨⟩
      exact hdigits.drop (by omega)
    · split
      · refine ⟨⟨isDigits_zero, fun _ => rfl⟩, ?_, nofun⟩
        rintro s ⟨⟩
        exact .of_append (isDigit_zeros _) hdigits
      · refine ⟨hfront 1 Nat.one_pos, ?_, ?_⟩
        · intro s hs
          split at hs
          · cases hs
          · next hne =>
            cases hs
            exact ⟨fun hnil => hne (List.isEmpty_iff.mpr hnil),
              fun c hc => hdigits.digits c (List.mem_of_mem_drop hc)⟩
        · rintro e ⟨⟩
          exact isDigits_ofNat _

/-- The numeral of a number. -/
def ofNumber : Number → Numeral
  | .integer n => ofInt n
  | .float negative x =>
    if x.isZero then ⟨negative, ['0'], some ['0'], none⟩ else ofDecimal negative x.shortest

theorem text_ofNumber (x : Number) : (ofNumber x).text = numberText x := by
  cases x with
  | integer n => exact text_ofInt n
  | float negative x =>
    rw [ofNumber, numberText, FloatStyle.text]
    split
    · simp [text, fractionText, exponentText, signText]
    · exact text_ofDecimal negative _

theorem proper_ofNumber (x : Number) : (ofNumber x).Proper := by
  have hzero : ∀ negative, (⟨negative, ['0'], some ['0'], none⟩ : Numeral).Proper := fun _ =>
    ⟨⟨isDigits_zero, fun _ => rfl⟩, by rintro s ⟨⟩; exact isDigits_zero, nofun⟩
  cases x with
  | integer n => exact proper_ofInt n
  | float negative x =>
    rw [ofNumber]
    split
    · exact hzero negative
    · rcases x.shortest_eq_zero_or_pos with hnone | hpos
      · rw [hnone]
        exact hzero negative
      · exact proper_ofDecimal negative hpos

end Json.Numeral

end ApiAnnotations
