import ApiAnnotations.Text.Utf8
import Mathlib.Algebra.Order.Ring.Nat

/-! # Reading UTF-8

* `Utf8.scan_append_ascii` : an ASCII byte ends what was begun before it, so that what stands behind
  it is read as if it stood alone.
* `Utf8.mem_of_some_mem_scan` : an ASCII character is read from its byte only.
* `Utf8.scan_encode` : an encoded text is read back.
* `isUtf8_iff` : nothing else is well-formed. -/

namespace ApiAnnotations.Text

namespace Utf8

/-! ## ASCII bytes -/

/-- What is owed is no ASCII byte, and the value that comes out is no ASCII character. -/
def State.Beyond : State → Prop
  | .start => True
  | .owed low high more bits =>
    0x80 ≤ low.toNat ∧ high.toNat ≤ 0xBF ∧ 0x80 ≤ (bits * 64 + (low.toNat - 0x80)) * 64 ^ more

theorem begin_ascii {b : UInt8} (hb : b.toNat < 0x80) :
    begin b = ([some (Char.ofNat b.toNat)], .start) := if_pos hb

/-- The first byte of a character is the character, or is refused, or begins one. -/
theorem begin_cases (b : UInt8) :
    (b.toNat < 0x80 ∧ begin b = ([some (Char.ofNat b.toNat)], .start)) ∨
      begin b = ([none], .start) ∨
      ∃ low high more bits, begin b = ([], .owed low high more bits) ∧
        (State.owed low high more bits).Beyond := by
  by_cases hb : b.toNat < 0x80
  · exact .inl ⟨hb, begin_ascii hb⟩
  refine .inr ?_
  simp only [begin, if_neg hb]
  repeat' split
  all_goals simp [State.Beyond]
  all_goals omega

theorem beyond_begin (b : UInt8) : (begin b).2.Beyond := by
  rcases begin_cases b with ⟨-, h⟩ | h | ⟨low, high, more, bits, h, hbeyond⟩
  · rw [h]
    trivial
  · rw [h]
    trivial
  · rw [h]
    exact hbeyond

theorem beyond_next {state : State} (h : state.Beyond) (b : UInt8) : (next state b).2.Beyond := by
  cases state with
  | start => exact beyond_begin b
  | owed low high more bits =>
    obtain ⟨hlow, hhigh, hvalue⟩ := h
    simp only [next]
    split
    · next hb =>
      cases more with
      | zero => trivial
      | succ more =>
        have hb := UInt8.le_iff_toNat_le.mp hb.1
        refine ⟨by decide, by decide, Nat.le_trans hvalue ?_⟩
        rw [Nat.pow_succ', ← Nat.mul_assoc]
        exact Nat.mul_le_mul_right _ (by simp; omega)
    · exact beyond_begin b

theorem next_ascii {state : State} (h : state.Beyond) {b : UInt8} (hb : b.toNat < 0x80) :
    next state b = (finish state ++ [some (Char.ofNat b.toNat)], .start) := by
  cases state with
  | start => exact begin_ascii hb
  | owed low high more bits =>
    have hlow : ¬ (low ≤ b ∧ b ≤ high) := fun hin => by
      have := UInt8.le_iff_toNat_le.mp hin.1
      have := h.1
      omega
    simp only [next, if_neg hlow, begin_ascii hb]
    rfl

theorem scanFrom_append_ascii (state : State) (h : state.Beyond) {b : UInt8} (hb : b.toNat < 0x80)
    (front rest : List UInt8) :
    scanFrom state (front ++ b :: rest) =
      scanFrom state front ++ some (Char.ofNat b.toNat) :: scan rest := by
  induction front generalizing state with
  | nil =>
    change (next state b).1 ++ scanFrom (next state b).2 rest = finish state ++ _
    rw [next_ascii h hb, List.append_assoc]
    rfl
  | cons a front ih =>
    rw [List.cons_append, scanFrom, scanFrom, ih _ (beyond_next h a), List.append_assoc]

/-- **An ASCII byte ends what was begun before it.** -/
theorem scan_append_ascii {b : UInt8} (hb : b.toNat < 0x80) (front rest : List UInt8) :
    scan (front ++ b :: rest) = scan front ++ some (Char.ofNat b.toNat) :: scan rest :=
  scanFrom_append_ascii .start trivial hb front rest

theorem toNat_ofNat {n : Nat} (h : n.isValidChar) : (Char.ofNat n).toNat = n := by
  rw [Char.ofNat, dif_pos h]
  rfl

/-- A number from `0x80` on gives no ASCII character but the first. -/
theorem toNat_ofNat_of_le {n : Nat} (h : 0x80 ≤ n) :
    0x80 ≤ (Char.ofNat n).toNat ∨ (Char.ofNat n).toNat = 0 := by
  by_cases hvalid : n.isValidChar
  · exact .inl (by rw [toNat_ofNat hvalid]; exact h)
  · right
    rw [Char.ofNat, dif_neg hvalid]
    rfl

theorem toNat_of_some_mem_begin {b : UInt8} {c : Char} (h : some c ∈ (begin b).1) :
    b.toNat = c.toNat := by
  rcases begin_cases b with ⟨hb, hbegin⟩ | hbegin | ⟨low, high, more, bits, hbegin, -⟩
  · rw [hbegin] at h
    rw [Option.some.inj (List.mem_singleton.mp h), toNat_ofNat (.inl (by omega))]
  · simp [hbegin] at h
  · simp [hbegin] at h

theorem toNat_of_some_mem_next {state : State} (hstate : state.Beyond) {b : UInt8} {c : Char}
    (h : some c ∈ (next state b).1) (hpos : 0 < c.toNat) (hc : c.toNat < 0x80) :
    b.toNat = c.toNat := by
  cases state with
  | start => exact toNat_of_some_mem_begin h
  | owed low high more bits =>
    obtain ⟨-, -, hvalue⟩ := hstate
    simp only [next] at h
    split at h
    · next hb =>
      have hlow := UInt8.le_iff_toNat_le.mp hb.1
      cases more with
      | zero =>
        have hvalue : 0x80 ≤ bits * 64 + (b.toNat - 0x80) := by omega
        rw [Option.some.inj (List.mem_singleton.mp h)] at hpos hc
        rcases toNat_ofNat_of_le hvalue with hbeyond | hzero
        · exact absurd hc (Nat.not_lt.mpr hbeyond)
        · exact absurd hpos (Nat.not_lt.mpr (Nat.le_of_eq hzero))
      | succ more => simp at h
    · rcases List.mem_cons.mp h with h | h
      · cases h
      · exact toNat_of_some_mem_begin h

/-- **An ASCII character is read from its byte only.** -/
theorem mem_of_some_mem_scan {bytes : List UInt8} {c : Char} (h : some c ∈ scan bytes)
    (hpos : 0 < c.toNat) (hc : c.toNat < 0x80) : ∃ b ∈ bytes, b.toNat = c.toNat := by
  have hgeneral : ∀ state : State, state.Beyond → some c ∈ scanFrom state bytes →
      ∃ b ∈ bytes, b.toNat = c.toNat := by
    clear h
    induction bytes with
    | nil =>
      intro state _ h
      cases state <;> simp [scanFrom, finish] at h
    | cons b bytes ih =>
      intro state hstate h
      rcases List.mem_append.mp h with h | h
      · exact ⟨b, List.mem_cons_self, toNat_of_some_mem_next hstate h hpos hc⟩
      · obtain ⟨a, ha, heq⟩ := ih _ (beyond_next hstate b) h
        exact ⟨a, List.mem_cons_of_mem b ha, heq⟩
  exact hgeneral .start trivial h

/-- What is begun is finished by something. -/
theorem scanFrom_owed_ne_nil (low high : UInt8) (more bits : Nat) (bytes : List UInt8) :
    scanFrom (.owed low high more bits) bytes ≠ [] := by
  induction bytes generalizing low high more bits with
  | nil => simp [scanFrom, finish]
  | cons b bytes ih =>
    rw [scanFrom]
    simp only [next]
    split
    · cases more with
      | zero => simp
      | succ more => exact List.append_ne_nil_of_right_ne_nil _ (ih _ _ more _)
    · simp

theorem scan_eq_nil_iff {bytes : List UInt8} : scan bytes = [] ↔ bytes = [] := by
  constructor
  · intro h
    cases bytes with
    | nil => rfl
    | cons b bytes =>
      change (begin b).1 ++ scanFrom (begin b).2 bytes = [] at h
      rcases begin_cases b with ⟨-, hbegin⟩ | hbegin | ⟨low, high, more, bits, hbegin, -⟩
      · simp [hbegin] at h
      · simp [hbegin] at h
      · rw [hbegin] at h
        exact absurd h (scanFrom_owed_ne_nil low high more bits bytes)
  · rintro rfl
    rfl

/-! ## Encoded characters -/

/-- The last digits of a number to base 64, as the bytes that continue a character. -/
def continuation : (more value : Nat) → List UInt8
  | 0, v => [UInt8.ofNat (v % 64 + 0x80)]
  | more + 1, v => UInt8.ofNat (v / 64 ^ (more + 1) % 64 + 0x80) :: continuation more v

theorem toNat_digit (n : Nat) : (UInt8.ofNat (n % 64 + 0x80)).toNat = n % 64 + 0x80 :=
  UInt8.toNat_ofNat_of_lt' (by omega : _ < 256)

/-- The bytes that continue a character complete it. -/
theorem scanFrom_continuation {low high : UInt8} {more v : Nat} (rest : List UInt8)
    (hlow : low.toNat ≤ v / 64 ^ more % 64 + 0x80)
    (hhigh : v / 64 ^ more % 64 + 0x80 ≤ high.toNat) :
    scanFrom (.owed low high more (v / 64 ^ (more + 1))) (continuation more v ++ rest) =
      some (Char.ofNat v) :: scan rest := by
  induction more generalizing low high with
  | zero =>
    rw [Nat.pow_zero, Nat.div_one] at hlow hhigh
    have hin : low ≤ UInt8.ofNat (v % 64 + 0x80) ∧ UInt8.ofNat (v % 64 + 0x80) ≤ high := by
      rw [UInt8.le_iff_toNat_le, UInt8.le_iff_toNat_le, toNat_digit]
      exact ⟨hlow, hhigh⟩
    have hvalue : v / 64 ^ (0 + 1) * 64 + (v % 64 + 0x80 - 0x80) = v := by omega
    simp only [continuation, List.cons_append, List.nil_append, scanFrom, next, if_pos hin,
      toNat_digit, hvalue]
    rfl
  | succ more ih =>
    have hdigits : v / 64 ^ (more + 1 + 1) * 64 + (v / 64 ^ (more + 1) % 64 + 0x80 - 0x80) =
        v / 64 ^ (more + 1) := by
      rw [Nat.pow_succ 64 (more + 1), ← Nat.div_div_eq_div_mul]
      omega
    have hin : low ≤ UInt8.ofNat (v / 64 ^ (more + 1) % 64 + 0x80) ∧
        UInt8.ofNat (v / 64 ^ (more + 1) % 64 + 0x80) ≤ high := by
      rw [UInt8.le_iff_toNat_le, UInt8.le_iff_toNat_le, toNat_digit]
      exact ⟨hlow, hhigh⟩
    simp only [continuation, List.cons_append, scanFrom, next, if_pos hin, toNat_digit, hdigits]
    exact ih (Nat.le_add_left _ _) (by change _ ≤ 0xBF; omega)

/-- Something is completed by a byte in its range. -/
theorem exists_cons_of_owed {low high : UInt8} {more bits : Nat} {bytes : List UInt8}
    (h : ∀ c ∈ scanFrom (.owed low high more bits) bytes, c.isSome = true) :
    ∃ b rest, bytes = b :: rest ∧ low ≤ b ∧ b ≤ high := by
  cases bytes with
  | nil => exact absurd (h none List.mem_cons_self) Bool.false_ne_true
  | cons b rest =>
    by_cases hb : low ≤ b ∧ b ≤ high
    · exact ⟨b, rest, rfl, hb⟩
    · have hnone : none ∈ scanFrom (.owed low high more bits) (b :: rest) := by
        simp [scanFrom, next, hb]
      exact absurd (h none hnone) Bool.false_ne_true

/-- What completes a character are bytes that continue it. -/
theorem exists_continuation {low high : UInt8} {more bits : Nat} {bytes : List UInt8}
    (hlow : 0x80 ≤ low.toNat) (hhigh : high.toNat ≤ 0xBF)
    (h : ∀ c ∈ scanFrom (.owed low high more bits) bytes, c.isSome = true) :
    ∃ v rest, bytes = continuation more v ++ rest ∧ v / 64 ^ (more + 1) = bits ∧
      low.toNat ≤ v / 64 ^ more % 64 + 0x80 ∧ v / 64 ^ more % 64 + 0x80 ≤ high.toNat := by
  induction more generalizing low high bits bytes with
  | zero =>
    obtain ⟨b, rest, rfl, hb⟩ := exists_cons_of_owed h
    rw [UInt8.le_iff_toNat_le, UInt8.le_iff_toNat_le] at hb
    have hdigit : (bits * 64 + (b.toNat - 0x80)) % 64 + 0x80 = b.toNat := by omega
    refine ⟨bits * 64 + (b.toNat - 0x80), rest, ?_, by omega, ?_⟩
    · rw [continuation, hdigit, UInt8.ofNat_toNat]
      rfl
    · rw [Nat.pow_zero, Nat.div_one, hdigit]
      exact hb
  | succ more ih =>
    obtain ⟨b, rest, rfl, hb⟩ := exists_cons_of_owed h
    simp only [scanFrom, next, if_pos hb, List.nil_append] at h
    obtain ⟨v, rest, rfl, hbits, -, -⟩ := ih (by decide) (by decide) h
    rw [UInt8.le_iff_toNat_le, UInt8.le_iff_toNat_le] at hb
    have hdigit : v / 64 ^ (more + 1) % 64 + 0x80 = b.toNat := by omega
    refine ⟨v, rest, ?_, ?_, ?_⟩
    · rw [continuation, hdigit, UInt8.ofNat_toNat]
      rfl
    · rw [Nat.pow_succ 64 (more + 1), ← Nat.div_div_eq_div_mul]
      omega
    · rw [hdigit]
      exact hb

/-- The mark of a first byte that `more + 1` bytes continue. -/
def leadMark : (more : Nat) → Nat
  | 0 => 0xC0
  | 1 => 0xE0
  | _ => 0xF0

/-- The first byte of a character that `more + 1` bytes continue. -/
def leadByte (more value : Nat) : UInt8 := UInt8.ofNat (value / 64 ^ (more + 1) + leadMark more)

/-- A character with this number is continued by `more + 1` bytes. -/
def Spans (more value : Nat) : Prop :=
  (more = 0 ∧ 0x80 ≤ value ∧ value < 0x800) ∨ (more = 1 ∧ 0x800 ≤ value ∧ value < 0x10000) ∨
    (more = 2 ∧ 0x10000 ≤ value ∧ value < 0x110000)

/-- The encoding of a character: one byte for ASCII, or a first byte and bytes that continue it. -/
theorem encodeChar_cases (c : Char) :
    (c.toNat < 0x80 ∧ String.utf8EncodeChar c = [UInt8.ofNat c.toNat]) ∨
      ∃ more, Spans more c.toNat ∧
        String.utf8EncodeChar c = leadByte more c.toNat :: continuation more c.toNat := by
  have hbound : c.toNat < 0x110000 := by
    rcases c.valid with h | h
    · exact Nat.lt_trans h (by decide)
    · exact h.2
  have hval : c.val.toNat = c.toNat := rfl
  unfold String.utf8EncodeChar
  rw [hval]
  generalize c.toNat = v at hbound
  by_cases hone : v ≤ 0x7F
  · exact .inl ⟨by omega, if_pos hone⟩
  refine .inr ?_
  by_cases htwo : v ≤ 0x7FF
  · refine ⟨0, .inl ⟨rfl, by omega, by omega⟩, ?_⟩
    have hlead : v / 64 % 32 = v / 64 := Nat.mod_eq_of_lt (by omega)
    simp only [if_neg hone, if_pos htwo, hlead]
    rfl
  by_cases hthree : v ≤ 0xFFFF
  · refine ⟨1, .inr (.inl ⟨rfl, by omega, by omega⟩), ?_⟩
    have hlead : v / 4096 % 16 = v / 4096 := Nat.mod_eq_of_lt (by omega)
    simp only [if_neg hone, if_neg htwo, if_pos hthree, hlead]
    rfl
  · refine ⟨2, .inr (.inr ⟨rfl, by omega, hbound⟩), ?_⟩
    have hlead : v / 262144 % 8 = v / 262144 := Nat.mod_eq_of_lt (by omega)
    simp only [if_neg hone, if_neg htwo, if_neg hthree, hlead]
    rfl

theorem Spans.unique {more other v : Nat} (h : Spans more v) (h' : Spans other v) :
    more = other := by
  unfold Spans at h h'
  omega

theorem toNat_leadByte {more v : Nat} (h : Spans more v) :
    (leadByte more v).toNat = v / 64 ^ (more + 1) + leadMark more := by
  refine UInt8.toNat_ofNat_of_lt' ?_
  rcases h with ⟨rfl, hlow, hhigh⟩ | ⟨rfl, hlow, hhigh⟩ | ⟨rfl, hlow, hhigh⟩
  · change v / 64 + 0xC0 < 256
    omega
  · change v / 4096 + 0xE0 < 256
    omega
  · change v / 262144 + 0xF0 < 256
    omega

/-- **The first byte of a character** begins what the others continue. -/
theorem begin_leadByte {more v : Nat} (h : Spans more v) (hvalid : v.isValidChar) :
    ∃ low high, begin (leadByte more v) = ([], .owed low high more (v / 64 ^ (more + 1))) ∧
      low.toNat ≤ v / 64 ^ more % 64 + 0x80 ∧ v / 64 ^ more % 64 + 0x80 ≤ high.toNat := by
  have hlead := toNat_leadByte h
  unfold begin
  generalize (leadByte more v).toNat = n at hlead ⊢
  unfold Nat.isValidChar at hvalid
  simp only []
  rcases h with ⟨rfl, hlow, hhigh⟩ | ⟨rfl, hlow, hhigh⟩ | ⟨rfl, hlow, hhigh⟩
  · change n = v / 64 + 0xC0 at hlead
    have hbits : n - 0xC0 = v / 64 := by omega
    refine ⟨0x80, 0xBF, ?_, (by omega : 0x80 ≤ _), (by omega : _ ≤ 0xBF)⟩
    rw [if_neg (by omega), if_neg (by omega), if_pos (by omega), hbits]
    rfl
  · change n = v / 4096 + 0xE0 at hlead
    change ∃ low high, _ = (_, State.owed low high 1 (v / 4096)) ∧ _ ≤ v / 64 % 64 + 0x80 ∧ _
    rw [if_neg (by omega), if_neg (by omega), if_neg (by omega)]
    by_cases hfirst : v / 4096 = 0
    · refine ⟨0xA0, 0xBF, ?_, (by omega : 0xA0 ≤ _), (by omega : _ ≤ 0xBF)⟩
      rw [if_pos (by omega), hfirst]
    rw [if_neg (by omega)]
    by_cases hsurrogate : v / 4096 = 0xD
    · refine ⟨0x80, 0x9F, ?_, (by omega : 0x80 ≤ _), (by omega : _ ≤ 0x9F)⟩
      rw [if_pos (by omega), hsurrogate]
    · have hbits : n - 0xE0 = v / 4096 := by omega
      refine ⟨0x80, 0xBF, ?_, (by omega : 0x80 ≤ _), (by omega : _ ≤ 0xBF)⟩
      rw [if_neg (by omega), if_pos (by omega), hbits]
  · change n = v / 262144 + 0xF0 at hlead
    change ∃ low high, _ = (_, State.owed low high 2 (v / 262144)) ∧ _ ≤ v / 4096 % 64 + 0x80 ∧ _
    rw [if_neg (by omega), if_neg (by omega), if_neg (by omega), if_neg (by omega),
      if_neg (by omega), if_neg (by omega)]
    by_cases hfirst : v / 262144 = 0
    · refine ⟨0x90, 0xBF, ?_, (by omega : 0x90 ≤ _), (by omega : _ ≤ 0xBF)⟩
      rw [if_pos (by omega), hfirst]
    rw [if_neg (by omega)]
    by_cases hlast : v / 262144 = 4
    · refine ⟨0x80, 0x8F, ?_, (by omega : 0x80 ≤ _), (by omega : _ ≤ 0x8F)⟩
      rw [if_neg (by omega), if_pos (by omega), hlast]
    · have hbits : n - 0xF0 = v / 262144 := by omega
      refine ⟨0x80, 0xBF, ?_, (by omega : 0x80 ≤ _), (by omega : _ ≤ 0xBF)⟩
      rw [if_pos (by omega), hbits]

/-- What a byte begins is finished by the bytes that continue it, and no others. -/
theorem eq_leadByte_of_begin {b low high : UInt8} {more v : Nat}
    (h : begin b = ([], .owed low high more (v / 64 ^ (more + 1))))
    (hlow : low.toNat ≤ v / 64 ^ more % 64 + 0x80)
    (hhigh : v / 64 ^ more % 64 + 0x80 ≤ high.toNat) :
    v.isValidChar ∧ Spans more v ∧ b = leadByte more v := by
  have hlead : v.isValidChar ∧ Spans more v ∧ b.toNat = v / 64 ^ (more + 1) + leadMark more := by
    simp only [begin] at h
    repeat' split at h
    all_goals simp only [Prod.mk.injEq, State.owed.injEq, reduceCtorEq, List.cons_ne_nil,
      and_false, true_and] at h
    all_goals obtain ⟨rfl, rfl, rfl, hbits⟩ := h
    all_goals simp only [Nat.isValidChar, Spans, leadMark, Nat.reduceAdd, Nat.reducePow,
      Nat.pow_zero, Nat.div_one, Nat.reduceEqDiff, UInt8.reduceToNat, true_and, false_and,
      or_false, false_or] at hbits hlow hhigh ⊢
    all_goals omega
  refine ⟨hlead.1, hlead.2.1, ?_⟩
  rw [← UInt8.toNat_inj, toNat_leadByte hlead.2.1, hlead.2.2]

/-- An encoded character is read back. -/
theorem scan_encodeChar (c : Char) (rest : List UInt8) :
    scan (String.utf8EncodeChar c ++ rest) = some c :: scan rest := by
  rcases encodeChar_cases c with ⟨hascii, hencode⟩ | ⟨more, hspans, hencode⟩
  · have hb := UInt8.toNat_ofNat_of_lt' (Nat.lt_trans hascii (by decide))
    have hscan := scan_append_ascii (b := UInt8.ofNat c.toNat) (by omega) [] rest
    rw [hb, Char.ofNat_toNat] at hscan
    rw [hencode]
    exact hscan
  · obtain ⟨low, high, hbegin, hlow, hhigh⟩ := begin_leadByte hspans c.valid
    rw [hencode, List.cons_append]
    change (begin _).1 ++ scanFrom (begin _).2 _ = _
    rw [hbegin, List.nil_append, scanFrom_continuation rest hlow hhigh, Char.ofNat_toNat]

/-- **An encoded text is read back.** -/
theorem scan_encode (s : Text) : scan (encode s) = s.map some := by
  induction s with
  | nil => rfl
  | cons c s ih => rw [encode, List.flatMap_cons, scan_encodeChar, ← encode, ih, List.map_cons]

/-- Bytes that are read without a refusal start with an encoded character. -/
theorem exists_encodeChar {b : UInt8} {bytes : List UInt8}
    (h : ∀ c ∈ scan (b :: bytes), c.isSome = true) :
    ∃ c rest, b :: bytes = String.utf8EncodeChar c ++ rest := by
  change ∀ c ∈ (begin b).1 ++ scanFrom (begin b).2 bytes, _ at h
  rcases begin_cases b with ⟨hascii, -⟩ | hbegin | ⟨low, high, more, bits, hbegin, hlow, hhigh, -⟩
  · have hvalue : (Char.ofNat b.toNat).toNat = b.toNat := toNat_ofNat (.inl (by omega))
    refine ⟨Char.ofNat b.toNat, bytes, ?_⟩
    rcases encodeChar_cases (Char.ofNat b.toNat) with ⟨-, hencode⟩ | ⟨more, hspans, -⟩
    · rw [hencode, hvalue, UInt8.ofNat_toNat]
      rfl
    · rw [hvalue] at hspans
      unfold Spans at hspans
      omega
  · rw [hbegin] at h
    exact absurd (h none List.mem_cons_self) Bool.false_ne_true
  · rw [hbegin, List.nil_append] at h
    obtain ⟨v, rest, rfl, rfl, hfirst⟩ := exists_continuation hlow hhigh h
    obtain ⟨hvalid, hspans, rfl⟩ := eq_leadByte_of_begin hbegin hfirst.1 hfirst.2
    have hvalue : (Char.ofNat v).toNat = v := toNat_ofNat hvalid
    refine ⟨Char.ofNat v, rest, ?_⟩
    rcases encodeChar_cases (Char.ofNat v) with ⟨hascii, -⟩ | ⟨other, hother, hencode⟩
    · rw [hvalue] at hascii
      unfold Spans at hspans
      omega
    · rw [hvalue] at hother hencode
      rw [hencode, hother.unique hspans]
      rfl

end Utf8

/-- **Exactly the encoded texts are well-formed.** -/
theorem isUtf8_iff {bytes : List UInt8} : isUtf8 bytes = true ↔ ∃ s, bytes = encode s := by
  constructor
  · intro h
    rw [isUtf8, List.all_eq_true] at h
    -- on the length, since a character takes several bytes
    induction hlength : bytes.length using Nat.strongRecOn generalizing bytes with
    | ind n ih =>
      cases bytes with
      | nil => exact ⟨[], rfl⟩
      | cons b bytes =>
        obtain ⟨c, rest, heq⟩ := Utf8.exists_encodeChar h
        rw [heq, Utf8.scan_encodeChar] at h
        have hshorter : rest.length < n := by
          rw [← hlength, heq, List.length_append]
          have := String.length_utf8EncodeChar c
          have := c.utf8Size_pos
          omega
        obtain ⟨s, rfl⟩ := ih _ hshorter (fun c hc => h c (List.mem_cons_of_mem _ hc)) rfl
        exact ⟨c :: s, by rw [heq, encode, encode, List.flatMap_cons]⟩
  · rintro ⟨s, rfl⟩
    rw [isUtf8, Utf8.scan_encode, List.all_eq_true]
    intro c hc
    obtain ⟨a, -, rfl⟩ := List.mem_map.mp hc
    rfl

/-- **A text is read back from its encoding.** -/
theorem decodeLossy_encode (s : Text) : decodeLossy (encode s) = s := by
  rw [decodeLossy, Utf8.scan_encode, List.map_map]
  exact List.map_id s

theorem decode?_encode (s : Text) : decode? (encode s) = some s := by
  rw [decode?, if_pos (isUtf8_iff.mpr ⟨s, rfl⟩), decodeLossy_encode]

/-- **An ASCII byte is read as a character of its own.** -/
theorem decodeLossy_append_ascii {b : UInt8} (hb : b.toNat < 0x80) (front rest : List UInt8) :
    decodeLossy (front ++ b :: rest) =
      decodeLossy front ++ Char.ofNat b.toNat :: decodeLossy rest := by
  rw [decodeLossy, Utf8.scan_append_ascii hb, List.map_append, List.map_cons]
  rfl

/-- **An ASCII character is read from its byte only.** -/
theorem mem_of_mem_decodeLossy {bytes : List UInt8} {c : Char} (h : c ∈ decodeLossy bytes)
    (hpos : 0 < c.toNat) (hc : c.toNat < 0x80) : ∃ b ∈ bytes, b.toNat = c.toNat := by
  obtain ⟨read, hread, rfl⟩ := List.mem_map.mp h
  cases read with
  | none => exact absurd hc (by decide)
  | some c => exact Utf8.mem_of_some_mem_scan hread hpos hc

theorem decodeLossy_eq_nil_iff {bytes : List UInt8} : decodeLossy bytes = [] ↔ bytes = [] := by
  rw [decodeLossy, List.map_eq_nil_iff, Utf8.scan_eq_nil_iff]

end ApiAnnotations.Text
