import ApiAnnotations.Text.Utf8

/-! # The order of encoded texts

* `encodeChar_append_lt` : what is behind the encodings of two characters does not change their
  order.
* `encode_lt_encode` : texts are ordered as their encodings are, byte by byte.
* `map_encode_lt` : so are lists of texts. -/

namespace ApiAnnotations.Text

theorem ofNat_cons_lt {a b : Nat} {x y : List UInt8} (ha : a < 256) (hb : b < 256) :
    UInt8.ofNat a :: x < UInt8.ofNat b :: y ↔ a < b ∨ a = b ∧ x < y := by
  rw [List.cons_lt_cons_iff, UInt8.lt_iff_toNat_lt, ← UInt8.toNat_inj, UInt8.toNat_ofNat',
    UInt8.toNat_ofNat', Nat.mod_eq_of_lt ha, Nat.mod_eq_of_lt hb]

/-- Characters are ordered as their encodings, whatever follows these. -/
theorem encodeChar_append_lt {c d : Char} (h : c < d) (x y : List UInt8) :
    String.utf8EncodeChar c ++ x < String.utf8EncodeChar d ++ y := by
  have hlt : c.val.toNat < d.val.toNat := h
  have hbound : d.val.toNat < 0x110000 := by
    rcases d.valid with hd | hd <;> omega
  -- the bytes behind the first are digits to base 64
  have hdigits : ∀ n : Nat, n / 4096 = n / 64 / 64 ∧ n / 262144 = n / 64 / 64 / 64 :=
    fun n => by simp [Nat.div_div_eq_div_mul]
  unfold String.utf8EncodeChar
  generalize c.val.toNat = v at hlt
  generalize d.val.toNat = w at hlt hbound
  simp only [hdigits]
  -- encodings of one length differ in the first digit that differs, others in the first byte
  split
  next =>
    repeat' split
    all_goals
      rw [List.cons_append, List.cons_append, ofNat_cons_lt (by omega) (by omega)]
      omega
  next =>
    repeat' split
    all_goals
      simp (disch := omega) only [List.cons_append, ofNat_cons_lt]
      omega

theorem encode_cons (c : Char) (s : Text) : encode (c :: s) = String.utf8EncodeChar c ++ encode s :=
  rfl

/-- **Texts are ordered as their encodings**, byte by byte. -/
theorem encode_lt_encode {s t : Text} (h : s < t) : encode s < encode t := by
  induction s generalizing t with
  | nil =>
    cases t with
    | nil => exact absurd h (List.not_lt_nil [])
    | cons d t =>
      obtain ⟨b, bs, hbytes⟩ := List.exists_cons_of_ne_nil (String.utf8EncodeChar_ne_nil (c := d))
      rw [encode_cons, hbytes]
      exact List.nil_lt_cons b _
  | cons c s ih =>
    cases t with
    | nil => exact absurd h (List.not_lt_nil _)
    | cons d t =>
      rcases List.cons_lt_cons_iff.mp h with hlt | ⟨rfl, hlt⟩
      · exact encodeChar_append_lt hlt _ _
      · exact List.append_left_lt (ih hlt)

theorem map_encode_lt {ss ts : List Text} (h : ss < ts) : ss.map encode < ts.map encode :=
  List.map_lt (fun _ _ => encode_lt_encode) h

end ApiAnnotations.Text
