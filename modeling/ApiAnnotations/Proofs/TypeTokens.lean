import ApiAnnotations.Proofs.Annotation

/-! # Types of fields and of parameters

The type of a field is written as markers, a qualified name and its last segment; the type of a
parameter is written as a name alone. The last segment of a field's type is classified as a
parameter's type would be.

* `Marker.IsRun token ms rest` : the token is the markers `ms` and `rest`, and no longer beginning
  of it consists of markers. `Marker.exists_isRun` : `stripMarkers` finds them.
* `IsLastSegment s name` : `name` stands behind the last point of `s`, or is all of it.
  `isLastSegment_iff` : there is one, the one that `lastSegment` finds.
* `FieldType.ofToken_eq` : the type of a field by the type that a parameter of its last segment has.
* `FieldType.ofToken_alike` : fields and parameters are classified alike. -/

namespace ApiAnnotations

/-! ## Markers -/

/-- A marker in front of a type. -/
inductive Marker
  | array
  | pointer
deriving DecidableEq

namespace Marker

def text : Marker → Text
  | .array => "[]"
  | .pointer => "*"

def texts (ms : List Marker) : Text := ms.flatMap text

/-- The markers at the beginning of a token, as many as there are, and the rest. -/
structure IsRun (token : Text) (ms : List Marker) (rest : Text) : Prop where
  split : token = texts ms ++ rest
  longest : ∀ others, texts others <+: token → (texts others).length ≤ (texts ms).length

theorem texts_cons (m : Marker) (ms : List Marker) : texts (m :: ms) = m.text ++ texts ms := rfl

/-- A marker in front of a token joins the markers of the token. -/
theorem IsRun.cons (m : Marker) {token : Text} {ms : List Marker} {rest : Text}
    (h : IsRun token ms rest) : IsRun (m.text ++ token) (m :: ms) rest := by
  refine ⟨by rw [h.split, texts_cons, List.append_assoc], fun others hothers => ?_⟩
  cases others with
  | nil => exact Nat.zero_le _
  | cons m' others =>
    rw [texts_cons] at hothers ⊢
    by_cases hm : m' = m
    · subst hm
      have hle := h.longest others ((List.prefix_append_right_inj _).mp hothers)
      rw [texts_cons, List.length_append, List.length_append]
      omega
    · cases m <;> cases m' <;> simp_all [text]

/-- No marker stands at the beginning of a token that begins with none. -/
theorem isRun_nil {token : Text} (harray : ∀ s, token ≠ '[' :: ']' :: s)
    (hpointer : ∀ s, token ≠ '*' :: s) : IsRun token [] token := by
  refine ⟨rfl, fun others hothers => ?_⟩
  obtain ⟨s, rfl⟩ := hothers
  cases others with
  | nil => simp
  | cons m others =>
    cases m with
    | array => exact absurd rfl (harray (texts others ++ s))
    | pointer => exact absurd rfl (hpointer (texts others ++ s))

/-- **The markers of a token** are those that are stripped. -/
theorem exists_isRun (seen : Bool) (token : Text) :
    ∃ ms, IsRun token ms (FieldType.stripMarkers seen token).2 ∧
      (FieldType.stripMarkers seen token).1 = (seen || decide (.array ∈ ms)) := by
  fun_induction FieldType.stripMarkers seen token with
  | case1 seen s ih =>
    obtain ⟨ms, hrun, hseen⟩ := ih
    exact ⟨.array :: ms, hrun.cons .array, by simp [hseen]⟩
  | case2 seen s ih =>
    obtain ⟨ms, hrun, hseen⟩ := ih
    exact ⟨.pointer :: ms, hrun.cons .pointer, by simp [hseen]⟩
  | case3 seen s harray hpointer => exact ⟨[], isRun_nil harray hpointer, by simp⟩

end Marker

/-! ## The last segment -/

/-- What stands behind the last point, or the whole text if it has none. -/
structure IsLastSegment (s name : Text) : Prop where
  point : '.' ∉ name
  ending : s = name ∨ ∃ qualifier, s = qualifier ++ '.' :: name

theorem exists_isLastSegment (s : Text) : ∃ name, IsLastSegment s name := by
  induction s with
  | nil => exact ⟨[], List.not_mem_nil, .inl rfl⟩
  | cons c s ih =>
    obtain ⟨name, hpoint, rfl | ⟨qualifier, rfl⟩⟩ := ih
    · by_cases hc : c = '.'
      · exact ⟨s, hpoint, .inr ⟨[], by rw [hc]; rfl⟩⟩
      · exact ⟨c :: s, by simp [Ne.symm hc, hpoint], .inl rfl⟩
    · exact ⟨name, hpoint, .inr ⟨c :: qualifier, rfl⟩⟩

theorem IsLastSegment.lastSegment_eq {s name : Text} (h : IsLastSegment s name) :
    FieldType.lastSegment s = name := by
  obtain ⟨hpoint, rfl | ⟨qualifier, rfl⟩⟩ := h
  · exact FieldType.lastSegment_of_not_mem hpoint
  · rw [FieldType.lastSegment, Text.splitOn_append_cons, Text.splitOn_of_not_mem hpoint,
      List.getLast?_append]
    rfl

theorem isLastSegment_iff {s name : Text} :
    IsLastSegment s name ↔ FieldType.lastSegment s = name := by
  refine ⟨IsLastSegment.lastSegment_eq, ?_⟩
  rintro rfl
  obtain ⟨name, h⟩ := exists_isLastSegment s
  exact h.lastSegment_eq ▸ h

/-! ## Types -/

/-- A name that a parameter refers to is the token itself. -/
theorem ParamType.eq_of_reference {token name : Text} (h : ofToken token = .reference name) :
    name = token := by
  unfold ofToken at h
  split at h
  · cases h
  · exact (reference.inj h).symm

namespace FieldType

/-- The type of a field whose last segment is the type of a parameter. -/
def ofParamType (isArray : Bool) : ParamType → FieldType
  | .primitive p => .primitive p
  | .reference name => if isArray then .array name else .object name

/-- The type of an array of elements of a type; a primitive absorbs the marker. -/
def arrayed : FieldType → FieldType
  | .object name => .array name
  | t => t

theorem arrayed_ofParamType (isArray : Bool) (t : ParamType) :
    (ofParamType isArray t).arrayed = ofParamType true t := by
  cases t with
  | primitive p => rfl
  | reference name => cases isArray <;> rfl

theorem reference?_ofParamType {isArray : Bool} {t : ParamType} {name : Text}
    (h : (ofParamType isArray t).reference? = some name) : t = .reference name := by
  cases t with
  | primitive p => cases h
  | reference n => cases isArray <;> exact congrArg _ (Option.some.inj h)

/-- **The type of a field** is that of a parameter with its last segment, up to the markers. -/
theorem ofToken_eq (token : Text) :
    ofToken token = ofParamType (stripMarkers false token).1
      (.ofToken (lastSegment (stripMarkers false token).2)) := by
  unfold ofToken
  simp only [firstOf?_order, ParamType.ofToken, ParamType.firstOf?_order]
  cases Primitive.ofName? (lastSegment (stripMarkers false token).2) with
  | none => rfl
  | some p => rfl

/-- A marker seen before the token only adds to those of the token. -/
theorem stripMarkers_seen (seen : Bool) (token : Text) :
    stripMarkers seen token =
      (seen || (stripMarkers false token).1, (stripMarkers false token).2) := by
  fun_induction stripMarkers seen token with
  | case1 seen s ih => rw [stripMarkers, ih]; simp
  | case2 seen s ih => rw [stripMarkers, ih]
  | case3 seen s harray hpointer => simp [stripMarkers]

theorem ofToken_pointer (token : Text) : ofToken ('*' :: token) = ofToken token := rfl

theorem ofToken_array (token : Text) :
    ofToken ('[' :: ']' :: token) = (ofToken token).arrayed := by
  rw [ofToken_eq, ofToken_eq, arrayed_ofParamType, stripMarkers, stripMarkers_seen]
  rfl

/-- **Fields and parameters are classified alike.**  The type of a field is the primitive that a
parameter with the last segment behind its markers has, or else an array of that segment or the
segment itself, depending on whether there is an array marker. So a pointer marker never counts, an
array marker only makes an array of an object, and no name referred to has a point in it. -/
theorem ofToken_alike (token : Text) :
    (∃ ms rest name, Marker.IsRun token ms rest ∧ IsLastSegment rest name ∧
      (∀ p, ParamType.ofToken name = .primitive p → ofToken token = .primitive p) ∧
      ∀ n, ParamType.ofToken name = .reference n →
        n = name ∧ ofToken token = if .array ∈ ms then .array name else .object name) ∧
    ofToken ('*' :: token) = ofToken token ∧
    ofToken ('[' :: ']' :: token) = (ofToken token).arrayed ∧
    ∀ name, (ofToken token).reference? = some name → '.' ∉ name := by
  obtain ⟨ms, hrun, harray⟩ := Marker.exists_isRun false token
  have hsegment : IsLastSegment (stripMarkers false token).2
      (lastSegment (stripMarkers false token).2) := isLastSegment_iff.mpr rfl
  have htype := ofToken_eq token
  refine ⟨⟨ms, _, _, hrun, hsegment, fun p hp => ?_, fun n hn => ?_⟩, ofToken_pointer token,
    ofToken_array token, fun name href => ?_⟩
  · rw [htype, hp]
    rfl
  · obtain rfl := ParamType.eq_of_reference hn
    rw [htype, hn, harray]
    simp [ofParamType]
  · rw [htype] at href
    rw [ParamType.eq_of_reference (reference?_ofParamType href)]
    exact hsegment.point

/-- Markers in any order, a qualified name, and names that only begin like a primitive. -/
example : ["[]*[]models.User", "**a.b.interval", "[]*pkg.floating", "strings", ".x."].map
    (fun token : String => ofToken token) =
    [.array "User", .primitive .integer, .primitive .number, .object "strings", .object []] := by
  decide

end FieldType

end ApiAnnotations
