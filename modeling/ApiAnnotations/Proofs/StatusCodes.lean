import ApiAnnotations.Proofs.ReadRecords
import ApiAnnotations.Proofs.ReplacedParts

/-! # Status codes

The first word of a response is a numeral, and the responses of an operation are listed under the
canonical numerals of their status codes.

* `Response.parse_eq_ok_iff`, `Response.parse_eq_error_iff` : which responses are accepted.
* `Operation.keys_responses_parse`, `Operation.get?_responses_parse` : the responses of an operation
  by the arguments that its route was read from.
* `status_codes_exact` puts them together. -/

namespace ApiAnnotations

open Text.Decimal (IsNumeral isDigit ofNat ofNat_inj)

/-! ## Arguments -/

namespace Response

/-- The status code of an argument, if it is accepted. -/
def code? (argument : Text) : Option Nat := (parse argument).toOption.map statusCode

variable {argument code : Text} {rest : List Text}

/-- The response with a status code and the words behind it. -/
def withWords (n : Nat) (rest : List Text) : Response :=
  ⟨n, rest.head?.bind SchemaRef.ofToken?, Text.unwords rest.tail⟩

theorem parse_of_words (h : Text.words argument = code :: rest) :
    parse argument =
      match Text.Decimal.unsigned? maxStatusCode code with
      | none => .error (.invalidStatusCode code)
      | some n => .ok (withWords n rest) := by
  simp only [parse, h]
  rfl

/-- **An argument is accepted** if its first word is a numeral of a number in range. -/
theorem parse_eq_ok_iff (h : Text.words argument = code :: rest) {n : Nat} :
    parse argument = .ok (withWords n rest) ↔ IsNumeral n code ∧ n ≤ maxStatusCode := by
  rw [parse_of_words h, ← Text.Decimal.unsigned?_eq_some_iff]
  cases Text.Decimal.unsigned? maxStatusCode code with
  | none => simp
  | some m => simp [withWords]

/-- **An argument is refused** because of its first word if that is no numeral of a number in
range. -/
theorem parse_eq_error_iff (h : Text.words argument = code :: rest) :
    parse argument = .error (.invalidStatusCode code) ↔
      ∀ n, IsNumeral n code → maxStatusCode < n := by
  rw [parse_of_words h, ← Text.Decimal.unsigned?_eq_none_iff]
  cases Text.Decimal.unsigned? maxStatusCode code with
  | none => simp
  | some m => simp

/-- The first word of an accepted argument denotes its status code. -/
theorem isNumeral_of_code? {n : Nat} (h : code? argument = some n) :
    ∃ code rest, Text.words argument = code :: rest ∧ IsNumeral n code := by
  obtain ⟨s, hs, rfl⟩ := Option.map_eq_some_iff.mp h
  have hparse := eq_ok_of_toOption hs
  cases hwords : Text.words argument with
  | nil => simp [parse, hwords] at hparse
  | cons code rest =>
    refine ⟨code, rest, rfl, ?_⟩
    rw [parse_of_words hwords] at hparse
    split at hparse
    · cases hparse
    · next m hm =>
      obtain rfl := Except.ok.inj hparse
      exact (Text.Decimal.unsigned?_eq_some_iff.mp hm).1

end Response

/-! ## Operations -/

namespace Operation

variable {table : DirectiveTable} {place : Place} {r : Route}

/-- **The keys of responses** are the canonical numerals of the accepted status codes. -/
theorem keys_responses_parse (known : Text → Bool) (h : Route.parse table place = .ok r) :
    (ofRoute known r).responses.keys =
      (((table.arguments .response).filterMap Response.code?).eraseDups).map ofNat := by
  have hcodes : r.responses.map Response.statusCode =
      (table.arguments .response).filterMap Response.code? := by
    rw [(Route.of_parse h).2.2.1, List.map_filterMap]
    rfl
  have hkeys : (r.responses.map fun s => ofNat s.statusCode) =
      (r.responses.map Response.statusCode).map ofNat := by
    rw [List.map_map]
    rfl
  rw [keys_responses, hkeys, hcodes]
  exact eraseDups_map (fun _ _ => ofNat_inj.mp) _

/-- **The response at a key** is that of the last argument with this status code. -/
theorem get?_responses_parse (known : Text → Bool) (h : Route.parse table place = .ok r)
    (n : Nat) :
    (ofRoute known r).responses.get? (ofNat n) =
      (lastWith Response.code? (some n) (table.arguments .response)).bind fun a =>
        (Response.parse a).toOption.map .ofResponse := by
  have hkeys : lastWith (fun s : Response => ofNat s.statusCode) (ofNat n) r.responses =
      lastWith Response.statusCode n r.responses := by
    simp only [lastWith, ofNat_inj]
  rw [get?_responses, hkeys, (Route.of_parse h).2.2.1, lastWith_filterMap, Option.map_bind]
  rfl

end Operation

/-- **Status codes are numbers.**  An argument of `@return` is accepted exactly if its first word is
an optional plus sign and digits that denote a number of at most 65535; otherwise this word is told
in the error. The responses of an operation are listed under the canonical numerals of the accepted
numbers, each once and in order of first occurrence, and each is made of the last argument with its
number. So two first words share a key exactly if they denote the same number, and a key is zero
only if a word denotes zero. -/
theorem status_codes_exact :
    (∀ code, (∃ n, IsNumeral n code) ↔ ∃ digits, (code = digits ∨ code = '+' :: digits) ∧
      digits ≠ [] ∧ ∀ c ∈ digits, isDigit c = true) ∧
    (∀ argument code rest, Text.words argument = code :: rest →
      (∀ n, Response.parse argument =
          .ok ⟨n, rest.head?.bind SchemaRef.ofToken?, Text.unwords rest.tail⟩ ↔
        IsNumeral n code ∧ n ≤ 65535) ∧
      (Response.parse argument = .error (.invalidStatusCode code) ↔
        ∀ n, IsNumeral n code → 65535 < n)) ∧
    (∀ code other m n, IsNumeral m code → IsNumeral n other →
      (ofNat m = ofNat n ↔ ∀ k, IsNumeral k code ↔ IsNumeral k other)) ∧
    ∀ (table : DirectiveTable) (place : Place) (r : Route) (known : Text → Bool),
      Route.parse table place = .ok r →
      let arguments := table.arguments .response
      let responses := (Operation.ofRoute known r).responses
      responses.keys = ((arguments.filterMap Response.code?).eraseDups).map ofNat ∧
      (∀ n, responses.get? (ofNat n) = (lastWith Response.code? (some n) arguments).bind fun a =>
        (Response.parse a).toOption.map .ofResponse) ∧
      ("0".toList ∈ responses.keys → ∃ a ∈ arguments, ∃ code rest,
        Text.words a = code :: rest ∧ IsNumeral 0 code) := by
  refine ⟨fun code => Text.Decimal.exists_isNumeral_iff, fun argument code rest h =>
    ⟨fun n => Response.parse_eq_ok_iff h, Response.parse_eq_error_iff h⟩, ?_, ?_⟩
  · intro code other m n hm hn
    rw [ofNat_inj]
    constructor
    · rintro rfl k
      exact ⟨fun hk => hk.unique hm ▸ hn, fun hk => hk.unique hn ▸ hm⟩
    · exact fun hsame => ((hsame m).mp hm).unique hn
  · intro table place r known hparse arguments responses
    have hkeys := Operation.keys_responses_parse known hparse
    refine ⟨hkeys, Operation.get?_responses_parse known hparse, fun hzero => ?_⟩
    rw [hkeys, List.mem_map] at hzero
    obtain ⟨n, hn, hnumeral⟩ := hzero
    obtain rfl : n = 0 := ofNat_inj.mp hnumeral
    obtain ⟨a, ha, hcode⟩ := List.mem_filterMap.mp (List.mem_eraseDups.mp hn)
    exact ⟨a, ha, Response.isNumeral_of_code? hcode⟩

/-- A block with several spellings of two status codes, and with words that are refused: a number
that is too large, a minus sign, a plus sign alone and none but another word. -/
def spelledCodes : DirectiveTable :=
  .ofLines ["@route List GET /pads", "@return +0200 []Pad all", "@return 65536 empty too large",
    "@return -1 empty below zero", "@return 000 empty zero", "@return 200 Pad one", "@return + x",
    "@return ok", "@return 65535"]

theorem status_codes_exact_spelledCodes :
    Text.words "+0200 []Pad all" = ["+0200", "[]Pad", "all"] ∧
    Response.parse "+0200 []Pad all" = .ok ⟨200, some ⟨"Pad", true⟩, "all"⟩ ∧
    Text.words "65536 empty" = ["65536", "empty"] ∧ (∀ n, IsNumeral n "65536" → 65535 < n) ∧
    IsNumeral 200 "+0200" ∧ IsNumeral 200 "200" ∧
    (∀ k, IsNumeral k "+0200" ↔ IsNumeral k "200") ∧
    ∃ r, Route.parse spelledCodes ⟨"pads.go", 9⟩ = .ok r ∧
      ∀ known, let responses := (Operation.ofRoute known r).responses
        responses.keys = ["200", "0", "65535"] ∧
        responses.get? "200" = some ⟨"one", some (.referenceTo "Pad")⟩ ∧
        ∃ a ∈ spelledCodes.arguments .response, ∃ code rest,
          Text.words a = code :: rest ∧ IsNumeral 0 code := by
  have hwords : Text.words "+0200 []Pad all" = ["+0200", "[]Pad", "all"] := by decide
  have hlarge : Text.words "65536 empty" = ["65536", "empty"] := by decide
  have hsigned : IsNumeral 200 "+0200" := .signed 1
  have hplain : IsNumeral 200 "200" := .plain 0
  have haccepted := ((status_codes_exact.2.1 _ _ _ hwords).1 200).mpr ⟨hsigned, by decide⟩
  have hrefused := (status_codes_exact.2.1 _ _ _ hlarge).2.mp (by decide)
  have hsame := (status_codes_exact.2.2.1 _ _ 200 200 hsigned hplain).mp rfl
  refine ⟨hwords, haccepted, hlarge, hrefused, hsigned, hplain, hsame, ?_⟩
  have hparse : ∃ r, Route.parse spelledCodes ⟨"pads.go", 9⟩ = .ok r := ⟨_, rfl⟩
  obtain ⟨r, hr⟩ := hparse
  refine ⟨r, hr, fun known => ?_⟩
  obtain ⟨hkeys, hvalues, hzero⟩ := status_codes_exact.2.2.2 _ _ r known hr
  have hcodes :
      (((spelledCodes.arguments .response).filterMap Response.code?).eraseDups).map ofNat =
        ["200", "0", "65535"] := by
    decide +kernel
  have hlast : lastWith Response.code? (some 200) (spelledCodes.arguments .response) =
      some "200 Pad one".toList := by
    decide +kernel
  have hvalue := hvalues 200
  rw [hlast] at hvalue
  rw [hcodes] at hkeys
  exact ⟨hkeys, hvalue, hzero (hkeys ▸ by decide)⟩

end ApiAnnotations
