import ApiAnnotations.Json.Reader
import ApiAnnotations.Proofs.Json.Float
import ApiAnnotations.Proofs.Json.Quoted

/-! # Drafts of written values

* `Json.Integral` : all numbers of a value are integers that fit into 64 bits.
* `Draft.ofTree` : the draft of a value, as it is read from its text.
* `Draft.ofText_pretty` : the text of a value has this draft and nothing after it. -/

namespace ApiAnnotations

namespace Json

/-- All numbers of a value are integers that fit into 64 bits, with or without a sign. -/
inductive Integral : Json → Prop
  | null : Integral .null
  | bool (b : Bool) : Integral (.bool b)
  | number (n : Int) (h : Numeral.InRange n) : Integral (.number (.integer n))
  | string (s : Text) : Integral (.string s)
  | array (vs : List Json) (h : ∀ v ∈ vs, Integral v) : Integral (.array vs)
  | object (ms : List (Text × Json)) (h : ∀ m ∈ ms, Integral m.2) : Integral (.object ms)

theorem integral_number_iff {n : Int} :
    Integral (.number (.integer n)) ↔ Numeral.InRange n := by
  constructor
  · rintro ⟨⟩
    assumption
  · exact .number n

theorem integral_array_iff {vs : List Json} : Integral (.array vs) ↔ ∀ v ∈ vs, Integral v := by
  constructor
  · rintro ⟨⟩
    assumption
  · exact .array vs

theorem integral_object_iff {ms : List (Text × Json)} :
    Integral (.object ms) ↔ ∀ m ∈ ms, Integral m.2 := by
  constructor
  · rintro ⟨⟩
    assumption
  · exact .object ms

mutual

def decideIntegral : (v : Json) → Decidable v.Integral
  | .null => isTrue .null
  | .bool b => isTrue (.bool b)
  | .number (.integer n) => decidable_of_iff (Numeral.InRange n) integral_number_iff.symm
  | .number (.float _ _) => isFalse nofun
  | .string s => isTrue (.string s)
  | .array vs => @decidable_of_iff _ _ integral_array_iff.symm (decideItems vs)
  | .object ms => @decidable_of_iff _ _ integral_object_iff.symm (decideMembers ms)

def decideItems : (vs : List Json) → Decidable (∀ v ∈ vs, Integral v)
  | [] => isTrue nofun
  | v :: vs =>
    @decidable_of_iff _ _ List.forall_mem_cons.symm
      (@instDecidableAnd _ _ (decideIntegral v) (decideItems vs))

def decideMembers : (ms : List (Text × Json)) → Decidable (∀ m ∈ ms, Integral m.2)
  | [] => isTrue nofun
  | (_, v) :: ms =>
    @decidable_of_iff _ _ List.forall_mem_cons.symm
      (@instDecidableAnd _ _ (decideIntegral v) (decideMembers ms))

end

instance : DecidablePred Integral := decideIntegral

namespace Draft

mutual

/-- The draft of a value. -/
def ofTree : Json → Draft
  | .null => .null
  | .bool b => .bool b
  | .number x => (ofNumeral (numberText x)).1
  | .string s => .string (.ofText s)
  | .array vs => .array (ofItems vs) none
  | .object ms => .object (ofMembers ms) none

/-- The drafts of items. -/
def ofItems : List Json → List Draft
  | [] => []
  | v :: vs => ofTree v :: ofItems vs

/-- The drafts of members. -/
def ofMembers : List (Text × Json) → List (Quoted × Draft)
  | [] => []
  | (k, v) :: ms => (.ofText k, ofTree v) :: ofMembers ms

end

theorem ofItems_eq_map (vs : List Json) : ofItems vs = vs.map ofTree := by
  induction vs with
  | nil => rfl
  | cons v vs ih => rw [ofItems, ih, List.map_cons]

theorem ofMembers_eq_map (ms : List (Text × Json)) :
    ofMembers ms = ms.map fun m => (Quoted.ofText m.1, ofTree m.2) := by
  induction ms with
  | nil => rfl
  | cons m ms ih => rw [ofMembers, ih, List.map_cons]

theorem ofNumeral_text {n : Numeral} (h : n.Proper) {rest : Text} (hrest : Numeral.Ends rest) :
    ofNumeral (n.text ++ rest) = (.numeral n, rest) := by
  rw [ofNumeral, Numeral.read_text h hrest]

theorem ofTree_number (x : Number) : ofTree (.number x) = .numeral (.ofNumber x) := by
  have hread := ofNumeral_text (Numeral.proper_ofNumber x) Numeral.ends_nil
  rw [List.append_nil, Numeral.text_ofNumber] at hread
  rw [ofTree, hread]

/-! ## Space -/

@[simp] theorem skipSpace_newLine (level : Nat) (s : Text) :
    skipSpace (newLine level ++ s) = skipSpace s := by
  have h : ∀ c ∈ newLine level, isSpace c = true := by
    intro c hc
    rcases List.mem_cons.mp hc with rfl | hc
    · rfl
    · rw [(List.mem_replicate.mp hc).2]
      rfl
  exact List.dropWhile_append_of_pos h

theorem skipSpace_cons {c : Char} (s : Text) (h : isSpace c = false) :
    skipSpace (c :: s) = c :: s := by
  simp [skipSpace, h]

theorem ends_newLine (level : Nat) (s : Text) : Numeral.Ends (newLine level ++ s) := by
  intro c hc
  obtain rfl : c = '\n' := by simpa [newLine, eq_comm] using hc
  decide

theorem ends_comma (s : Text) : Numeral.Ends (',' :: s) := by
  intro c hc
  obtain rfl : c = ',' := by simpa [eq_comm] using hc
  decide

/-! ## Reading by the first character -/

variable {level steps : Nat} {s r rest : Text}

theorem readValue_null (h : skipSpace s = "null" ++ r) : readValue (steps + 1) s = (.null, r) := by
  rw [readValue, h]
  rfl

theorem readValue_bool {b : Bool} (h : skipSpace s = write level (.bool b) ++ r) :
    readValue (steps + 1) s = (.bool b, r) := by
  cases b with
  | false =>
    rw [readValue, h]
    rfl
  | true =>
    rw [readValue, h]
    rfl

theorem readValue_numeral {c : Char} (h : skipSpace s = c :: r)
    (hc : c = '-' ∨ Text.Decimal.isDigit c = true) :
    readValue (steps + 1) s = ofNumeral (c :: r) := by
  have hword : c ≠ 'n' ∧ c ≠ 't' ∧ c ≠ 'f' := by
    refine ⟨?_, ?_, ?_⟩ <;> rintro rfl <;> exact absurd hc (by decide)
  rw [readValue, h]
  simp [hword, hc]

theorem readValue_string {q : Quoted} (h : skipSpace s = '"' :: r)
    (hq : Quoted.read r = (q, rest)) : readValue (steps + 1) s = (.string q, rest) := by
  rw [readValue, h]
  simp [Text.Decimal.isDigit, hq]

theorem readValue_emptyArray (h : skipSpace s = "[]" ++ rest) :
    readValue (steps + 1) s = (.array [] none, rest) := by
  rw [readValue, h]
  rfl

theorem readValue_emptyObject (h : skipSpace s = '{' :: '}' :: rest) :
    readValue (steps + 1) s = (.object [] none, rest) := by
  rw [readValue, h]
  rfl

theorem readValue_array {t : Text} {ds : List Draft} (h : skipSpace s = '[' :: r)
    (hr : skipSpace r = t) (ht : ∃ c u, t = c :: u ∧ c ≠ ']')
    (hds : readItems steps t = (ds, none, rest)) :
    readValue (steps + 1) s = (.array ds none, rest) := by
  obtain ⟨c, u, rfl, hc⟩ := ht
  rw [readValue, h]
  simp [Text.Decimal.isDigit, hr, hc, hds]

theorem readValue_object {t : Text} {ms : List (Quoted × Draft)} (h : skipSpace s = '{' :: r)
    (hr : skipSpace r = t) (ht : ∃ c u, t = c :: u ∧ c ≠ '}')
    (hms : readMembers steps t = (ms, none, rest)) :
    readValue (steps + 1) s = (.object ms none, rest) := by
  obtain ⟨c, u, rfl, hc⟩ := ht
  rw [readValue, h]
  simp [Text.Decimal.isDigit, hr, hc, hms]

/-! ## Items and members -/

theorem readItems_close {d : Draft} (hd : readValue steps s = (d, r))
    (hr : skipSpace r = ']' :: rest) : readItems (steps + 1) s = ([d], none, rest) := by
  simp [readItems, hd, hr]

theorem readItems_comma {d : Draft} {t : Text} {ds : List Draft}
    (hd : readValue steps s = (d, r)) (hr : skipSpace r = ',' :: t)
    (hds : readItems steps t = (ds, none, rest)) :
    readItems (steps + 1) s = (d :: ds, none, rest) := by
  simp [readItems, hd, hr, hds]

theorem skipSpace_quote {k t : Text} (h : skipSpace s = quote k ++ ':' :: t) :
    skipSpace s = '"' :: (k.flatMap escape ++ '"' :: ':' :: t) := by
  rw [h, quote]
  simp

theorem readMembers_close {k t : Text} {d : Draft} (h : skipSpace s = quote k ++ ':' :: t)
    (hd : readValue steps t = (d, r)) (hr : skipSpace r = '}' :: rest) :
    readMembers (steps + 1) s = ([(.ofText k, d)], none, rest) := by
  have hcolon : skipSpace (':' :: t) = ':' :: t := skipSpace_cons t rfl
  simp [readMembers, skipSpace_quote h, Quoted.read_escape, hcolon, hd, hr]

theorem readMembers_comma {k t u : Text} {d : Draft} {ms : List (Quoted × Draft)}
    (h : skipSpace s = quote k ++ ':' :: t) (hd : readValue steps t = (d, r))
    (hr : skipSpace r = ',' :: u) (hms : readMembers steps u = (ms, none, rest)) :
    readMembers (steps + 1) s = ((.ofText k, d) :: ms, none, rest) := by
  have hcolon : skipSpace (':' :: t) = ':' :: t := skipSpace_cons t rfl
  simp [readMembers, skipSpace_quote h, Quoted.read_escape, hcolon, hd, hr, hms]

/-- A value is read from its text at a level, with a step for each character, whatever stands
before and after it. -/
structure ReadsWritten (level : Nat) (v : Json) : Prop where
  starts : ∃ c t, write level v = c :: t ∧ isSpace c = false ∧ c ≠ ']'
  read : ∀ (steps : Nat) {s rest : Text}, skipSpace s = write level v ++ rest →
    Numeral.Ends rest → (write level v).length ≤ steps → readValue steps s = (ofTree v, rest)

/-- A text has a character, so there is a step to begin with. -/
theorem ReadsWritten.of_succ {v : Json}
    (starts : ∃ c t, write level v = c :: t ∧ isSpace c = false ∧ c ≠ ']')
    (read : ∀ (steps : Nat) {s rest : Text}, skipSpace s = write level v ++ rest →
      Numeral.Ends rest → (write level v).length ≤ steps + 1 →
      readValue (steps + 1) s = (ofTree v, rest)) : ReadsWritten level v := by
  refine ⟨starts, ?_⟩
  intro steps s rest hs hends hsteps
  cases steps with
  | zero =>
    obtain ⟨c, t, ht, -⟩ := starts
    rw [ht] at hsteps
    exact absurd hsteps (Nat.not_succ_le_zero _)
  | succ steps => exact read steps hs hends hsteps

theorem ReadsWritten.skipSpace_write {v : Json} (h : ReadsWritten level v) (rest : Text) :
    skipSpace (write level v ++ rest) = write level v ++ rest := by
  obtain ⟨c, t, ht, hc, -⟩ := h.starts
  rw [ht, List.cons_append]
  exact skipSpace_cons _ hc

theorem writeItems_nil : writeItems level [] = [] := by simp [writeItems]

theorem writeMembers_nil : writeMembers level [] = [] := by simp [writeMembers]

/-- Items are read from their texts up to the closing bracket. -/
theorem readItems_write (outer : Nat) {v : Json} {vs : List Json}
    (h : ∀ w ∈ v :: vs, ReadsWritten level w)
    (hs : skipSpace s =
      write level v ++ (writeItems level vs ++ (newLine outer ++ ']' :: rest)))
    (hsteps : (write level v).length + (writeItems level vs).length < steps) :
    readItems steps s = (ofItems (v :: vs), none, rest) := by
  -- After an item there is a comma or a new line, so that a numeral ends there.
  induction vs generalizing v steps s with
  | nil =>
    have hv := h v List.mem_cons_self
    obtain ⟨steps, rfl⟩ := Nat.exists_eq_succ_of_ne_zero (Nat.ne_zero_of_lt hsteps)
    rw [writeItems_nil, List.nil_append] at hs
    have hread := hv.read steps hs (ends_newLine outer _) (by omega)
    refine readItems_close hread ?_
    rw [skipSpace_newLine]
    rfl
  | cons w vs ih =>
    have hv := h v List.mem_cons_self
    have hw := h w (by simp)
    obtain ⟨steps, rfl⟩ := Nat.exists_eq_succ_of_ne_zero (Nat.ne_zero_of_lt hsteps)
    simp only [writeItems, List.nil_append, List.cons_append, List.append_assoc,
      List.length_cons, List.length_append] at hs hsteps
    have hread := hv.read steps hs (ends_comma _) (by omega)
    refine readItems_comma hread (skipSpace_cons _ rfl) ?_
    refine ih (fun x hx => h x (List.mem_cons_of_mem _ hx)) ?_ (by omega)
    rw [skipSpace_newLine, hw.skipSpace_write]

/-- Members are read from their texts up to the closing brace. -/
theorem readMembers_write (outer : Nat) {k : Text} {v : Json} {ms : List (Text × Json)}
    (h : ∀ m ∈ (k, v) :: ms, ReadsWritten level m.2)
    (hs : skipSpace s = quote k ++ ':' :: ' ' ::
      (write level v ++ (writeMembers level ms ++ (newLine outer ++ '}' :: rest))))
    (hsteps : (write level v).length + (writeMembers level ms).length < steps) :
    readMembers steps s = (ofMembers ((k, v) :: ms), none, rest) := by
  induction ms generalizing k v steps s with
  | nil =>
    have hv : ReadsWritten level v := h (k, v) List.mem_cons_self
    obtain ⟨steps, rfl⟩ := Nat.exists_eq_succ_of_ne_zero (Nat.ne_zero_of_lt hsteps)
    rw [writeMembers_nil, List.nil_append] at hs
    refine readMembers_close hs
      (hv.read steps (hv.skipSpace_write _) (ends_newLine outer _) (by omega)) ?_
    rw [skipSpace_newLine]
    rfl
  | cons m ms ih =>
    obtain ⟨l, w⟩ := m
    have hv : ReadsWritten level v := h (k, v) List.mem_cons_self
    obtain ⟨steps, rfl⟩ := Nat.exists_eq_succ_of_ne_zero (Nat.ne_zero_of_lt hsteps)
    simp only [writeMembers, List.cons_append, List.append_assoc, List.nil_append,
      List.length_cons, List.length_append] at hs hsteps
    refine readMembers_comma hs
      (hv.read steps (hv.skipSpace_write _) (ends_comma _) (by omega)) (skipSpace_cons _ rfl) ?_
    refine ih (fun x hx => h x (List.mem_cons_of_mem _ hx)) ?_ (by omega)
    rw [skipSpace_newLine]
    exact skipSpace_cons _ rfl

/-! ## Values -/

theorem isSpace_of_isDigit {c : Char} (h : Text.Decimal.isDigit c = true) : isSpace c = false := by
  rw [Bool.eq_false_iff]
  intro hspace
  simp only [isSpace, Bool.or_eq_true, decide_eq_true_eq, or_assoc] at hspace
  rcases hspace with rfl | rfl | rfl | rfl <;> exact absurd h (by decide)

theorem readsWritten_number (x : Number) : ReadsWritten level (.number x) := by
  have hproper := Numeral.proper_ofNumber x
  have hwrite : write level (.number x) = (Numeral.ofNumber x).text := by
    rw [write, Numeral.text_ofNumber]
  obtain ⟨c, t, ht, hc⟩ := Numeral.text_eq_cons hproper
  have hspace : isSpace c = false := by
    rcases hc with rfl | hc
    · rfl
    · exact isSpace_of_isDigit hc
  refine .of_succ ⟨c, t, hwrite.trans ht, hspace, ?_⟩ ?_
  · rintro rfl
    exact absurd hc (by decide)
  · intro steps s rest hs hends _
    rw [hwrite, ht, List.cons_append] at hs
    rw [readValue_numeral hs hc, ← List.cons_append, ← ht, ofNumeral_text hproper hends,
      ofTree_number]

theorem readsWritten_string (s : Text) : ReadsWritten level (.string s) := by
  have hwrite : write level (.string s) = '"' :: (s.flatMap escape ++ ['"']) := by
    rw [write, quote]
    rfl
  refine .of_succ ⟨'"', _, hwrite, rfl, by decide⟩ ?_
  intro steps t rest ht _ _
  rw [hwrite, List.cons_append, List.append_assoc] at ht
  exact readValue_string ht (Quoted.read_escape s rest)

theorem readsWritten_array {vs : List Json} (h : ∀ v ∈ vs, ReadsWritten (level + 1) v) :
    ReadsWritten level (.array vs) := by
  cases vs with
  | nil =>
    refine .of_succ ⟨'[', [']'], by rw [write]; rfl, rfl, by decide⟩ ?_
    intro steps s rest hs _ _
    rw [write] at hs
    exact readValue_emptyArray hs
  | cons v vs =>
    have hv := h v List.mem_cons_self
    have hwrite : ∀ rest, write level (.array (v :: vs)) ++ rest =
        '[' :: (newLine (level + 1) ++ (write (level + 1) v ++ (writeItems (level + 1) vs ++
          (newLine level ++ ']' :: rest)))) := by
      intro rest
      simp [write]
    have hlength := congrArg List.length (hwrite [])
    simp only [List.length_append, List.length_cons, List.length_nil] at hlength
    refine .of_succ ⟨'[', _, (List.append_nil _).symm.trans (hwrite []), rfl, by decide⟩ ?_
    intro steps s rest hs _ hsteps
    rw [hwrite rest] at hs
    refine readValue_array hs ((skipSpace_newLine ..).trans (hv.skipSpace_write _)) ?_
      (readItems_write level h (hv.skipSpace_write _) (by omega))
    obtain ⟨c, t, ht, -, hc⟩ := hv.starts
    exact ⟨c, _, by rw [ht]; rfl, hc⟩

theorem readsWritten_object {ms : List (Text × Json)}
    (h : ∀ m ∈ ms, ReadsWritten (level + 1) m.2) : ReadsWritten level (.object ms) := by
  cases ms with
  | nil =>
    refine .of_succ ⟨'{', ['}'], by rw [write], rfl, by decide⟩ ?_
    intro steps s rest hs _ _
    rw [write] at hs
    exact readValue_emptyObject hs
  | cons m ms =>
    obtain ⟨k, v⟩ := m
    have hwrite : ∀ rest, write level (.object ((k, v) :: ms)) ++ rest =
        '{' :: (newLine (level + 1) ++ (quote k ++ ':' :: ' ' :: (write (level + 1) v ++
          (writeMembers (level + 1) ms ++ (newLine level ++ '}' :: rest))))) := by
      intro rest
      simp [write]
    have hlength := congrArg List.length (hwrite [])
    simp only [List.length_append, List.length_cons, List.length_nil] at hlength
    refine .of_succ ⟨'{', _, (List.append_nil _).symm.trans (hwrite []), rfl, by decide⟩ ?_
    intro steps s rest hs _ hsteps
    rw [hwrite rest] at hs
    refine readValue_object hs ((skipSpace_newLine ..).trans (skipSpace_cons _ rfl))
      ⟨'"', _, rfl, by decide⟩ (readMembers_write level h (skipSpace_cons _ rfl) (by omega))

theorem readsWritten_null : ReadsWritten level .null := by
  refine .of_succ ⟨'n', _, rfl, rfl, by decide⟩ ?_
  intro steps s rest hs _ _
  exact readValue_null hs

theorem readsWritten_bool (b : Bool) : ReadsWritten level (.bool b) := by
  refine .of_succ ?_ ?_
  · cases b
    · exact ⟨'f', _, rfl, rfl, by decide⟩
    · exact ⟨'t', _, rfl, rfl, by decide⟩
  · intro steps s rest hs _ _
    exact readValue_bool hs

mutual

/-- **A value is read from its text.** -/
theorem readsWritten : (v : Json) → (level : Nat) → ReadsWritten level v
  | .null, _ => readsWritten_null
  | .bool b, _ => readsWritten_bool b
  | .number x, _ => readsWritten_number x
  | .string s, _ => readsWritten_string s
  | .array vs, level => readsWritten_array (readsWritten_items vs (level + 1))
  | .object ms, level => readsWritten_object (readsWritten_members ms (level + 1))

theorem readsWritten_items : (vs : List Json) → (level : Nat) → ∀ v ∈ vs, ReadsWritten level v
  | [], _ => nofun
  | v :: vs, level => List.forall_mem_cons.mpr ⟨readsWritten v level, readsWritten_items vs level⟩

theorem readsWritten_members :
    (ms : List (Text × Json)) → (level : Nat) → ∀ m ∈ ms, ReadsWritten level m.2
  | [], _ => nofun
  | (_, v) :: ms, level =>
    List.forall_mem_cons.mpr ⟨readsWritten v level, readsWritten_members ms level⟩

end

theorem ofText_pretty (v : Json) : ofText v.pretty = (ofTree v, []) := by
  have hread := readsWritten v 0
  rw [ofText]
  refine hread.read _ ?_ Numeral.ends_nil ?_
  · have hskip := hread.skipSpace_write []
    rw [List.append_nil] at hskip ⊢
    exact hskip
  · rw [pretty]
    omega

end Draft

/-- **Reading the text of a value** is reading its draft. -/
theorem Reader.run_pretty {α : Type} (reader : Reader α) (v : Json) :
    reader.run v.pretty = reader maxDepth (Draft.ofTree v) := by
  simp only [Reader.run, Draft.ofText_pretty]
  cases reader maxDepth (Draft.ofTree v) with
  | error f => rfl
  | ok a => rfl

end Json

end ApiAnnotations
