import ApiAnnotations.Proofs.ListingOrder
import ApiAnnotations.Proofs.Text.Lines
import ApiAnnotations.Proofs.Text.Utf8

/-! # The bytes of a line

A source is decoded as a whole and then cut into lines. Nothing is lost by that: no bytes that are
read as one character, or refused as one beginning, reach from a line into another.

* `Text.lines_decodeLossy` : the lines are those of the bytes, each decoded on its own.
* `SameButLine.getElem?_cutLines` : what stands in a line changes no other line.
* `Build.perform_readSource` : what reading a source does.
* `Build.bytes_stay_in_line` : bad bytes never leave their line. -/

namespace ApiAnnotations

namespace Text

/-! ## Lines of bytes -/

/-- The bytes of the lines: the pieces before a line feed, without one carriage return at the end,
and the last piece unless it is empty. -/
def byteLines (bytes : List UInt8) : List (List UInt8) :=
  let pieces := splitOn 0x0A bytes
  pieces.dropLast.map (dropFinal 0x0D) ++ pieces.getLast?.toList.filter (!·.isEmpty)

theorem byteLines_eq (bytes : List UInt8) : byteLines bytes = cutLines 0x0A 0x0D bytes := by
  have hpieces : ∀ pieces : List (List UInt8), pieces.dropLast.map (dropFinal 0x0D) ++
      pieces.getLast?.toList.filter (!·.isEmpty) = linesOfPieces 0x0D pieces := by
    intro pieces
    induction pieces with
    | nil => rfl
    | cons p ps ih =>
      cases ps with
      | nil => cases p <;> rfl
      | cons q ps => exact congrArg (dropFinal 0x0D p :: ·) ih
  exact hpieces (splitOn 0x0A bytes)

theorem lf_not_mem_decodeLossy {bytes : List UInt8} (h : 0x0A ∉ bytes) :
    '\n' ∉ decodeLossy bytes := by
  intro hmem
  obtain ⟨b, hb, hvalue⟩ := mem_of_mem_decodeLossy hmem (by decide) (by decide)
  obtain rfl : b = 0x0A := UInt8.toNat_inj.mp hvalue
  exact h hb

theorem getLast?_append_cons {α : Type} {s t : List α} {a : α} (h : t ≠ []) :
    (s ++ a :: t).getLast? = t.getLast? := by
  rw [List.append_cons, List.getLast?_append_of_ne_nil _ h]

/-- A text ends in a carriage return only if its last byte is one. -/
theorem getLast?_of_decodeLossy (bytes : List UInt8) :
    (decodeLossy bytes).getLast? = some '\r' → bytes.getLast? = some 0x0D := by
  induction bytes using piece_induction (0x0D : UInt8) with
  | hlast bytes hcr =>
    intro hlast
    obtain ⟨b, hb, hvalue⟩ :=
      mem_of_mem_decodeLossy (List.mem_of_getLast? hlast) (by decide) (by decide)
    obtain rfl : b = 0x0D := UInt8.toNat_inj.mp hvalue
    exact absurd hb hcr
  | hpiece p rest _ ih =>
    intro hlast
    rw [decodeLossy_append_ascii (by decide)] at hlast
    cases rest with
    | nil => simp
    | cons b rest =>
      have hne : decodeLossy (b :: rest) ≠ [] := fun hnil =>
        List.cons_ne_nil b rest (decodeLossy_eq_nil_iff.mp hnil)
      rw [getLast?_append_cons hne] at hlast
      rw [getLast?_append_cons (List.cons_ne_nil b rest)]
      exact ih hlast

theorem decodeLossy_dropFinal (bytes : List UInt8) :
    decodeLossy (dropFinal 0x0D bytes) = dropFinal '\r' (decodeLossy bytes) := by
  by_cases hcr : bytes.getLast? = some 0x0D
  · obtain ⟨front, rfl⟩ := List.getLast?_eq_some_iff.mp hcr
    rw [dropFinal_append, decodeLossy_append_ascii (by decide)]
    exact (dropFinal_append '\r' _).symm
  · rw [dropFinal, if_neg hcr, dropFinal, if_neg fun h => hcr (getLast?_of_decodeLossy bytes h)]

/-- **The lines of a decoded text** are the lines of its bytes, each decoded on its own. -/
theorem lines_decodeLossy (bytes : List UInt8) :
    lines (decodeLossy bytes) = (byteLines bytes).map decodeLossy := by
  rw [byteLines_eq]
  induction bytes using piece_induction (0x0A : UInt8) with
  | hlast bytes hlf =>
    rw [cutLines_of_not_mem _ hlf, lines, cutLines_of_not_mem _ (lf_not_mem_decodeLossy hlf)]
    cases bytes with
    | nil => rfl
    | cons b bytes =>
      have hne : decodeLossy (b :: bytes) ≠ [] := fun hnil =>
        List.cons_ne_nil b bytes (decodeLossy_eq_nil_iff.mp hnil)
      rw [if_neg (by simpa using hne)]
      rfl
  | hpiece p rest hlf ih =>
    rw [decodeLossy_append_ascii (by decide), cutLines_append_cons _ hlf, List.map_cons,
      decodeLossy_dropFinal, ← ih]
    exact lines_append_lf (lf_not_mem_decodeLossy hlf) _

end Text

open Text

/-! ## Changing a line -/

/-- The bytes are the same except for what stands in the line with this index. -/
def SameButLine (n : Nat) (bytes bytes' : List UInt8) : Prop :=
  ∃ before line line' after, bytes = before ++ line ++ after ∧ bytes' = before ++ line' ++ after ∧
    0x0A ∉ line ∧ 0x0A ∉ line' ∧ (∀ b ∈ before.getLast?, b = 0x0A) ∧ (∀ b ∈ after.head?, b = 0x0A) ∧
    before.count 0x0A = n

section

variable {α : Type} [DecidableEq α] {lf : α} (cr : α)

/-- Lines that are ended are lines before others, as many as what ends them. -/
theorem Text.cutLines_append {before : List α} (h : ∀ a ∈ before.getLast?, a = lf) :
    (cutLines lf cr before).length = before.count lf ∧
      ∀ rest, cutLines lf cr (before ++ rest) = cutLines lf cr before ++ cutLines lf cr rest := by
  induction before using piece_induction lf with
  | hlast before hlf =>
    cases hbefore : before.getLast? with
    | none =>
      obtain rfl := List.getLast?_eq_none_iff.mp hbefore
      exact ⟨rfl, fun rest => rfl⟩
    | some a =>
      obtain rfl := h a hbefore
      exact absurd (List.mem_of_getLast? hbefore) hlf
  | hpiece p before hlf ih =>
    have hrest : ∀ a ∈ before.getLast?, a = lf := by
      intro a ha
      have hne : before ≠ [] := fun hnil => by simp [hnil] at ha
      exact h a (by rwa [getLast?_append_cons hne])
    obtain ⟨hlength, happend⟩ := ih hrest
    rw [cutLines_append_cons cr hlf]
    constructor
    · rw [List.length_cons, hlength, List.count_append, List.count_cons_self,
        List.count_eq_zero_of_not_mem hlf, Nat.zero_add]
    · intro rest
      rw [List.append_assoc, List.cons_append, cutLines_append_cons cr hlf, happend,
        List.cons_append]

/-- **What stands in a line changes no other line.** -/
theorem Text.getElem?_cutLines {before line line' after : List α} (hline : lf ∉ line)
    (hline' : lf ∉ line') (hbefore : ∀ a ∈ before.getLast?, a = lf)
    (hafter : ∀ a ∈ after.head?, a = lf) {i : Nat} (hi : i ≠ before.count lf) :
    (cutLines lf cr (before ++ line' ++ after))[i]? =
      (cutLines lf cr (before ++ line ++ after))[i]? := by
  obtain ⟨hlength, happend⟩ := cutLines_append cr hbefore
  rw [← hlength] at hi
  rw [List.append_assoc, List.append_assoc, happend, happend]
  rcases Nat.lt_or_gt_of_ne hi with hlt | hgt
  · rw [List.getElem?_append_left hlt, List.getElem?_append_left hlt]
  · obtain ⟨k, rfl⟩ := Nat.exists_eq_add_of_lt hgt
    rw [List.getElem?_append_right (by omega), List.getElem?_append_right (by omega), Nat.add_assoc,
      Nat.add_sub_cancel_left]
    cases after with
    | nil =>
      have hlast : ∀ s : List α, lf ∉ s → (cutLines lf cr s)[k + 1]? = none := fun s hs => by
        rw [cutLines_of_not_mem cr hs]
        split <;> rfl
      rw [List.append_nil, List.append_nil, hlast line' hline', hlast line hline]
    | cons a after =>
      obtain rfl := hafter a rfl
      rw [cutLines_append_cons cr hline, cutLines_append_cons cr hline', List.getElem?_cons_succ,
        List.getElem?_cons_succ]

end

theorem SameButLine.getElem?_byteLines {n : Nat} {bytes bytes' : List UInt8}
    (h : SameButLine n bytes bytes') {i : Nat} (hi : i ≠ n) :
    (byteLines bytes')[i]? = (byteLines bytes)[i]? := by
  obtain ⟨before, line, line', after, rfl, rfl, hline, hline', hbefore, hafter, rfl⟩ := h
  rw [byteLines_eq, byteLines_eq]
  exact getElem?_cutLines _ hline hline' hbefore hafter hi

/-! ## Reading a source -/

namespace Build

/-- What reading a source does. -/
theorem perform_readSource (path : Text) {w : Workspace} {bytes : List UInt8}
    (h : w.tree.read? w.place path = some bytes) :
    w.perform (readSource path) =
      (.ok (.ofBytes path bytes),
        { w with log := SourceFile.bytesEvents path bytes ++ .readingFile path :: w.log }) := by
  have hevents : (SourceFile.bytesEvents path bytes).reverse =
      SourceFile.bytesEvents path bytes := by
    rw [SourceFile.bytesEvents]
    split <;> rfl
  rw [readSource, Workspace.perform_readFile _ _ h, Workspace.perform_bind,
    Workspace.perform_reportAll, hevents]
  rfl

theorem replacedBytes_mem_bytesEvents (path : Text) {bytes : List UInt8} :
    .replacedBytes path ∈ SourceFile.bytesEvents path bytes ↔ ¬ ∃ s, bytes = encode s := by
  rw [← isUtf8_iff, SourceFile.bytesEvents]
  cases isUtf8 bytes <;> simp

/-- **Bad bytes never leave their line.** The lines read are those of the bytes, each decoded on its
own, so a valid line is read as it is and other lines are not changed by what stands in one. -/
theorem bytes_stay_in_line (w : Workspace) (path : Text) (bytes : List UInt8)
    (h : w.tree.read? w.place path = some bytes) :
    ∃ (source : SourceFile) (events : List Event),
      w.perform (readSource path) = (.ok source, { w with log := events ++ w.log }) ∧
      source.path = path ∧ source.lines = (byteLines bytes).map decodeLossy ∧
      (.replacedBytes path ∈ events ↔ ¬ ∃ s, bytes = encode s) ∧
      (∀ (i : Nat) (s : Text),
        (byteLines bytes)[i]? = some (encode s) → source.lines[i]? = some s) ∧
      ∀ (w' : Workspace) (bytes' : List UInt8) (n : Nat),
        w'.tree.read? w'.place path = some bytes' → SameButLine n bytes bytes' →
        ∃ source' : SourceFile, (w'.perform (readSource path)).1 = .ok source' ∧
          ∀ i : Nat, i ≠ n → source'.lines[i]? = source.lines[i]? := by
  have hlines : ∀ bytes : List UInt8,
      (SourceFile.ofBytes path bytes).lines = (byteLines bytes).map decodeLossy := lines_decodeLossy
  refine ⟨.ofBytes path bytes, SourceFile.bytesEvents path bytes ++ [.readingFile path], ?_, rfl,
    hlines bytes, ?_, ?_, ?_⟩
  · rw [perform_readSource path h, List.append_assoc]
    rfl
  · rw [← replacedBytes_mem_bytesEvents path]
    simp
  · intro i s hline
    rw [hlines, List.getElem?_map, hline, Option.map_some, decodeLossy_encode]
  · intro w' bytes' n h' hsame
    refine ⟨.ofBytes path bytes', by rw [perform_readSource path h'], fun i hi => ?_⟩
    rw [hlines, hlines, List.getElem?_map, List.getElem?_map, hsame.getElem?_byteLines hi]

/-- A workspace with one source, whose first line may have bytes of any kind. -/
def oneSource (first : List UInt8) : Workspace :=
  ⟨.folder [("pad.go", .file (first ++ [0x0D, 0x0A, 0x62]))], [], [], []⟩

theorem bytes_stay_in_line_oneSource :
    ∃ (source : SourceFile) (events : List Event),
      (oneSource [0x61, 0xE2, 0x82]).perform (readSource "pad.go") =
        (.ok source, { oneSource [0x61, 0xE2, 0x82] with log := events }) ∧
      source.lines = [['a', '\uFFFD'], ['b']] ∧ .replacedBytes "pad.go" ∈ events ∧
      ∃ source' : SourceFile, ((oneSource [0x61]).perform (readSource "pad.go")).1 = .ok source' ∧
        source'.lines[1]? = source.lines[1]? := by
  have hread : ∀ first, (oneSource first).tree.read? (oneSource first).place "pad.go" =
      some (first ++ [0x0D, 0x0A, 0x62]) := fun first => rfl
  obtain ⟨source, events, hrun, -, hlines, hwarning, -, hchange⟩ :=
    bytes_stay_in_line _ _ _ (hread [0x61, 0xE2, 0x82])
  obtain ⟨source', hrun', hsame⟩ := hchange (oneSource [0x61]) _ 0 (hread [0x61])
    ⟨[], [0x61, 0xE2, 0x82, 0x0D], [0x61, 0x0D], [0x0A, 0x62], rfl, rfl, by decide, by decide,
      nofun, fun _ hb => (Option.some.inj hb).symm, rfl⟩
  refine ⟨source, events, ?_, hlines.trans (by decide), hwarning.mpr ?_, source', hrun',
    hsame 1 (by decide)⟩
  · rw [hrun]
    simp [oneSource]
  · rw [← isUtf8_iff]
    decide

end Build

end ApiAnnotations
