import ApiAnnotations.Proofs.BlockSearch

/-! # Files cut at a code line

A line that is neither a comment line nor marked separates the blocks of the lines above it from
those of the lines below it.

* `marked_append_code` : the blocks of such a file are those of its two parts, the second ones moved
  down.
* `routes_append_code` and `models_append_code` : so are its records. A model also needs the line to
  be a closing one, where the scan for fields ends. -/

namespace ApiAnnotations

section

variable {start marker line : Text} {A B : List Text} {k first last n : Nat}

theorem holdsAt_append_cons_right {p : Text → Bool} {i : Nat} :
    HoldsAt p (A ++ line :: B) (A.length + 1 + i) ↔ HoldsAt p B i := by
  have h := HoldsAt.append_right (p := p) (s := A ++ [line]) (t := B) (i := i)
  rwa [List.append_assoc, List.singleton_append, List.length_append, List.length_singleton] at h

theorem not_holdsAt_separator {p : Text → Bool} (h : p line = false) :
    ¬ HoldsAt p (A ++ line :: B) A.length := by
  rintro ⟨a, ha, hp⟩
  rw [List.getElem?_append_right (Nat.le_refl _), Nat.sub_self] at ha
  obtain rfl : line = a := by simpa using ha
  rw [h] at hp
  exact Bool.false_ne_true hp

/-! ## Blocks -/

theorem Surrounds.append_left (h : Surrounds start A k first last)
    (hline : isCommentLine start line = false) :
    Surrounds start (A ++ line :: B) k first last := by
  have hle := h.first_le
  have hlt := h.last_lt
  have hge := h.le_last
  refine ⟨hle, hge, by rw [List.length_append]; omega,
    fun i hi hik => (HoldsAt.append_left (by omega)).mpr (h.above i hi hik),
    fun i hki hi => (HoldsAt.append_left (by omega)).mpr (h.below i hki hi),
    fun i hi hc => h.before i hi ((HoldsAt.append_left (by omega)).mp hc), fun hc => ?_⟩
  rcases Nat.eq_or_lt_of_le (show last + 1 ≤ A.length by omega) with heq | hm
  · rw [heq] at hc
    exact not_holdsAt_separator hline hc
  · exact h.after ((HoldsAt.append_left hm).mp hc)

theorem Surrounds.append_right (h : Surrounds start B k first last)
    (hline : isCommentLine start line = false) :
    Surrounds start (A ++ line :: B) (A.length + 1 + k) (A.length + 1 + first)
      (A.length + 1 + last) := by
  have hlt := h.last_lt
  have hmove : ∀ i, A.length + 1 ≤ i → (IsCommentAt start (A ++ line :: B) i ↔
      IsCommentAt start B (i - (A.length + 1))) := by
    intro i hi
    have h : IsCommentAt start (A ++ line :: B) (A.length + 1 + (i - (A.length + 1))) ↔
        IsCommentAt start B (i - (A.length + 1)) := holdsAt_append_cons_right
    rwa [show A.length + 1 + (i - (A.length + 1)) = i by omega] at h
  refine ⟨by have := h.first_le; omega, by have := h.le_last; omega,
    by rw [List.length_append, List.length_cons]; omega,
    fun i hi hik => (hmove i (by omega)).mpr (h.above _ (by omega) (by omega)),
    fun i hki hi => (hmove i (by omega)).mpr (h.below _ (by omega) (by omega)), fun i hi hc => ?_,
    fun hc => ?_⟩
  · rcases Nat.eq_zero_or_pos first with hz | hp
    · obtain rfl : i = A.length := by omega
      exact not_holdsAt_separator hline hc
    · exact h.before _ (by omega) ((hmove i (by omega)).mp hc)
  · rw [hmove _ (by omega), show A.length + 1 + last + 1 - (A.length + 1) = last + 1 by omega] at hc
    exact h.after hc

namespace CommentBlock

/-- The block `n` lines further down. -/
def down (n : Nat) (block : CommentBlock) : CommentBlock :=
  ⟨block.lines, n + block.firstLine, n + block.lastLine⟩

theorem drop_append_cons (n : Nat) : (A ++ line :: B).drop (A.length + 1 + n) = B.drop n := by
  rw [List.drop_append, List.drop_of_length_le (by omega), List.nil_append,
    show A.length + 1 + n - A.length = n + 1 by omega, List.drop_succ_cons]

theorem around_append_left (hk : k < A.length) (hline : isCommentLine start line = false) :
    around start (A ++ line :: B) k = around start A k := by
  have hs := surrounds_around start hk
  have hle := hs.first_le
  have hge := hs.le_last
  have hlt := hs.last_lt
  refine (around_eq (hs.append_left hline)).trans (Eq.trans ?_ (around_eq hs).symm)
  rw [span, span, List.drop_append_of_le_length (by omega),
    List.take_append_of_le_length (by rw [List.length_drop]; omega)]

theorem around_append_right (hk : k < B.length) (hline : isCommentLine start line = false) :
    around start (A ++ line :: B) (A.length + 1 + k) =
      down (A.length + 1) (around start B k) := by
  have hs := surrounds_around start hk
  have hsize : ∀ first last,
      A.length + 1 + last + 1 - (A.length + 1 + first) = last + 1 - first := by omega
  refine (around_eq (hs.append_right hline)).trans
    (Eq.trans ?_ (congrArg (down (A.length + 1)) (around_eq hs).symm))
  rw [span, drop_append_cons, hsize]
  rfl

theorem opens_append_left (hk : k < A.length) (hline : isCommentLine start line = false) :
    Opens start marker (A ++ line :: B) k ↔ Opens start marker A k := by
  rw [Opens, Opens, around_append_left hk hline]
  refine and_congr (HoldsAt.append_left hk) (forall_congr' fun i => ?_)
  exact imp_congr_right fun hi => imp_congr_right fun _ =>
    not_congr (HoldsAt.append_left (Nat.lt_trans hi hk))

theorem opens_append_right (hk : k < B.length) (hline : isCommentLine start line = false) :
    Opens start marker (A ++ line :: B) (A.length + 1 + k) ↔ Opens start marker B k := by
  rw [Opens, Opens, around_append_right hk hline]
  refine and_congr holdsAt_append_cons_right
    ⟨fun h i hi hfirst hm => ?_, fun h i hi hfirst hm => ?_⟩
  · exact h (A.length + 1 + i) (by omega) (by simpa [down] using hfirst)
      (holdsAt_append_cons_right.mpr hm)
  · simp only [down] at hfirst
    obtain ⟨j, rfl⟩ : ∃ j, i = A.length + 1 + j := ⟨i - (A.length + 1), by omega⟩
    exact h j (by omega) (by omega) (holdsAt_append_cons_right.mp hm)

theorem openers_append_code (hline : isCommentLine start line = false)
    (hmark : Text.contains marker line = false) :
    openers start marker (A ++ line :: B) =
      openers start marker A ++ (openers start marker B).map (A.length + 1 + ·) := by
  have hlen : (A ++ line :: B).length = A.length + 1 + B.length := by
    rw [List.length_append, List.length_cons]; omega
  have hleft : (List.range A.length).filter (fun k => Opens start marker (A ++ line :: B) k) =
      openers start marker A := by
    refine List.filter_congr fun k hk => decide_eq_decide.mpr ?_
    exact opens_append_left (List.mem_range.mp hk) hline
  have hright : (List.range B.length).filter
      ((fun k => decide (Opens start marker (A ++ line :: B) k)) ∘ (A.length + 1 + ·)) =
      openers start marker B := by
    refine List.filter_congr fun k hk => decide_eq_decide.mpr ?_
    exact opens_append_right (List.mem_range.mp hk) hline
  have hmid : [A.length].filter (fun k => Opens start marker (A ++ line :: B) k) = [] := by
    have hnot : ¬ Opens start marker (A ++ line :: B) A.length :=
      fun h => not_holdsAt_separator hmark h.1
    simp [hnot]
  rw [openers, hlen, List.range_add, List.range_succ, List.filter_append, List.filter_append,
    hleft, hmid, List.append_nil, List.filter_map, hright]

/-- **Blocks of a file cut at a code line.** -/
theorem marked_append_code (hline : isCommentLine start line = false)
    (hmark : Text.contains marker line = false) :
    marked start marker (A ++ line :: B) =
      marked start marker A ++ (marked start marker B).map (down (A.length + 1)) := by
  rw [marked_eq_map_openers, marked_eq_map_openers, marked_eq_map_openers,
    openers_append_code hline hmark, List.map_append, List.map_map, List.map_map]
  congr 1
  · exact List.map_congr_left fun k hk =>
      around_append_left (mem_openers.mp hk).lt_length hline
  · exact List.map_congr_left fun k hk =>
      around_append_right (mem_openers.mp hk).lt_length hline

end CommentBlock

end

/-! ## Records -/

/-- The place `n` lines further down. -/
def Place.down (n : Nat) (place : Place) : Place := ⟨place.file, n + place.line⟩

def Route.down (n : Nat) (r : Route) : Route := { r with place := r.place.down n }

def Model.down (n : Nat) (m : Model) : Model := { m with place := m.place.down n }

@[simp] theorem Place.down_down (m n : Nat) (place : Place) :
    (place.down m).down n = place.down (n + m) := by
  simp [Place.down, Nat.add_assoc]

@[simp] theorem Route.down_zero : Route.down 0 = id := by
  funext r
  simp [Route.down, Place.down]

@[simp] theorem Route.down_down (m n : Nat) (r : Route) : (r.down m).down n = r.down (n + m) := by
  simp [Route.down]

@[simp] theorem Model.down_zero : Model.down 0 = id := by
  funext m
  simp [Model.down, Place.down]

@[simp] theorem Model.down_down (k n : Nat) (m : Model) : (m.down k).down n = m.down (n + k) := by
  simp [Model.down]

namespace Extraction

theorem records_append {α : Type} (file : Text)
    (read : DirectiveTable → Place → Except GrammarError α) (bs cs : List CommentBlock) :
    records file read (bs ++ cs) = records file read bs ++ records file read cs :=
  List.filterMap_append

theorem records_congr {α : Type} {file : Text}
    {read read' : DirectiveTable → Place → Except GrammarError α} {bs : List CommentBlock}
    (h : ∀ b ∈ bs, read b.table (b.place file) = read' b.table (b.place file)) :
    records file read bs = records file read' bs := by
  induction bs with
  | nil => rfl
  | cons b bs ih =>
    rw [records, records, List.filterMap_cons, List.filterMap_cons, h b (List.mem_cons_self ..)]
    have ih := ih fun c hc => h c (List.mem_cons_of_mem _ hc)
    unfold records at ih
    rw [ih]

theorem records_map_down {α : Type} {file : Text} {move : α → α} {n : Nat}
    {read read' : DirectiveTable → Place → Except GrammarError α} (bs : List CommentBlock)
    (h : ∀ table (place : Place), read table (place.down n) = (read' table place).map move) :
    records file read (bs.map (CommentBlock.down n)) = (records file read' bs).map move := by
  induction bs with
  | nil => rfl
  | cons b bs ih =>
    have hplace : (CommentBlock.down n b).place file = (b.place file).down n := rfl
    have htable : (CommentBlock.down n b).table = b.table := rfl
    unfold records at ih ⊢
    rw [List.map_cons, List.filterMap_cons, List.filterMap_cons, hplace, htable, h, ih]
    cases read' b.table (b.place file) <;> rfl

variable {config : Config} {file line : Text} {A B : List Text}

theorem parse_route_down (n : Nat) (table : DirectiveTable) (place : Place) :
    Route.parse table (place.down n) = (Route.parse table place).map (Route.down n) := by
  unfold Route.parse
  cases Route.signature table <;> rfl

/-- **Routes of a file cut at a code line.** -/
theorem routes_append_code (hline : isCommentLine config.commentStart line = false)
    (hmark : Text.contains config.routeMarker line = false) :
    routes config ⟨file, A ++ line :: B⟩ =
      routes config ⟨file, A⟩ ++ (routes config ⟨file, B⟩).map (Route.down (A.length + 1)) := by
  unfold routes blocks
  rw [CommentBlock.marked_append_code hline hmark, records_append]
  congr 1
  exact records_map_down _ fun table place => parse_route_down _ table place

/-! ## Declarations -/

theorem body_append_left {style : DeclarationStyle} {k : Nat} (hk : k ≤ A.length)
    (hline : BodyLine.of style line = .closing) :
    Model.body style (A ++ line :: B) k = Model.body style A k := by
  unfold Model.body
  rw [List.drop_append_of_le_length hk, List.map_append, List.map_cons, hline]
  induction (A.drop k).map (BodyLine.of style) with
  | nil => rfl
  | cons l ls ih =>
    rw [List.cons_append, List.takeWhile_cons, List.takeWhile_cons, ih]

theorem body_append_right {style : DeclarationStyle} (k : Nat) :
    Model.body style (A ++ line :: B) (A.length + 1 + k) = Model.body style B k := by
  rw [Model.body, Model.body, CommentBlock.drop_append_cons]

theorem parse_model_append_left {style : DeclarationStyle} {place : Place}
    (hplace : place.line ≤ A.length) (hline : BodyLine.of style line = .closing)
    (table : DirectiveTable) :
    Model.parse style (A ++ line :: B) table place = Model.parse style A table place := by
  rw [Model.parse, body_append_left hplace hline]
  rfl

theorem parse_model_append_right {style : DeclarationStyle} (table : DirectiveTable)
    (place : Place) :
    Model.parse style (A ++ line :: B) table (place.down (A.length + 1)) =
      (Model.parse style B table place).map (Model.down (A.length + 1)) := by
  unfold Model.parse
  rw [show (place.down (A.length + 1)).line = A.length + 1 + place.line from rfl,
    body_append_right]
  cases Model.nameOf table <;> rfl

theorem lastLine_lt_of_mem_marked {start marker : Text} {lines : List Text} {b : CommentBlock}
    (hb : b ∈ CommentBlock.marked start marker lines) : b.lastLine < lines.length := by
  rw [CommentBlock.marked_eq_map_openers] at hb
  obtain ⟨k, hk, rfl⟩ := List.mem_map.mp hb
  exact (CommentBlock.mem_openers.mp hk).surrounds.last_lt

/-- **Models of a file cut at a closing line.** -/
theorem models_append_code (hline : isCommentLine config.commentStart line = false)
    (hmark : Text.contains config.modelMarker line = false)
    (hclose : BodyLine.of config.declarationStyle line = .closing) :
    models config ⟨file, A ++ line :: B⟩ =
      models config ⟨file, A⟩ ++ (models config ⟨file, B⟩).map (Model.down (A.length + 1)) := by
  unfold models blocks
  rw [CommentBlock.marked_append_code hline hmark, records_append]
  congr 1
  · refine records_congr fun b hb => parse_model_append_left ?_ hclose _
    have hlast := lastLine_lt_of_mem_marked hb
    exact hlast
  · exact records_map_down _ fun table place => parse_model_append_right table place

end Extraction

end ApiAnnotations
