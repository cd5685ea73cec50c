import ApiAnnotations.OrderedMap
import Mathlib.Data.List.Basic
import Mathlib.Data.List.Induction

/-! # Maps of lists

A map is filled with one entry for each element of a list. A key has the place of the first element
with this key and the value of the last one.

* `lastWith key k as` : the last element of the list with key `k`.
* `keys_ofList` : the keys of the map are the distinct keys of the elements, in order of first
  occurrence.
* `get?_ofList` : the value at a key is that of the last element with this key.
* `ofList_entries` : a map filled with the entries of a map is this map. -/

namespace ApiAnnotations

variable {α κ ν : Type}

/-- A new last element is dropped if it is among those before it. -/
theorem eraseDups_concat [BEq α] [LawfulBEq α] (as : List α) (b : α) [Decidable (b ∈ as)] :
    (as ++ [b]).eraseDups = if b ∈ as then as.eraseDups else as.eraseDups ++ [b] := by
  rw [List.eraseDups_append]
  by_cases h : b ∈ as
  · simp [List.removeAll, h]
  · simp [List.removeAll, h, List.eraseDups_cons]

theorem nodup_eraseDups [BEq α] [LawfulBEq α] (as : List α) : as.eraseDups.Nodup := by
  induction as using List.reverseRecOn with
  | nil => exact List.nodup_nil
  | append_singleton as b ih =>
    rw [eraseDups_concat]
    by_cases h : b ∈ as
    · rw [if_pos h]
      exact ih
    · rw [if_neg h]
      refine List.nodup_append.mpr ⟨ih, by simp, ?_⟩
      intro a ha c hc hac
      rw [List.mem_singleton.mp hc] at hac
      exact h (hac ▸ List.mem_eraseDups.mp ha)

theorem perm_eraseDups [BEq α] [LawfulBEq α] {as bs : List α} (h : as.Perm bs) :
    as.eraseDups.Perm bs.eraseDups := by
  rw [List.perm_ext_iff_of_nodup (nodup_eraseDups as) (nodup_eraseDups bs)]
  intro a
  rw [List.mem_eraseDups, List.mem_eraseDups]
  exact h.mem_iff

theorem eraseDups_map [BEq α] [LawfulBEq α] [BEq κ] [LawfulBEq κ] {f : α → κ}
    (hf : Function.Injective f) (as : List α) : (as.map f).eraseDups = as.eraseDups.map f := by
  classical
  induction as using List.reverseRecOn with
  | nil => rfl
  | append_singleton as b ih =>
    rw [List.map_append, List.map_singleton, eraseDups_concat, eraseDups_concat, ih]
    simp only [List.mem_map_of_injective hf]
    split
    · rfl
    · rw [List.map_append, List.map_singleton]

variable [DecidableEq κ]

/-- The last element with key `k`. -/
def lastWith (key : α → κ) (k : κ) (as : List α) : Option α :=
  (as.filter fun a => decide (key a = k)).getLast?

theorem lastWith_concat (key : α → κ) (k : κ) (as : List α) (b : α) :
    lastWith key k (as ++ [b]) = if key b = k then some b else lastWith key k as := by
  unfold lastWith
  rw [List.filter_append]
  by_cases h : key b = k
  · simp [h]
  · simp [h]

theorem mem_of_lastWith {key : α → κ} {k : κ} {as : List α} {a : α}
    (h : lastWith key k as = some a) : a ∈ as :=
  (List.mem_filter.mp (List.mem_of_getLast? h)).1

/-- An element found as the last one of a key has that key. -/
theorem key_of_lastWith {key : α → κ} {k : κ} {as : List α} {a : α}
    (h : lastWith key k as = some a) : key a = k := by
  have hmem := List.mem_of_getLast? h
  simpa using (List.mem_filter.mp hmem).2

/-- The last of the elements that are made from others is made from the last of those. -/
theorem lastWith_filterMap {β : Type} (f : β → Option α) (key : α → κ) (k : κ) (bs : List β) :
    lastWith key k (bs.filterMap f) =
      (lastWith (fun b => (f b).map key) (some k) bs).bind f := by
  induction bs using List.reverseRecOn with
  | nil => rfl
  | append_singleton bs b ih =>
    rw [List.filterMap_append, lastWith_concat]
    cases hb : f b with
    | none => simp [hb, ih]
    | some a =>
      simp only [List.filterMap_cons, hb, List.filterMap_nil, lastWith_concat, ih, Option.map_some,
        Option.some.injEq]
      split
      · rw [Option.bind_some, hb]
      · rfl

theorem isSome_lastWith {key : α → κ} {k : κ} {as : List α} :
    (lastWith key k as).isSome ↔ ∃ a ∈ as, key a = k := by
  induction as using List.reverseRecOn with
  | nil => simp [lastWith]
  | append_singleton as b ih =>
    rw [lastWith_concat]
    by_cases h : key b = k
    · simp [h]
    · simp [h, ih]

namespace OrderedMap

theorem isSome_find? (k : κ) (es : List (κ × ν)) :
    (find? k es).isSome = true ↔ k ∈ es.map Prod.fst := by
  induction es with
  | nil => simp [find?]
  | cons e es ih =>
    by_cases h : e.1 = k
    · simp [find?, h]
    · have h' : ¬ k = e.1 := fun hk => h hk.symm
      rw [find?, if_neg h, ih, List.map_cons, List.mem_cons]
      exact ⟨.inr, fun hk => hk.resolve_left h'⟩

theorem contains_iff (m : OrderedMap κ ν) (k : κ) : m.contains k = true ↔ k ∈ m.keys :=
  isSome_find? k m.entries

theorem ofList_concat (es : List (κ × ν)) (e : κ × ν) :
    ofList (es ++ [e]) = (ofList es).insert e.1 e.2 := by
  simp [ofList, insertAll]

/-- **The keys of a filled map** are in order of first occurrence. -/
theorem keys_ofList [BEq κ] [LawfulBEq κ] (key : α → κ) (value : α → ν) (as : List α) :
    (ofList (as.map fun a => (key a, value a))).keys = (as.map key).eraseDups := by
  induction as using List.reverseRecOn with
  | nil => rfl
  | append_singleton as b ih =>
    rw [List.map_append, List.map_singleton, ofList_concat, keys_insert, ih, List.map_append,
      List.map_singleton, eraseDups_concat]
    simp only [List.mem_eraseDups]

/-- **The values of a filled map** are those of the last elements. -/
theorem get?_ofList (key : α → κ) (value : α → ν) (as : List α) (k : κ) :
    (ofList (as.map fun a => (key a, value a))).get? k = (lastWith key k as).map value := by
  induction as using List.reverseRecOn with
  | nil => rfl
  | append_singleton as b ih =>
    rw [List.map_append, List.map_singleton, ofList_concat, get?_insert, ih, lastWith_concat]
    by_cases h : key b = k
    · simp [h]
    · simp [h]

/-! ## Filling a map with entries of a map -/

theorem put_of_notMem {k : κ} (v : ν) {es : List (κ × ν)} (h : k ∉ es.map Prod.fst) :
    put k v es = es ++ [(k, v)] := by
  induction es with
  | nil => rfl
  | cons e es ih =>
    rw [List.map_cons, List.mem_cons, not_or] at h
    rw [put, if_neg (Ne.symm h.1), ih h.2, List.cons_append]

theorem put_put (k : κ) (v w : ν) (es : List (κ × ν)) : put k w (put k v es) = put k w es := by
  induction es with
  | nil => simp [put]
  | cons e es ih =>
    by_cases h : e.1 = k
    · simp [put, h]
    · simp [put, h, ih]

/-- A value is replaced by the next one inserted at its key. -/
theorem insert_insert (m : OrderedMap κ ν) (k : κ) (v w : ν) :
    (m.insert k v).insert k w = m.insert k w := by
  simp only [insert, put_put]

theorem mem_put {k : κ} {v : ν} {es : List (κ × ν)} {e : κ × ν} (h : e ∈ put k v es) :
    e = (k, v) ∨ e ∈ es := by
  induction es with
  | nil => exact .inl (List.mem_singleton.mp h)
  | cons d es ih =>
    rw [put] at h
    split at h
    · rcases List.mem_cons.mp h with h | h
      · exact .inl h
      · exact .inr (List.mem_cons_of_mem d h)
    · rcases List.mem_cons.mp h with rfl | h
      · exact .inr List.mem_cons_self
      · exact (ih h).imp_right (List.mem_cons_of_mem d)

theorem entries_ofList_of_nodup {es : List (κ × ν)} (h : (es.map Prod.fst).Nodup) :
    (ofList es).entries = es := by
  induction es using List.reverseRecOn with
  | nil => rfl
  | append_singleton es e ih =>
    rw [List.map_append, List.nodup_append] at h
    obtain ⟨hnodup, -, hdisjoint⟩ := h
    have hnew : e.1 ∉ es.map Prod.fst := fun hmem => hdisjoint e.1 hmem e.1 (by simp) rfl
    rw [ofList_concat]
    change put e.1 e.2 (ofList es).entries = es ++ [e]
    rw [ih hnodup, put_of_notMem e.2 hnew]

/-- **A map is filled with its own entries.** -/
theorem ofList_entries (m : OrderedMap κ ν) : ofList m.entries = m := by
  obtain ⟨es, hes⟩ := m
  have h := entries_ofList_of_nodup hes
  cases hm : ofList es with
  | mk es' hes' =>
    rw [hm] at h
    cases h
    rfl

omit [DecidableEq κ] in
theorem isEmpty_iff {m : OrderedMap κ ν} : m.isEmpty = true ↔ m = ∅ := by
  obtain ⟨es, hes⟩ := m
  cases es with
  | nil => exact ⟨fun _ => rfl, fun _ => rfl⟩
  | cons e es => exact ⟨nofun, nofun⟩

theorem mem_values_insert {m : OrderedMap κ ν} {k : κ} {v w : ν} (h : w ∈ (m.insert k v).values) :
    w = v ∨ w ∈ m.values := by
  obtain ⟨e, he, rfl⟩ := List.mem_map.mp h
  rcases mem_put he with rfl | he
  · exact .inl rfl
  · exact .inr (List.mem_map_of_mem he)

theorem mem_values_ofList {es : List (κ × ν)} {v : ν} (h : v ∈ (ofList es).values) :
    v ∈ es.map Prod.snd := by
  induction es using List.reverseRecOn with
  | nil => exact absurd h List.not_mem_nil
  | append_singleton es e ih =>
    rw [ofList_concat] at h
    rw [List.map_append, List.mem_append]
    rcases mem_values_insert h with rfl | h
    · exact .inr (by simp)
    · exact .inl (ih h)

theorem find?_of_mem {es : List (κ × ν)} (hnodup : (es.map Prod.fst).Nodup) {e : κ × ν}
    (h : e ∈ es) : find? e.1 es = some e.2 := by
  induction es with
  | nil => exact absurd h List.not_mem_nil
  | cons d es ih =>
    obtain ⟨hd, hes⟩ := List.nodup_cons.mp hnodup
    rcases List.mem_cons.mp h with rfl | h
    · rw [find?, if_pos rfl]
    · have hne : d.1 ≠ e.1 := fun heq => hd (heq ▸ List.mem_map_of_mem h)
      rw [find?, if_neg hne, ih hes h]

theorem mem_of_find? {k : κ} {v : ν} {es : List (κ × ν)} (h : find? k es = some v) :
    (k, v) ∈ es := by
  induction es with
  | nil => cases h
  | cons e es ih =>
    by_cases he : e.1 = k
    · rw [find?, if_pos he] at h
      obtain rfl := Option.some.inj h
      exact he ▸ List.mem_cons_self
    · rw [find?, if_neg he] at h
      exact List.mem_cons_of_mem _ (ih h)

theorem get?_of_notMem {m : OrderedMap κ ν} {k : κ} (h : k ∉ m.keys) : m.get? k = none := by
  cases hget : m.get? k with
  | none => rfl
  | some v => exact absurd ((contains_iff m k).mp (by rw [contains, hget]; rfl)) h

theorem exists_get?_of_mem_values {m : OrderedMap κ ν} {v : ν} (h : v ∈ m.values) :
    ∃ k, m.get? k = some v := by
  obtain ⟨e, he, rfl⟩ := List.mem_map.mp h
  exact ⟨e.1, find?_of_mem m.nodup he⟩

end OrderedMap

end ApiAnnotations
