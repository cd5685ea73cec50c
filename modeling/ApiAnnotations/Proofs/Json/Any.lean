import ApiAnnotations.Proofs.Json.Reader
import Mathlib.Data.List.Induction

/-! # Reading back values of any kind

* `SortedByKey`, `sortMembers_of_sorted` : sorted members are left as they are.
* `Readable` : the members of all objects are sorted, the numbers are denoted by their numerals, and
  there are not too many containers in each other.
* `readsBack_any_iff` : exactly these values are read back.
* `any_yields` : a value that was read, and whose numbers are integers, is read back. -/

namespace ApiAnnotations.Json

open Draft (ofTree)

variable {depth : Nat}

/-! ## Sorted members -/

section

variable {β : Type}

theorem mem_insertSorted {k : Text} {b : β} {ms : List (Text × β)} {m : Text × β}
    (h : m ∈ insertSorted k b ms) : m = (k, b) ∨ m ∈ ms := by
  induction ms with
  | nil => exact .inl (List.mem_singleton.mp h)
  | cons n ms ih =>
    rw [insertSorted] at h
    split at h
    · exact (List.mem_cons.mp h).imp_right (List.mem_cons_of_mem n)
    · split at h
      · exact List.mem_cons.mp h
      · rcases List.mem_cons.mp h with rfl | h
        · exact .inr List.mem_cons_self
        · exact (ih h).imp_right (List.mem_cons_of_mem n)

/-- Members in the order of their keys, each key once. -/
def SortedByKey (ms : List (Text × β)) : Prop := ms.Pairwise fun m n => m.1 < n.1

theorem SortedByKey.insertSorted {k : Text} {b : β} {ms : List (Text × β)} (h : SortedByKey ms) :
    SortedByKey (insertSorted k b ms) := by
  induction ms with
  | nil => exact List.pairwise_singleton ..
  | cons m ms ih =>
    obtain ⟨hm, hms⟩ := List.pairwise_cons.mp h
    rw [Json.insertSorted]
    split
    · next hk =>
      exact List.pairwise_cons.mpr ⟨fun n hn => hk ▸ hm n hn, hms⟩
    · next hk =>
      split
      · next hlt =>
        refine List.pairwise_cons.mpr ⟨?_, h⟩
        intro n hn
        rcases List.mem_cons.mp hn with rfl | hn
        · exact hlt
        · exact List.lt_trans hlt (hm n hn)
      · next hlt =>
        refine List.pairwise_cons.mpr ⟨?_, ih hms⟩
        intro n hn
        rcases mem_insertSorted hn with rfl | hn
        · exact (List.le_iff_lt_or_eq.mp (List.not_lt.mp hlt)).resolve_right fun h => hk h.symm
        · exact hm n hn

theorem insertSorted_of_lt {k : Text} {b : β} {ms : List (Text × β)} (h : ∀ m ∈ ms, m.1 < k) :
    insertSorted k b ms = ms ++ [(k, b)] := by
  induction ms with
  | nil => rfl
  | cons m ms ih =>
    have hm := h m List.mem_cons_self
    have hne : k ≠ m.1 := by
      rintro rfl
      exact List.lt_irrefl _ hm
    rw [insertSorted, if_neg hne, if_neg (List.lt_asymm hm),
      ih fun n hn => h n (List.mem_cons_of_mem m hn), List.cons_append]

theorem mem_sortMembers {ms : List (Text × β)} {m : Text × β} (h : m ∈ sortMembers ms) :
    m ∈ ms := by
  induction ms using List.reverseRecOn with
  | nil => exact h
  | append_singleton ms n ih =>
    rw [sortMembers, List.foldl_append] at h
    rcases mem_insertSorted h with rfl | h
    · exact List.mem_append_right ms (List.mem_singleton.mpr rfl)
    · exact List.mem_append_left [n] (ih h)

theorem sortedByKey_sortMembers (ms : List (Text × β)) : SortedByKey (sortMembers ms) := by
  induction ms using List.reverseRecOn with
  | nil => exact .nil
  | append_singleton ms n ih =>
    rw [sortMembers, List.foldl_append]
    exact ih.insertSorted

theorem SortedByKey.congr {ms ns : List (Text × β)} (hkeys : ns.map Prod.fst = ms.map Prod.fst)
    (h : SortedByKey ms) : SortedByKey ns := by
  have hsorted : (ms.map Prod.fst).Pairwise (· < ·) := List.pairwise_map.mpr h
  exact List.pairwise_map.mp (hkeys ▸ hsorted)

theorem sortMembers_of_sorted {ms : List (Text × β)} (h : SortedByKey ms) :
    sortMembers ms = ms := by
  induction ms using List.reverseRecOn with
  | nil => rfl
  | append_singleton ms n ih =>
    obtain ⟨hms, -, hlt⟩ := List.pairwise_append.mp h
    rw [sortMembers, List.foldl_append]
    change insertSorted n.1 n.2 (sortMembers ms) = ms ++ [n]
    rw [ih hms, insertSorted_of_lt fun m hm => hlt m hm n (List.mem_singleton.mpr rfl)]

end

/-! ## Values of any kind -/

/-- A value that can be read with so many containers in each other: the members of its objects are
sorted by key, and each of its numbers is denoted by the numeral that is written for it. -/
inductive Readable : (depth : Nat) → Json → Prop
  | null {depth : Nat} : Readable depth .null
  | bool {depth : Nat} (b : Bool) : Readable depth (.bool b)
  | number {depth : Nat} {x : Number} (h : (Numeral.ofNumber x).value? = some x) :
    Readable depth (.number x)
  | string {depth : Nat} (s : Text) : Readable depth (.string s)
  | array {depth : Nat} {vs : List Json} (h : ∀ v ∈ vs, Readable depth v) :
    Readable (depth + 1) (.array vs)
  | object {depth : Nat} {ms : List (Text × Json)} (hsorted : SortedByKey ms)
    (h : ∀ m ∈ ms, Readable depth m.2) : Readable (depth + 1) (.object ms)

theorem readAny_ofTree {v : Json} (h : Readable depth v) : readAny depth (ofTree v) = .ok v := by
  induction h with
  | null => rw [ofTree, readAny]
  | bool b => rw [ofTree, readAny]
  | number h => rw [Draft.ofTree_number, readAny, h]
  | string s =>
    rw [ofTree, readAny, Quoted.text_ofText]
    rfl
  | array _ ih =>
    rw [ofTree, readAny, Draft.ofItems_eq_map, (Reader.items_map_iff ofTree).mpr ih]
    rfl
  | object hsorted _ ih =>
    rw [ofTree, readAny, Draft.ofMembers_eq_map, (Reader.members_map_iff ofTree).mpr ih, ok_bind,
      sortMembers_of_sorted hsorted]
    rfl

theorem readable_of_readAny {v : Json} (h : readAny depth (ofTree v) = .ok v) :
    Readable depth v := by
  -- On the depth: the parts of a container are read with one container less to be opened.
  induction depth using Nat.strongRecOn generalizing v with
  | ind depth ih =>
    cases v with
    | null => exact .null
    | bool b => exact .bool b
    | number x =>
      rw [Draft.ofTree_number, readAny] at h
      split at h
      · next hvalue =>
        cases h
        exact .number hvalue
      · cases h
    | string s => exact .string s
    | array vs =>
      cases depth with
      | zero => cases h
      | succ depth =>
        rw [ofTree, readAny, Draft.ofItems_eq_map] at h
        obtain ⟨_, hitems, hclose⟩ := bind_eq_ok_iff.mp h
        obtain ⟨-, ⟨⟩⟩ := closing_eq_ok_iff.mp hclose
        have hparts := (Reader.items_map_iff ofTree).mp hitems
        exact .array fun v hv => ih depth (Nat.lt_succ_self depth) (hparts v hv)
    | object ms =>
      cases depth with
      | zero => cases h
      | succ depth =>
        rw [ofTree, readAny, Draft.ofMembers_eq_map] at h
        obtain ⟨pairs, hpairs, hclose⟩ := bind_eq_ok_iff.mp h
        obtain ⟨-, heq⟩ := closing_eq_ok_iff.mp hclose
        have hsorted : SortedByKey ms := Json.object.inj heq ▸ sortedByKey_sortMembers pairs
        have hpairsSorted := hsorted.congr (Reader.keys_members ofTree hpairs)
        obtain rfl : pairs = ms := by
          rw [← sortMembers_of_sorted hpairsSorted]
          exact Json.object.inj heq
        have hparts := (Reader.members_map_iff ofTree).mp hpairs
        exact .object hsorted fun m hm => ih depth (Nat.lt_succ_self depth) (hparts m hm)

/-- **Exactly the readable values are read back.** -/
theorem readsBack_any_iff {v : Json} : Codec.any.ReadsBack depth v ↔ Readable depth v :=
  ⟨readable_of_readAny, readAny_ofTree⟩

/-- A container that was read had its parts read one level deeper. -/
theorem readAny_cases {d : Draft} {v : Json} (h : readAny depth d = .ok v) :
    ((∀ vs, v ≠ .array vs) ∧ ∀ ms, v ≠ .object ms) ∨
      ∃ n, depth = n + 1 ∧
        ((∃ ds vs, Reader.items (readAny n) ds = .ok vs ∧ v = .array vs) ∨
          ∃ ds ms, Reader.members (readAny n) ds = .ok ms ∧ v = .object (sortMembers ms)) := by
  cases d with
  | null =>
    rw [readAny] at h
    cases h
    exact .inl ⟨nofun, nofun⟩
  | bool b =>
    rw [readAny] at h
    cases h
    exact .inl ⟨nofun, nofun⟩
  | numeral n =>
    rw [readAny] at h
    split at h
    · cases h
      exact .inl ⟨nofun, nofun⟩
    · cases h
  | badNumeral atEnd =>
    rw [readAny] at h
    · cases h
    all_goals nofun
  | string q =>
    rw [readAny] at h
    obtain ⟨s, -, rfl⟩ := map_eq_ok_iff.mp h
    exact .inl ⟨nofun, nofun⟩
  | array ds stop =>
    cases depth with
    | zero =>
      rw [readAny] at h
      cases h
    | succ n =>
      rw [readAny] at h
      obtain ⟨vs, hvs, h⟩ := bind_eq_ok_iff.mp h
      obtain ⟨-, rfl⟩ := closing_eq_ok_iff.mp h
      exact .inr ⟨n, rfl, .inl ⟨ds, vs, hvs, rfl⟩⟩
  | object ds stop =>
    cases depth with
    | zero =>
      rw [readAny] at h
      cases h
    | succ n =>
      rw [readAny] at h
      obtain ⟨ms, hms, h⟩ := bind_eq_ok_iff.mp h
      obtain ⟨-, rfl⟩ := closing_eq_ok_iff.mp h
      exact .inr ⟨n, rfl, .inr ⟨ds, ms, hms, rfl⟩⟩
  | broken f =>
    rw [readAny] at h
    · cases h
    all_goals nofun

/-- A value that was read is readable, if its numbers are integers. -/
theorem readable_of_integral {v : Json} (hv : v.Integral) {d : Draft}
    (h : readAny depth d = .ok v) : Readable depth v := by
  -- The draft that was read may repeat keys and have them in any order; the value does not.
  induction hv generalizing depth d with
  | null => exact .null
  | bool b => exact .bool b
  | number n hn => exact .number (Numeral.value?_ofInt hn)
  | string s => exact .string s
  | array vs _ ih =>
    rcases readAny_cases h with ⟨hv, -⟩ | ⟨n, rfl, ⟨ds, vs', hvs, heq⟩ | ⟨_, _, -, heq⟩⟩
    · exact absurd rfl (hv vs)
    · cases heq
      refine .array fun v hv => ?_
      obtain ⟨d, hd⟩ := Reader.mem_items hvs v hv
      exact ih v hv hd
    · cases heq
  | object ms _ ih =>
    rcases readAny_cases h with ⟨-, hv⟩ | ⟨n, rfl, ⟨_, _, -, heq⟩ | ⟨ds, ms', hms, heq⟩⟩
    · exact absurd rfl (hv ms)
    · cases heq
    · cases heq
      refine .object (sortedByKey_sortMembers ms') fun m hm => ?_
      obtain ⟨d, hd⟩ := Reader.mem_members hms m (mem_sortMembers hm)
      exact ih m hm hd

/-- **A value of any kind that was read is read back**, if its numbers are integers. -/
theorem any_yields (depth : Nat) :
    Reader.any.Yields depth fun v => v.Integral → Codec.any.ReadsBack depth v :=
  fun _ _ h hv => readsBack_any_iff.mpr (readable_of_integral hv h)

end ApiAnnotations.Json
