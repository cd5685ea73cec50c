import ApiAnnotations.Proofs.Json.Draft
import ApiAnnotations.Proofs.OrderedMap

/-! # Reading back what was written

* `Codec.ReadsBack` : a value is read from the draft of what is written for it.
* `Reader.Yields` : what a reader returns has a property.
* `readsBack_list`, `readsBack_map`, `readsBack_optional` : lists, maps and options are read back if
  their parts are; a map keeps the order of its keys, and `readsBack_map_iff` is the converse. -/


namespace ApiAnnotations.Json

section

variable {α β ε : Type}

theorem ok_bind (a : α) (f : α → Except ε β) : (Except.ok a >>= f) = f a := rfl

theorem bind_eq_ok_iff {x : Except ε α} {f : α → Except ε β} {b : β} :
    (x >>= f) = .ok b ↔ ∃ a, x = .ok a ∧ f a = .ok b := by
  cases x with
  | error e => simp [bind, Except.bind]
  | ok a => simp [bind, Except.bind]

theorem map_eq_ok_iff {x : Except ε α} {f : α → β} {b : β} :
    x.map f = .ok b ↔ ∃ a, x = .ok a ∧ f a = b := by
  cases x with
  | error e => simp [Except.map]
  | ok a => simp [Except.map]

end

open Draft (ofTree ofItems ofMembers)

variable {α : Type}

/-- A value is read from the draft of what is written for it. -/
def Codec.ReadsBack (c : Codec α) (depth : Nat) (a : α) : Prop :=
  c.read depth (ofTree (c.write a)) = .ok a

/-- What a reader returns has a property. -/
def Reader.Yields (r : Reader α) (depth : Nat) (P : α → Prop) : Prop :=
  ∀ d a, r depth d = .ok a → P a

/-! ## Containers -/

theorem closing_eq_ok_iff {stop : Option Fault} {a b : α} :
    closing stop a = .ok b ↔ stop = none ∧ a = b := by
  cases stop with
  | none => simp [closing]
  | some f => simp [closing]

namespace Reader

variable {inner : Draft → Except Fault α}

theorem items_map_iff (draft : α → Draft) {as : List α} :
    items inner (as.map draft) = .ok as ↔ ∀ a ∈ as, inner (draft a) = .ok a := by
  induction as with
  | nil => exact iff_of_true rfl nofun
  | cons a as ih =>
    rw [List.map_cons, items, List.forall_mem_cons, ← ih]
    constructor
    · intro h
      obtain ⟨b, hb, h⟩ := bind_eq_ok_iff.mp h
      obtain ⟨bs, hbs, h⟩ := bind_eq_ok_iff.mp h
      cases h
      exact ⟨hb, hbs⟩
    · rintro ⟨ha, has⟩
      rw [ha, ok_bind, has]
      rfl

theorem members_map_iff (draft : α → Draft) {ms : List (Text × α)} :
    members inner (ms.map fun m => (.ofText m.1, draft m.2)) = .ok ms ↔
      ∀ m ∈ ms, inner (draft m.2) = .ok m.2 := by
  induction ms with
  | nil => exact iff_of_true rfl nofun
  | cons m ms ih =>
    obtain ⟨k, v⟩ := m
    rw [List.map_cons, members, Quoted.text_ofText, ok_bind, List.forall_mem_cons, ← ih]
    constructor
    · intro h
      obtain ⟨a, ha, h⟩ := bind_eq_ok_iff.mp h
      obtain ⟨rest, hrest, h⟩ := bind_eq_ok_iff.mp h
      cases h
      exact ⟨ha, hrest⟩
    · rintro ⟨ha, hrest⟩
      rw [ha, ok_bind, hrest]
      rfl

/-- The members that are read have the keys that stand in the draft. -/
theorem keys_members (draft : α → Draft) {ms pairs : List (Text × α)}
    (h : members inner (ms.map fun m => (.ofText m.1, draft m.2)) = .ok pairs) :
    pairs.map Prod.fst = ms.map Prod.fst := by
  induction ms generalizing pairs with
  | nil =>
    cases h
    rfl
  | cons m ms ih =>
    rw [List.map_cons, members, Quoted.text_ofText, ok_bind] at h
    obtain ⟨a, -, h⟩ := bind_eq_ok_iff.mp h
    obtain ⟨rest, hrest, h⟩ := bind_eq_ok_iff.mp h
    cases h
    rw [List.map_cons, List.map_cons, ih hrest]

theorem mem_items {ds : List Draft} {as : List α}
    (h : items inner ds = .ok as) : ∀ a ∈ as, ∃ d, inner d = .ok a := by
  induction ds generalizing as with
  | nil =>
    cases h
    exact fun a ha => absurd ha List.not_mem_nil
  | cons d ds ih =>
    rw [items] at h
    obtain ⟨a, ha, h⟩ := bind_eq_ok_iff.mp h
    obtain ⟨as', has, h⟩ := bind_eq_ok_iff.mp h
    cases h
    intro b hb
    rcases List.mem_cons.mp hb with rfl | hb
    · exact ⟨d, ha⟩
    · exact ih has b hb

theorem mem_members {ds : List (Quoted × Draft)}
    {ms : List (Text × α)} (h : members inner ds = .ok ms) : ∀ m ∈ ms, ∃ d, inner d = .ok m.2 := by
  induction ds generalizing ms with
  | nil =>
    cases h
    exact fun m hm => absurd hm List.not_mem_nil
  | cons d ds ih =>
    rw [members] at h
    obtain ⟨k, hk, h⟩ := bind_eq_ok_iff.mp h
    obtain ⟨a, ha, h⟩ := bind_eq_ok_iff.mp h
    obtain ⟨ms', hms, h⟩ := bind_eq_ok_iff.mp h
    cases h
    intro m hm
    rcases List.mem_cons.mp hm with rfl | hm
    · exact ⟨d.2, ha⟩
    · exact ih hms m hm

end Reader

/-! ## Combinators -/

theorem readsBack_text (depth : Nat) (s : Text) : Codec.text.ReadsBack depth s :=
  Quoted.text_ofText s

theorem readsBack_bool (depth : Nat) (b : Bool) : Codec.bool.ReadsBack depth b := rfl

variable {c : Codec α} {depth : Nat}

theorem readsBack_optional {o : Option α} (hnull : ∀ a ∈ o, ofTree (c.write a) ≠ .null)
    (h : ∀ a ∈ o, c.ReadsBack depth a) : c.optional.ReadsBack depth o := by
  cases o with
  | none => rfl
  | some a =>
    have hread : ∀ d, d ≠ .null → Reader.optional c.read depth d = (c.read depth d).map some := by
      intro d hd
      cases d <;> first | rfl | exact absurd rfl hd
    exact (hread _ (hnull a rfl)).trans (by rw [h a rfl]; rfl)

theorem readsBack_list {as : List α} (h : ∀ a ∈ as, c.ReadsBack depth a) :
    c.list.ReadsBack (depth + 1) as := by
  have hitems := (Reader.items_map_iff fun a => ofTree (c.write a)).mpr h
  change Reader.list c.read (depth + 1) (ofTree (.array (as.map c.write))) = .ok as
  rw [ofTree, Draft.ofItems_eq_map, List.map_map, Reader.list]
  change (Reader.items (c.read depth) (as.map fun a => ofTree (c.write a)) >>= closing none) =
    .ok as
  rw [hitems]
  rfl

theorem readsBack_map_iff {m : OrderedMap Text α} :
    c.map.ReadsBack (depth + 1) m ↔ ∀ a ∈ m.values, c.ReadsBack depth a := by
  have hread : c.map.read (depth + 1) (ofTree (c.map.write m)) =
      (Reader.members (c.read depth)
        (m.entries.map fun e => (.ofText e.1, ofTree (c.write e.2))) >>=
          fun pairs => closing none (OrderedMap.ofList pairs)) := by
    change Reader.map c.read (depth + 1)
      (ofTree (.object (m.entries.map fun e => (e.1, c.write e.2)))) = _
    rw [ofTree, Draft.ofMembers_eq_map, List.map_map]
    rfl
  have hvalues : (∀ a ∈ m.values, c.ReadsBack depth a) ↔
      Reader.members (c.read depth)
        (m.entries.map fun e => (.ofText e.1, ofTree (c.write e.2))) = .ok m.entries := by
    rw [Reader.members_map_iff fun a => ofTree (c.write a)]
    exact List.forall_mem_map
  rw [Codec.ReadsBack, hread, hvalues]
  constructor
  · intro h
    obtain ⟨pairs, hpairs, hclose⟩ := bind_eq_ok_iff.mp h
    obtain ⟨-, rfl⟩ := closing_eq_ok_iff.mp hclose
    have hkeys := Reader.keys_members (fun a => ofTree (c.write a)) hpairs
    have hentries := OrderedMap.entries_ofList_of_nodup (hkeys ▸ (OrderedMap.ofList pairs).nodup)
    exact hpairs.trans (congrArg Except.ok hentries.symm)
  · intro h
    rw [h, ok_bind, OrderedMap.ofList_entries]
    rfl

theorem readsBack_map {m : OrderedMap Text α} (h : ∀ a ∈ m.values, c.ReadsBack depth a) :
    c.map.ReadsBack (depth + 1) m :=
  readsBack_map_iff.mpr h

/-! ## What readers return -/

namespace Reader.Yields

variable {r : Reader α} {P : α → Prop}

theorem mono {Q : α → Prop} (h : r.Yields depth P) (hPQ : ∀ a, P a → Q a) : r.Yields depth Q :=
  fun d a hread => hPQ a (h d a hread)

theorem optional (h : r.Yields depth P) :
    (Reader.optional r).Yields depth fun o => ∀ a ∈ o, P a := by
  intro d o hread a ha
  obtain rfl : o = some a := ha
  have hmap : (r depth d).map some = .ok (some a) := by
    cases d <;> first | exact hread | exact absurd hread (by simp [Reader.optional])
  obtain ⟨b, hb, hba⟩ := map_eq_ok_iff.mp hmap
  cases hba
  exact h d a hb

theorem list (h : r.Yields depth P) :
    (Reader.list r).Yields (depth + 1) fun as => ∀ a ∈ as, P a := by
  intro d as hread a ha
  cases d with
  | array ds stop =>
    obtain ⟨bs, hbs, hclose⟩ := bind_eq_ok_iff.mp hread
    obtain ⟨-, rfl⟩ := closing_eq_ok_iff.mp hclose
    obtain ⟨d, hd⟩ := Reader.mem_items hbs a ha
    exact h d a hd
  | _ => exact absurd hread (by simp [Reader.list])

theorem map (h : r.Yields depth P) :
    (Reader.map r).Yields (depth + 1) fun m => ∀ a ∈ m.values, P a := by
  intro d m hread a ha
  cases d with
  | object ms stop =>
    obtain ⟨pairs, hpairs, hclose⟩ := bind_eq_ok_iff.mp hread
    obtain ⟨-, rfl⟩ := closing_eq_ok_iff.mp hclose
    obtain ⟨e, he, rfl⟩ := List.mem_map.mp (OrderedMap.mem_values_ofList ha)
    obtain ⟨d, hd⟩ := Reader.mem_members hpairs e he
    exact h d e.2 hd
  | _ => exact absurd hread (by simp [Reader.map])

end Reader.Yields

end ApiAnnotations.Json
