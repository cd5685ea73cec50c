/-! # Maps that keep the order of insertion

A map is the list of its entries in the order in which their keys were first inserted. Inserting a
key that is present replaces its value and keeps its place.

* `keys_insert` : the keys after an insertion.
* `get?_insert` : the values after an insertion.
* `ofList` inserts pairs from left to right: a key has its first place and its last value. -/

namespace ApiAnnotations

/-- The entries of a map, each key once. -/
structure OrderedMap (κ ν : Type) where
  entries : List (κ × ν)
  nodup : (entries.map Prod.fst).Nodup
deriving DecidableEq

namespace OrderedMap

variable {κ ν : Type}

section

variable [DecidableEq κ]

/-- The entries after `k` was given the value `v`. -/
def put (k : κ) (v : ν) : List (κ × ν) → List (κ × ν)
  | [] => [(k, v)]
  | e :: es => if e.1 = k then (k, v) :: es else e :: put k v es

/-- The value of `k` among the entries. -/
def find? (k : κ) : List (κ × ν) → Option ν
  | [] => none
  | e :: es => if e.1 = k then some e.2 else find? k es

theorem map_fst_put (k : κ) (v : ν) (es : List (κ × ν)) :
    (put k v es).map Prod.fst =
      if k ∈ es.map Prod.fst then es.map Prod.fst else es.map Prod.fst ++ [k] := by
  induction es with
  | nil => simp [put]
  | cons e es ih =>
    by_cases h : e.1 = k
    · simp [put, h]
    · have h' : ¬ k = e.1 := fun hk => h hk.symm
      simp only [put, h, if_false, List.map_cons, ih, List.mem_cons, h', false_or]
      split <;> simp

theorem nodup_put (k : κ) (v : ν) (es : List (κ × ν)) (h : (es.map Prod.fst).Nodup) :
    ((put k v es).map Prod.fst).Nodup := by
  rw [map_fst_put]
  split
  · exact h
  · next hk =>
    refine List.nodup_append.2 ⟨h, by simp, ?_⟩
    intro a ha b hb hab
    simp_all

theorem find?_put (k : κ) (v : ν) (es : List (κ × ν)) (j : κ) :
    find? j (put k v es) = if k = j then some v else find? j es := by
  induction es with
  | nil => simp [put, find?]
  | cons e es ih =>
    by_cases h : e.1 = k
    · subst h
      simp only [put, if_true, find?]
      split <;> rfl
    · simp only [put, h, if_false, find?, ih]
      by_cases hj : k = j
      · subst hj; simp [h]
      · simp [hj]

end

/-! ## Operations -/

/-- The map without entries. -/
def empty : OrderedMap κ ν := ⟨[], by simp⟩

instance : EmptyCollection (OrderedMap κ ν) := ⟨empty⟩

instance : Inhabited (OrderedMap κ ν) := ⟨empty⟩

/-- The keys, in order of their first insertion. -/
def keys (m : OrderedMap κ ν) : List κ := m.entries.map Prod.fst

/-- The values, in the order of their keys. -/
def values (m : OrderedMap κ ν) : List ν := m.entries.map Prod.snd

def size (m : OrderedMap κ ν) : Nat := m.entries.length

def isEmpty (m : OrderedMap κ ν) : Bool := m.entries.isEmpty

variable [DecidableEq κ]

/-- Gives `k` the value `v`. -/
def insert (m : OrderedMap κ ν) (k : κ) (v : ν) : OrderedMap κ ν :=
  ⟨put k v m.entries, nodup_put k v m.entries m.nodup⟩

/-- The value of `k`. -/
def get? (m : OrderedMap κ ν) (k : κ) : Option ν := find? k m.entries

/-- Whether `k` has a value. -/
def contains (m : OrderedMap κ ν) (k : κ) : Bool := (m.get? k).isSome

def insertAll (m : OrderedMap κ ν) (pairs : List (κ × ν)) : OrderedMap κ ν :=
  pairs.foldl (fun m e => m.insert e.1 e.2) m

/-- The map of the pairs: first places, last values. -/
def ofList (pairs : List (κ × ν)) : OrderedMap κ ν := insertAll ∅ pairs

@[simp] theorem get?_empty (k : κ) : (∅ : OrderedMap κ ν).get? k = none := rfl

theorem keys_insert (m : OrderedMap κ ν) (k : κ) (v : ν) :
    (m.insert k v).keys = if k ∈ m.keys then m.keys else m.keys ++ [k] :=
  map_fst_put k v m.entries

theorem get?_insert (m : OrderedMap κ ν) (k : κ) (v : ν) (j : κ) :
    (m.insert k v).get? j = if k = j then some v else m.get? j :=
  find?_put k v m.entries j

end OrderedMap

end ApiAnnotations
