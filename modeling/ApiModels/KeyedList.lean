/-!
# Lists with one value per key

A `KeyedList α key` holds values in the order in which their keys first came up, no two with the
same key. `insert` keeps the value that came first; `set` keeps its place and takes the new value.
`OrderedMap` is the case of pairs, keyed by their first component.
-/

namespace ApiModels

/-- Values in the order in which their keys first came up, no two with the same key. -/
structure KeyedList (α : Type) (key : α → String) where
  /-- The values in order. -/
  toList : List α
  nodup : (toList.map key).Nodup

namespace KeyedList

variable {α : Type} {key : α → String}

@[ext] theorem ext {r s : KeyedList α key} (h : r.toList = s.toList) : r = s := by
  cases r; cases s; cases h; rfl

instance [DecidableEq α] : DecidableEq (KeyedList α key) := fun r s =>
  decidable_of_iff (r.toList = s.toList) ⟨ext, fun h => h ▸ rfl⟩

instance [Repr α] : Repr (KeyedList α key) := ⟨fun r n => reprPrec r.toList n⟩

/-- The list without values. -/
def empty : KeyedList α key := ⟨[], .nil⟩

instance : Inhabited (KeyedList α key) := ⟨empty⟩

/-- The keys in order. -/
def keys (r : KeyedList α key) : List String := r.toList.map key

/-- The number of values. -/
def size (r : KeyedList α key) : Nat := r.toList.length

/-- Whether there are no values. -/
def isEmpty (r : KeyedList α key) : Bool := r.toList.isEmpty

/-- Whether some value has the key `k`. -/
def contains (r : KeyedList α key) (k : String) : Bool := r.toList.any (key · == k)

/-- The value with the key `k`. -/
def find? (r : KeyedList α key) (k : String) : Option α := r.toList.find? (key · == k)

theorem contains_iff {r : KeyedList α key} {k : String} : r.contains k = true ↔ k ∈ r.keys := by
  simp [contains, keys]

theorem not_mem_of_not_contains {r : KeyedList α key} {k : String} (h : ¬r.contains k = true) :
    k ∉ r.toList.map key := fun hk => h (contains_iff.2 hk)

private theorem nodup_snoc {as : List α} {a : α} (h : (as.map key).Nodup)
    (ha : key a ∉ as.map key) : ((as ++ [a]).map key).Nodup := by
  simp only [List.map_append, List.map_cons, List.map_nil, List.nodup_append]
  refine ⟨h, by simp, fun k hk l hl => ?_⟩
  cases List.mem_singleton.1 hl
  exact fun e => ha (e ▸ hk)

/-- Adds `a` at the end unless its key is taken. -/
def insert (r : KeyedList α key) (a : α) : KeyedList α key :=
  if h : r.contains (key a) = true then r
  else ⟨r.toList ++ [a], nodup_snoc r.nodup (not_mem_of_not_contains h)⟩

/-- Adds `a` at the end unless its key is taken, and answers whether it was added. -/
def offer (r : KeyedList α key) (a : α) : Bool × KeyedList α key :=
  (!r.contains (key a), r.insert a)

/-- Adds the values of `as` one after another. -/
def insertAll (r : KeyedList α key) (as : List α) : KeyedList α key := as.foldl insert r

/-- The first value of each key. -/
def ofList (as : List α) : KeyedList α key := empty.insertAll as

/-- Adds the values of `s` whose keys are free. -/
def extend (r s : KeyedList α key) : KeyedList α key := r.insertAll s.toList

private theorem map_key_replace (as : List α) (a : α) :
    (as.map fun b => if key b == key a then a else b).map key = as.map key := by
  induction as with
  | nil => rfl
  | cons b bs ih =>
    simp only [List.map_cons, ih]
    by_cases h : key b = key a <;> simp [h]

/-- Adds `a` at the end, or puts it in the place of the value with its key. -/
def set (r : KeyedList α key) (a : α) : KeyedList α key :=
  if h : r.contains (key a) = true then
    ⟨r.toList.map fun b => if key b == key a then a else b, by
      rw [map_key_replace]; exact r.nodup⟩
  else ⟨r.toList ++ [a], nodup_snoc r.nodup (not_mem_of_not_contains h)⟩

/-- The last value of each key, in the order in which the keys first come up. -/
def ofListLast (as : List α) : KeyedList α key := as.foldl set empty

/-- The same keys, each with values that `same` relates, in any order. -/
def equalUpToOrder (same : α → α → Bool) (r s : KeyedList α key) : Bool :=
  r.size == s.size && r.toList.all fun a => (s.find? (key a)).any (same a)

@[simp] theorem toList_empty : (empty : KeyedList α key).toList = [] := rfl

theorem toList_insert (r : KeyedList α key) (a : α) :
    (r.insert a).toList = if r.contains (key a) then r.toList else r.toList ++ [a] := by
  unfold insert; split <;> simp_all

@[simp] theorem insertAll_nil (r : KeyedList α key) : r.insertAll [] = r := rfl

@[simp] theorem insertAll_cons (r : KeyedList α key) (a : α) (as : List α) :
    r.insertAll (a :: as) = (r.insert a).insertAll as := rfl

theorem insertAll_append (r : KeyedList α key) (as bs : List α) :
    r.insertAll (as ++ bs) = (r.insertAll as).insertAll bs := by
  simp [insertAll, List.foldl_append]

end KeyedList

/-- Values by key, in the order in which the keys first came up. -/
abbrev OrderedMap (α : Type) := KeyedList (String × α) Prod.fst

namespace OrderedMap

variable {α : Type}

/-- The value of `k`. -/
def get? (m : OrderedMap α) (k : String) : Option α := (KeyedList.find? m k).map Prod.snd

/-- Applies `f` to each value. -/
def mapValues {β : Type} (f : α → β) (m : OrderedMap α) : OrderedMap β where
  toList := m.toList.map fun p => (p.1, f p.2)
  nodup := by
    have h := m.nodup
    simp only [List.map_map]
    exact h

end OrderedMap

end ApiModels
