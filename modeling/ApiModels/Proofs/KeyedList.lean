import ApiModels.KeyedList

/-!
# Laws of lists with one value per key

What `insert` and `insertAll` do to the values and to the keys, and which values of a list
`ofList` keeps: of each key the first. Joining two lists is associative, and commutes up to the order
of the values exactly for lists that agree on the keys that they share (`extend_comm_iff`).
-/

namespace ApiModels.KeyedList

variable {α : Type} {key : α → String} {r s : KeyedList α key} {a : α} {as : List α} {k : String}

@[simp] theorem keys_empty : (empty : KeyedList α key).keys = [] := rfl

theorem find?_eq_some_iff : r.find? k = some a ↔ a ∈ r.toList ∧ key a = k := by
  obtain ⟨as, nodup⟩ := r
  simp only [find?]
  induction as with
  | nil => simp
  | cons b bs ih =>
    obtain ⟨hb, hbs⟩ := List.nodup_cons.1 nodup
    by_cases h : key b = k
    · simp only [List.find?_cons, h, beq_self_eq_true, Option.some.injEq, List.mem_cons]
      constructor
      · rintro rfl
        exact ⟨.inl rfl, h⟩
      · rintro ⟨rfl | ha, hk⟩
        · rfl
        · exact (hb (h.trans hk.symm ▸ List.mem_map_of_mem ha)).elim
    · simp only [List.find?_cons, beq_eq_false_iff_ne.2 h, ih hbs, List.mem_cons]
      constructor
      · exact fun ⟨ha, hk⟩ => ⟨.inr ha, hk⟩
      · rintro ⟨rfl | ha, hk⟩
        · exact (h hk).elim
        · exact ⟨ha, hk⟩

/-! ## One value -/

theorem insert_of_mem (h : key a ∈ r.keys) : r.insert a = r :=
  dif_pos (contains_iff.2 h)

theorem toList_insert_of_not_mem (h : key a ∉ r.keys) : (r.insert a).toList = r.toList ++ [a] := by
  rw [toList_insert, if_neg (mt contains_iff.1 h)]

theorem toList_set_of_mem (h : key a ∈ r.keys) :
    (r.set a).toList = r.toList.map fun b => if key b == key a then a else b := by
  rw [set, dif_pos (contains_iff.2 h)]

theorem mem_keys_insert : k ∈ (r.insert a).keys ↔ k ∈ r.keys ∨ k = key a := by
  by_cases h : key a ∈ r.keys
  · rw [insert_of_mem h]
    exact ⟨.inl, fun hk => hk.elim id (· ▸ h)⟩
  · simp [keys, toList_insert_of_not_mem h]

/-! ## Several values -/

theorem mem_keys_insertAll : k ∈ (r.insertAll as).keys ↔ k ∈ r.keys ∨ k ∈ as.map key := by
  induction as generalizing r with
  | nil => simp
  | cons a as ih => rw [insertAll_cons, ih, mem_keys_insert, List.map_cons, List.mem_cons, or_assoc]

/-- Values whose keys are taken make no difference. -/
theorem insertAll_filter_not_mem (h : ∀ k ∈ s.keys, k ∈ r.keys) :
    r.insertAll (as.filter (key · ∉ s.keys)) = r.insertAll as := by
  induction as generalizing r with
  | nil => rfl
  | cons a as ih =>
    by_cases ha : key a ∈ s.keys
    · rw [List.filter_cons_of_neg (by simpa using ha), insertAll_cons, insert_of_mem (h _ ha), ih h]
    · rw [List.filter_cons_of_pos (by simpa using ha), insertAll_cons, insertAll_cons]
      exact ih fun k hk => mem_keys_insert.2 (.inl (h k hk))

theorem mem_insertAll : a ∈ (r.insertAll as).toList ↔
    a ∈ r.toList ∨ key a ∉ r.keys ∧ as.find? (key · == key a) = some a := by
  induction as generalizing r with
  | nil => simp
  | cons b bs ih =>
    rw [insertAll_cons, ih]
    by_cases hb : key b ∈ r.keys
    · rw [insert_of_mem hb]
      by_cases h : key b = key a
      · simp [h ▸ hb]
      · simp [beq_eq_false_iff_ne.2 h]
    · rw [mem_keys_insert, toList_insert_of_not_mem hb]
      by_cases h : key b = key a
      · simp [h, h ▸ hb, eq_comm]
      · have ha : a ≠ b := fun e => h (e ▸ rfl)
        simp [beq_eq_false_iff_ne.2 h, Ne.symm h, ha]

/-- A list is left with the first value of each key. -/
theorem mem_ofList : a ∈ (ofList as : KeyedList α key).toList ↔
    as.find? (key · == key a) = some a := by
  simp [ofList, mem_insertAll]

/-- Keys come in the order in which they first came up. -/
theorem keys_insertAll :
    (r.insertAll as).keys = r.keys ++ ((as.map key).filter (· ∉ r.keys)).eraseDups := by
  induction as generalizing r with
  | nil => simp
  | cons a as ih =>
    rw [insertAll_cons, ih, List.map_cons]
    by_cases ha : key a ∈ r.keys
    · rw [insert_of_mem ha, List.filter_cons_of_neg (by simpa using ha)]
    · have hkeys : (r.insert a).keys = r.keys ++ [key a] := by
        rw [keys, toList_insert_of_not_mem ha, List.map_append]
        rfl
      have hfilter : ((as.map key).filter (· ∉ r.keys ++ [key a])) =
          ((as.map key).filter (· ∉ r.keys)).filter (!· == key a) := by
        rw [List.filter_filter]
        refine List.filter_congr fun k _ => ?_
        by_cases hk : k = key a <;> simp [hk]
      rw [List.filter_cons_of_pos (by simpa using ha), List.eraseDups_cons, hkeys, hfilter,
        List.append_assoc]
      rfl

theorem keys_ofList : (ofList as : KeyedList α key).keys = (as.map key).eraseDups := by
  have hall : (as.map key).filter (· ∉ ([] : List String)) = as.map key :=
    List.filter_eq_self.2 fun k _ => by simp
  rw [ofList, keys_insertAll, keys_empty, hall, List.nil_append]

/-- Values that are changed without their keys are kept or not as they were before. -/
theorem toList_insertAll_map {β : Type} {key' : β → String} {f : α → β} {t : KeyedList β key'}
    (hf : ∀ a, key' (f a) = key a) (ht : t.toList = r.toList.map f) :
    (t.insertAll (as.map f)).toList = (r.insertAll as).toList.map f := by
  induction as generalizing r t with
  | nil => exact ht
  | cons a as ih =>
    rw [List.map_cons, insertAll_cons, insertAll_cons]
    apply ih
    have hkeys : t.keys = r.keys := by
      rw [keys, keys, ht, List.map_map]
      exact List.map_congr_left fun b _ => hf b
    have hcontains : t.contains (key' (f a)) = r.contains (key a) := by
      rw [Bool.eq_iff_iff, contains_iff, contains_iff, hkeys, hf]
    rw [toList_insert, toList_insert, hcontains]
    split
    · exact ht
    · rw [ht, List.map_append, List.map_singleton]

theorem toList_ofList_map {β : Type} {key' : β → String} {f : α → β}
    (hf : ∀ a, key' (f a) = key a) :
    (ofList (as.map f) : KeyedList β key').toList = (ofList as : KeyedList α key).toList.map f :=
  toList_insertAll_map hf rfl

/-! ## Looking up a key -/

theorem find?_eq_none_iff : r.find? k = none ↔ k ∉ r.keys := by
  simp [find?, keys]

/-- A key is looked up among added values only if it was free. -/
theorem find?_insertAll : (r.insertAll as).find? k = (r.find? k).or (as.find? (key · == k)) := by
  ext a
  rw [Option.or_eq_some_iff, find?_eq_some_iff, find?_eq_some_iff, find?_eq_none_iff, mem_insertAll]
  constructor
  · rintro ⟨ha | ⟨hr, has⟩, rfl⟩
    · exact .inl ⟨ha, rfl⟩
    · exact .inr ⟨hr, has⟩
  · rintro (⟨ha, rfl⟩ | ⟨hr, has⟩)
    · exact ⟨.inl ha, rfl⟩
    · obtain rfl : key a = k := by simpa using List.find?_some has
      exact ⟨.inr ⟨hr, has⟩, rfl⟩

theorem find?_ofList : (ofList as : KeyedList α key).find? k = as.find? (key · == k) := by
  rw [ofList, find?_insertAll]
  rfl

/-! ## Joined lists -/

/-- A key is looked up in the second list only if the first does not have it. -/
theorem find?_extend (r s : KeyedList α key) (k : String) :
    (r.extend s).find? k = (r.find? k).or (s.find? k) :=
  find?_insertAll

/-- Lists are joined one after another by adding all their values. -/
theorem foldl_extend (r : KeyedList α key) (rs : List (KeyedList α key)) :
    rs.foldl extend r = r.insertAll (rs.flatMap (·.toList)) := by
  induction rs generalizing r with
  | nil => rfl
  | cons s rs ih => rw [List.foldl_cons, ih, List.flatMap_cons, insertAll_append, extend]

theorem mem_extend :
    a ∈ (r.extend s).toList ↔ a ∈ r.toList ∨ key a ∉ r.keys ∧ a ∈ s.toList := by
  have hs : s.toList.find? (key · == key a) = some a ↔ a ∈ s.toList :=
    find?_eq_some_iff.trans (and_iff_left rfl)
  rw [extend, mem_insertAll, hs]

/-- Values are added at the end. -/
theorem exists_toList_insertAll (r : KeyedList α key) (as : List α) :
    ∃ new, (r.insertAll as).toList = r.toList ++ new := by
  induction as generalizing r with
  | nil => exact ⟨[], by simp⟩
  | cons a as ih =>
    obtain ⟨new, hnew⟩ := ih (r.insert a)
    rw [insertAll_cons, hnew, toList_insert]
    split
    · exact ⟨new, rfl⟩
    · exact ⟨a :: new, by simp⟩

/-! ## Lists without repeated keys -/

theorem toList_set_of_not_mem (h : key a ∉ r.keys) : (r.set a).toList = r.toList ++ [a] := by
  rw [set, dif_neg (mt contains_iff.1 h)]

private theorem toList_foldl {add : KeyedList α key → α → KeyedList α key}
    (hadd : ∀ {r a}, key a ∉ r.keys → (add r a).toList = r.toList ++ [a])
    (h : ((r.toList ++ as).map key).Nodup) : (as.foldl add r).toList = r.toList ++ as := by
  induction as generalizing r with
  | nil => rw [List.foldl_nil, List.append_nil]
  | cons a as ih =>
    have ha : key a ∉ r.keys := by
      rw [List.map_append, List.nodup_append] at h
      exact fun hmem => h.2.2 _ hmem _ List.mem_cons_self rfl
    rw [List.foldl_cons, ih, hadd ha, List.append_assoc, List.singleton_append]
    rwa [hadd ha, List.append_assoc, List.singleton_append]

/-- Where no key comes up twice nothing is dropped. -/
theorem ofList_toList (r : KeyedList α key) : ofList r.toList = r :=
  ext (toList_foldl (r := empty) toList_insert_of_not_mem r.nodup)

/-- Where no key comes up twice nothing is replaced. -/
theorem ofListLast_toList (r : KeyedList α key) : ofListLast r.toList = r :=
  ext (toList_foldl (r := empty) toList_set_of_not_mem r.nodup)

/-! ## Laws of joining -/

/-- Of values that are added twice the second time makes no difference. -/
theorem insertAll_toList_insertAll (r s : KeyedList α key) (as : List α) :
    r.insertAll (s.insertAll as).toList = (r.insertAll s.toList).insertAll as := by
  induction as generalizing s with
  | nil => rfl
  | cons a as ih =>
    rw [insertAll_cons, ih, insertAll_cons]
    congr 1
    by_cases ha : key a ∈ s.keys
    · rw [insert_of_mem ha, insert_of_mem (mem_keys_insertAll.2 (.inr ha))]
    · rw [toList_insert_of_not_mem ha, insertAll_append, insertAll_cons, insertAll_nil]

theorem extend_assoc (r s t : KeyedList α key) : (r.extend s).extend t = r.extend (s.extend t) :=
  (insertAll_toList_insertAll r s t.toList).symm

theorem empty_extend (r : KeyedList α key) : empty.extend r = r := ofList_toList r

theorem extend_empty (r : KeyedList α key) : r.extend empty = r := rfl

/-- A list whose keys are all taken adds nothing. -/
theorem extend_of_subset (h : ∀ k ∈ s.keys, k ∈ r.keys) : r.extend s = r := by
  have hnone : s.toList.filter (key · ∉ s.keys) = [] :=
    List.filter_eq_nil_iff.2 fun a ha => by simpa [keys] using ⟨a, ha, rfl⟩
  rw [extend, ← insertAll_filter_not_mem h, hnone, insertAll_nil]

theorem mem_keys_extend : k ∈ (r.extend s).keys ↔ k ∈ r.keys ∨ k ∈ s.keys :=
  mem_keys_insertAll

theorem extend_extend_self (r s : KeyedList α key) : (r.extend s).extend r = r.extend s :=
  extend_of_subset fun _ hk => mem_keys_extend.2 (.inl hk)

/-! ## The same values in any order -/

theorem nodup_toList (r : KeyedList α key) : r.toList.Nodup :=
  List.Pairwise.of_map key (fun _ _ hne heq => hne (congrArg key heq)) r.nodup

theorem equalUpToOrder_iff {same : α → α → Bool} : r.equalUpToOrder same s = true ↔
    r.size = s.size ∧ ∀ a ∈ r.toList, ∃ b ∈ s.toList, key b = key a ∧ same a b = true := by
  rw [equalUpToOrder, Bool.and_eq_true, beq_iff_eq, List.all_eq_true]
  refine and_congr_right fun _ => forall₂_congr fun a _ => ?_
  rw [Option.any_eq_true]
  simp only [find?_eq_some_iff, and_assoc]

/-- Lists with the same values are equal up to their order. -/
theorem equalUpToOrder_of_mem_iff {same : α → α → Bool}
    (hsame : ∀ a, same a a = true) (h : ∀ a, a ∈ r.toList ↔ a ∈ s.toList) :
    r.equalUpToOrder same s = true := by
  have hperm : r.toList.Perm s.toList :=
    (List.perm_ext_iff_of_nodup r.nodup_toList s.nodup_toList).2 h
  exact equalUpToOrder_iff.2 ⟨hperm.length_eq, fun a ha => ⟨a, (h a).1 ha, rfl, hsame a⟩⟩

theorem size_extend_comm (r s : KeyedList α key) : (r.extend s).size = (s.extend r).size := by
  have hperm : (r.extend s).keys.Perm (s.extend r).keys := by
    refine (List.perm_ext_iff_of_nodup (r.extend s).nodup (s.extend r).nodup).2 fun k => ?_
    exact mem_keys_extend.trans (or_comm.trans mem_keys_extend.symm)
  simpa [keys, size] using hperm.length_eq

/-- The order in which two lists are joined makes no difference, but to the order of the values, if and
only if their values with the same key are the same. -/
theorem extend_comm_iff {same : α → α → Bool} (hsame : ∀ a, same a a = true) :
    (r.extend s).equalUpToOrder same (s.extend r) = true ↔
      ∀ a ∈ r.toList, ∀ b ∈ s.toList, key a = key b → same a b = true := by
  rw [equalUpToOrder_iff, and_iff_right (size_extend_comm r s)]
  constructor
  · intro h a ha b hb hkey
    obtain ⟨b', hb', hkey', hab'⟩ := h a (mem_extend.2 (.inl ha))
    have hb : b ∈ (s.extend r).toList := mem_extend.2 (.inl hb)
    have hfind := find?_eq_some_iff.2 ⟨hb', hkey'⟩
    rw [find?_eq_some_iff.2 ⟨hb, hkey.symm⟩] at hfind
    cases hfind
    exact hab'
  · intro h a ha
    rcases mem_extend.1 ha with ha | ⟨hnew, ha⟩
    · by_cases hk : key a ∈ s.keys
      · obtain ⟨b, hb, hkey⟩ := List.mem_map.1 hk
        exact ⟨b, mem_extend.2 (.inl hb), hkey, h a ha b hb hkey.symm⟩
      · exact ⟨a, mem_extend.2 (.inr ⟨hk, ha⟩), rfl, hsame a⟩
    · exact ⟨a, mem_extend.2 (.inl ha), rfl, hsame a⟩

end ApiModels.KeyedList

/-! ## Values by key -/

namespace ApiModels.OrderedMap

variable {α : Type} {m : OrderedMap α} {k : String} {v : α}

theorem get?_eq_some_iff : m.get? k = some v ↔ (k, v) ∈ m.toList := by
  rw [get?, Option.map_eq_some_iff]
  constructor
  · rintro ⟨p, hp, rfl⟩
    obtain ⟨hmem, rfl⟩ := KeyedList.find?_eq_some_iff.1 hp
    exact hmem
  · intro h
    exact ⟨(k, v), KeyedList.find?_eq_some_iff.2 ⟨h, rfl⟩, rfl⟩

theorem get?_eq_none_iff : m.get? k = none ↔ k ∉ KeyedList.keys m := by
  rw [get?, Option.map_eq_none_iff, KeyedList.find?_eq_none_iff]

/-- A value that is changed keeps its place, and the others stay as they are. -/
theorem toList_set_of_get? (f : α → α) (h : m.get? k = some v) :
    (KeyedList.set m (k, f v)).toList = m.toList.map fun p => if p.1 = k then (k, f p.2) else p := by
  have hmem : k ∈ KeyedList.keys m := List.mem_map_of_mem (get?_eq_some_iff.1 h)
  rw [KeyedList.toList_set_of_mem (a := (k, f v)) hmem]
  refine List.map_congr_left fun p hp => ?_
  by_cases hk : p.1 = k
  · subst hk
    obtain rfl : p.2 = v := Option.some.inj ((get?_eq_some_iff.2 hp).symm.trans h)
    rw [if_pos (beq_self_eq_true _), if_pos rfl]
  · rw [if_neg (by simpa using hk), if_neg hk]

end ApiModels.OrderedMap
