import ApiModels.Proofs.Text.Trimming
import ApiModels.Proofs.TypeRef.Splitting

/-!
# Written types are read

`TypeRef.Written t text` is the grammar of written types: a name, a name with arguments in angle
brackets, or an element type with square brackets behind it, with white space wherever it may stand.
The marks of a type bring the bracket depth back, so that commas are cut where the arguments end,
and the first and the last bracket of a type are its own; so every text that the grammar allows for
`t` denotes `t` (`TypeRef.Written.ofChars_eq`), whatever the depth of its arguments.
-/

namespace ApiModels

open ApiModels.Text

namespace TypeRef

variable {name : String} {t : TypeRef} {cs rest text gap : List Char}
  {parts : List (TypeRef × List Char)}

/-- A name that can stand in a written type. -/
structure IsName (name : String) : Prop where
  nonempty : name.toList ≠ []
  noMark : ∀ c ∈ name.toList, c ≠ '<' ∧ c ≠ '>' ∧ c ≠ ','
  head : ∀ c ∈ name.toList.head?, isBlank c = false
  last : ∀ c ∈ name.toList.getLast?, isBlank c = false

theorem isName_iff : IsName name ↔ (!name.toList.isEmpty &&
    (name.toList.all fun c => c != '<' && c != '>' && c != ',') &&
    name.toList.head?.all (!isBlank ·) && name.toList.getLast?.all (!isBlank ·)) = true := by
  simp only [Bool.and_eq_true, Bool.not_eq_true', List.isEmpty_eq_false_iff, List.all_eq_true,
    Option.all_eq_true, bne_iff_ne]
  constructor
  · intro h
    exact ⟨⟨⟨h.nonempty, fun c hc => and_assoc.2 (h.noMark c hc)⟩, h.head⟩, h.last⟩
  · rintro ⟨⟨⟨nonempty, noMark⟩, head⟩, last⟩
    exact ⟨nonempty, fun c hc => and_assoc.1 (noMark c hc), head, last⟩

instance : Decidable (IsName name) := decidable_of_iff _ isName_iff.symm

/-- `Written t text` says that `text` is a way to write `t`. A name without arguments may not end as
an array does. White space may stand at both ends of every written type, so around every argument
and in front of square brackets, and behind a name that has arguments. -/
inductive Written : TypeRef → List Char → Prop
  | name {name : String} : IsName name → ¬['[', ']'] <:+ name.toList →
    Written ⟨name, []⟩ name.toList
  | generic {name : String} {gap : List Char} {parts : List (TypeRef × List Char)} : IsName name →
    AllBlank gap → parts ≠ [] → (∀ p ∈ parts, Written p.1 p.2) →
    Written ⟨name, parts.map Prod.fst⟩
      (name.toList ++ gap ++ '<' :: (List.intercalate [','] (parts.map Prod.snd) ++ ['>']))
  | array {t : TypeRef} {text : List Char} : Written t text →
    Written (array t) (text ++ ['[', ']'])
  | spaced {t : TypeRef} {before text after : List Char} : AllBlank before → AllBlank after →
    Written t text → Written t (before ++ text ++ after)

/-! ## Where a written type is cut -/

theorem IsName.uncut (h : IsName name) : Uncut 0 name.toList := Uncut.of_forall h.noMark

theorem ne_open_of_isBlank {c : Char} (h : isBlank c = true) : c ≠ '<' := by
  rintro rfl
  cases h

theorem uncut_of_allBlank (h : AllBlank gap) : Uncut 0 gap := by
  refine Uncut.of_forall fun c hc => ⟨ne_open_of_isBlank (h c hc), ?_, ?_⟩ <;>
  · rintro rfl
    cases h _ hc

/-- No cut falls into a written type. -/
theorem Written.uncut (h : Written t text) : Uncut 0 text := by
  induction h with
  | name hname _ => exact hname.uncut
  | generic hname hgap _ _ ih =>
    apply (hname.uncut.append (uncut_of_allBlank hgap)).append
    refine (Uncut.intercalate fun part hpart => ?_).bracketed
    obtain ⟨p, hp, rfl⟩ := List.mem_map.1 hpart
    exact ih p hp
  | array _ ih => exact ih.append (Uncut.of_forall (by simp))
  | spaced hbefore hafter _ ih =>
    exact ((uncut_of_allBlank hbefore).append ih).append (uncut_of_allBlank hafter)

/-! ## Reading names and brackets -/

theorem ofChars_congr (h : trimChars cs = trimChars text) : ofChars cs = ofChars text := by
  rw [ofChars, ofChars, h]

theorem arrayElement?_eq_none (h : ¬['[', ']'] <:+ cs) : arrayElement? cs = none := by
  rw [arrayElement?]
  split
  · next rest hrest =>
    have hcs : rest.reverse ++ ['[', ']'] = cs := by
      rw [← List.reverse_reverse cs, hrest]
      simp
    exact absurd ⟨rest.reverse, hcs⟩ h
  · rfl

theorem ofChars_of_no_bracket (htrim : trimChars text = text) (hne : text ≠ [])
    (harray : arrayElement? text = none) (hopen : text.dropWhile (· ≠ '<') = []) :
    ofChars text = ⟨String.ofList text, []⟩ := by
  rw [ofChars, htrim]
  split
  · next element h => cases harray.symm.trans h
  · split
    · simp [hne]
    · next h => cases hopen.symm.trans h

theorem ofChars_of_bracket (htrim : trimChars text = text) (harray : arrayElement? text = none)
    (hopen : text.dropWhile (· ≠ '<') = '<' :: rest) :
    ofChars text = ⟨String.ofList (trimChars (text.takeWhile (· ≠ '<'))),
      (splitTopLevel (beforeLastClose rest)).filterMap fun part =>
        if part.all isBlank then none else some (ofChars part)⟩ := by
  rw [ofChars, htrim]
  split
  · next element h => cases harray.symm.trans h
  · split
    · next h => cases hopen.symm.trans h
    · next c rest' h =>
      cases hopen.symm.trans h
      rw [List.filterMap_subtype (g := fun part =>
        if part.all isBlank then none else some (ofChars part)) fun _ _ => rfl,
        List.unattach_attach]

/-- Square brackets behind a text make an array of what the text denotes. -/
theorem ofChars_append_brackets (text : List Char) :
    ofChars (text ++ ['[', ']']) = array (ofChars text) := by
  have htrim : trimChars (text ++ ['[', ']']) = trimLeft text ++ ['[', ']'] :=
    trimChars_append_of_solid (by simp [isBlank]) (List.cons_ne_nil _ _) (by simp [isBlank])
  have harray : arrayElement? (trimChars (text ++ ['[', ']'])) = some (trimLeft text) := by
    simp [htrim, arrayElement?]
  rw [ofChars]
  split
  · next element h =>
    cases harray.symm.trans h
    rw [ofChars_congr (trimChars_trimLeft text)]
  · next h => cases harray.symm.trans h

namespace IsName

variable (h : IsName name)
include h

theorem ne_open : ∀ c ∈ name.toList, decide (c ≠ '<') = true := by
  intro c hc
  simpa using (h.noMark c hc).1

theorem trimChars_eq : trimChars name.toList = name.toList := trimChars_eq_self h.head h.last

theorem ofChars_eq (harray : ¬['[', ']'] <:+ name.toList) : ofChars name.toList = ⟨name, []⟩ := by
  have hopen : name.toList.dropWhile (· ≠ '<') = [] := List.dropWhile_eq_nil_iff.2 h.ne_open
  rw [ofChars_of_no_bracket h.trimChars_eq h.nonempty (arrayElement?_eq_none harray) hopen,
    String.ofList_toList]

/-- What stands in the brackets behind a name is cut into the arguments. -/
theorem ofChars_append (hgap : AllBlank gap) (inner : List Char) :
    ofChars (name.toList ++ gap ++ '<' :: (inner ++ ['>'])) = ⟨name,
      (splitTopLevel inner).filterMap fun part =>
        if part.all isBlank then none else some (ofChars part)⟩ := by
  have hconcat : name.toList ++ gap ++ '<' :: (inner ++ ['>']) =
      (name.toList ++ gap ++ '<' :: inner) ++ ['>'] := by simp
  have htrim : trimChars (name.toList ++ gap ++ '<' :: (inner ++ ['>'])) =
      name.toList ++ gap ++ '<' :: (inner ++ ['>']) := by
    apply trimChars_eq_self
    · rw [List.append_assoc, List.head?_append_of_ne_nil _ h.nonempty]
      exact h.head
    · rw [hconcat, List.getLast?_concat]
      intro c hc
      cases hc
      decide
  have harray : arrayElement? (name.toList ++ gap ++ '<' :: (inner ++ ['>'])) = none := by
    rw [hconcat]
    simp [arrayElement?]
  have hfront : ∀ c ∈ name.toList ++ gap, decide (c ≠ '<') = true := by
    intro c hc
    rcases List.mem_append.1 hc with hc | hc
    · exact h.ne_open c hc
    · simpa using ne_open_of_isBlank (hgap c hc)
  have hopen : (name.toList ++ gap ++ '<' :: (inner ++ ['>'])).dropWhile (· ≠ '<') =
      '<' :: (inner ++ ['>']) := by
    rw [List.dropWhile_append_of_pos hfront]
    rfl
  have hname : (name.toList ++ gap ++ '<' :: (inner ++ ['>'])).takeWhile (· ≠ '<') =
      name.toList ++ gap := by
    rw [List.takeWhile_append_of_pos hfront]
    simp
  have htrimName : trimChars ([] ++ name.toList ++ gap) = name.toList :=
    (trimChars_append allBlank_nil hgap).trans h.trimChars_eq
  have hclose : beforeLastClose (inner ++ ['>']) = inner := by simp [beforeLastClose]
  rw [List.nil_append] at htrimName
  rw [ofChars_of_bracket htrim harray hopen, hname, htrimName, hclose, String.ofList_toList]

end IsName

/-! ## Reading written types -/

theorem Written.exists_solid (h : Written t text) : ∃ c ∈ text, isBlank c = false := by
  induction h with
  | @name name hname _ =>
    obtain ⟨c, cs, hcs⟩ := List.exists_cons_of_ne_nil hname.nonempty
    exact ⟨c, by simp [hcs], hname.head c (by rw [hcs]; rfl)⟩
  | generic => exact ⟨'<', by simp, by decide⟩
  | array => exact ⟨'[', by simp, by decide⟩
  | spaced _ _ _ ih =>
    obtain ⟨c, hc, hsolid⟩ := ih
    exact ⟨c, by simp [hc], hsolid⟩

/-- Of the parts between the commas each is read as its argument. -/
theorem filterMap_parts (h : ∀ p ∈ parts, Written p.1 p.2)
    (hread : ∀ p ∈ parts, ofChars p.2 = p.1) :
    ((parts.map Prod.snd).filterMap fun part =>
      if part.all isBlank then none else some (ofChars part)) = parts.map Prod.fst := by
  rw [List.filterMap_map, ← List.filterMap_eq_map]
  apply List.filterMap_congr
  intro p hp
  obtain ⟨c, hc, hsolid⟩ := (h p hp).exists_solid
  have hblank : p.2.all isBlank = false := List.all_eq_false.2 ⟨c, hc, by simp [hsolid]⟩
  rw [Function.comp_apply, hblank, hread p hp]
  rfl

/-- A text that is a way to write a type denotes this type. -/
theorem Written.ofChars_eq (h : Written t text) : ofChars text = t := by
  induction h with
  | name hname harray => exact hname.ofChars_eq harray
  | @generic name gap parts hname hgap hne hparts ih =>
    have hcut : ∀ part ∈ parts.map Prod.snd, Uncut 0 part := by
      intro part hpart
      obtain ⟨p, hp, rfl⟩ := List.mem_map.1 hpart
      exact (hparts p hp).uncut
    have hsplit : splitTopLevel (List.intercalate [','] (parts.map Prod.snd)) =
        parts.map Prod.snd :=
      splitTopLevel_intercalate (by simpa using hne) hcut
    rw [hname.ofChars_append hgap, hsplit, filterMap_parts hparts ih]
  | array _ ih => rw [ofChars_append_brackets, ih]
  | spaced hbefore hafter _ ih =>
    rw [ofChars_congr (trimChars_append hbefore hafter), ih]

end TypeRef

end ApiModels
