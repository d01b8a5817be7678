import ApiModels.Proofs.TypeRef.Written

/-!
# Written forms are read back

A reference is `Readable` if its names have none of the marks of a written type and no white space
at their ends, and none of them looks like an array. Its written form is one of the ways to write it
(`TypeRef.Readable.written_display`), so it denotes just this reference
(`TypeRef.Readable.parse_display`), at every depth of arguments.
-/

namespace ApiModels.TypeRef

open ApiModels.Text

variable {t : TypeRef} {arguments : List TypeRef} {text : List Char}

/-- A reference over such names, where a name without arguments does not end as an array does. -/
inductive Readable : TypeRef → Prop
  | mk {name : String} {arguments : List TypeRef} : IsName name →
    (arguments = [] → ¬['[', ']'] <:+ name.toList) →
    (∀ a ∈ arguments, Readable a) → Readable ⟨name, arguments⟩

/-! ## The characters of a written form -/

/-- Arguments with the parts between the commas of their written forms: a space follows each
comma. -/
def writtenArguments : List TypeRef → List (TypeRef × List Char)
  | [] => []
  | a :: as => (a, a.display.toList) :: as.map fun b => (b, ' ' :: b.display.toList)

theorem map_fst_writtenArguments (arguments : List TypeRef) :
    (writtenArguments arguments).map Prod.fst = arguments := by
  cases arguments with
  | nil => rfl
  | cons a as => simp [writtenArguments, Function.comp_def]

theorem toList_displayRest (as : List TypeRef) : (displayRest as).toList =
    as.flatMap fun b => ',' :: ' ' :: b.display.toList := by
  induction as with
  | nil => rfl
  | cons a as ih => simp [displayRest, ih]

theorem intercalate_writtenArguments (a : TypeRef) (as : List TypeRef) :
    List.intercalate [','] ((writtenArguments (a :: as)).map Prod.snd) =
      a.display.toList ++ (displayRest as).toList := by
  rw [writtenArguments, toList_displayRest, List.map_cons]
  generalize a.display.toList = first
  induction as generalizing first with
  | nil => simp
  | cons b as ih =>
    rw [List.map_cons, List.map_cons, List.intercalate_cons_cons, ih, List.flatMap_cons]
    simp

theorem toList_display_nil (name : String) : (display ⟨name, []⟩).toList = name.toList := by
  rw [display]

theorem toList_display_cons (name : String) (a : TypeRef) (as : List TypeRef) :
    (display ⟨name, a :: as⟩).toList = name.toList ++
      '<' :: (List.intercalate [','] ((writtenArguments (a :: as)).map Prod.snd) ++ ['>']) := by
  rw [intercalate_writtenArguments, display]
  simp

/-! ## The written form is a way to write the reference -/

theorem Written.of_writtenArguments (h : ∀ a ∈ arguments, Written a a.display.toList) :
    ∀ p ∈ writtenArguments arguments, Written p.1 p.2 := by
  intro p hp
  cases arguments with
  | nil => cases hp
  | cons a as =>
    rcases List.mem_cons.1 hp with rfl | hp
    · exact h a List.mem_cons_self
    · obtain ⟨b, hb, rfl⟩ := List.mem_map.1 hp
      have hspace : AllBlank [' '] := by
        intro c hc
        cases List.mem_singleton.1 hc
        decide
      have hspaced := (h b (List.mem_cons_of_mem a hb)).spaced hspace allBlank_nil
      rwa [List.append_nil] at hspaced

theorem Readable.written_display (h : t.Readable) : Written t t.display.toList := by
  induction h with
  | @mk name arguments hname harray _ ih =>
    cases arguments with
    | nil =>
      rw [toList_display_nil]
      exact .name hname (harray rfl)
    | cons a as =>
      have hne : writtenArguments (a :: as) ≠ [] := List.cons_ne_nil _ _
      have hwritten := Written.generic hname allBlank_nil hne (Written.of_writtenArguments ih)
      rw [map_fst_writtenArguments, List.append_nil] at hwritten
      rwa [toList_display_cons]

/-- The written form of a readable reference denotes this reference. -/
theorem Readable.parse_display (h : t.Readable) : parse t.display = t :=
  h.written_display.ofChars_eq

/-- Only references over names can be written. -/
theorem Written.readable (h : Written t text) : t.Readable := by
  induction h with
  | name hname harray => exact .mk hname (fun _ => harray) fun _ ha => nomatch ha
  | @generic name gap parts hname _ hne _ ih =>
    refine .mk hname (fun hnil => absurd (List.map_eq_nil_iff.1 hnil) hne) fun a ha => ?_
    obtain ⟨p, hp, rfl⟩ := List.mem_map.1 ha
    exact ih p hp
  | array _ ih =>
    refine .mk (by decide +kernel) (fun hnil => nomatch hnil) fun a ha => ?_
    cases List.mem_singleton.1 ha
    exact ih
  | spaced _ _ _ ih => exact ih

/-- The references that can be written are the readable ones. Every way to write one denotes it,
whatever its depth, the number of its arguments and the white space in it; its written form is one
of them. -/
theorem parse_written (t : TypeRef) :
    (t.Readable ↔ ∃ text : String, Written t text.toList) ∧
      (∀ text : String, Written t text.toList → parse text = t) ∧
      (t.Readable → Written t t.display.toList ∧ parse t.display = t) :=
  ⟨⟨fun h => ⟨t.display, h.written_display⟩, fun ⟨_, h⟩ => h.readable⟩, fun _ h => h.ofChars_eq,
    fun h => ⟨h.written_display, h.parse_display⟩⟩

/-- An array of maps from arrays to arrays of lists. -/
def stock : TypeRef :=
  array ⟨"Map", [array ⟨"Key", []⟩, array ⟨"List", [array ⟨"Item", []⟩]⟩]⟩

theorem stock_parse_written :
    Written stock " Map < Key [] ,\tList<Item[]>[] >[] ".toList ∧
      parse " Map < Key [] ,\tList<Item[]>[] >[] " = stock ∧
      stock.display = "array<Map<array<Key>, array<List<array<Item>>>>>" ∧
      parse "array<Map<array<Key>, array<List<array<Item>>>>>" = stock := by
  have hspace : AllBlank [' '] := by simp [AllBlank, isBlank]
  have htab : AllBlank ['\t'] := by simp [AllBlank, isBlank]
  have hname : IsName "List" ∧ IsName "Map" := by decide +kernel
  have hkey : Written ⟨"Key", []⟩ "Key".toList := .name (by decide +kernel) (by decide +kernel)
  have hitem : Written ⟨"Item", []⟩ "Item".toList := .name (by decide +kernel) (by decide +kernel)
  have hkeys : Written (array ⟨"Key", []⟩) " Key [] ".toList :=
    (hkey.spaced hspace hspace).array.spaced allBlank_nil hspace
  have hitems : ∀ p ∈ [(array ⟨"Item", []⟩, "Item[]".toList)], Written p.1 p.2 :=
    List.forall_mem_singleton.2 hitem.array
  have hlist : Written (array ⟨"List", [array ⟨"Item", []⟩]⟩) "\tList<Item[]>[] ".toList :=
    ((Written.generic hname.1 allBlank_nil (List.cons_ne_nil _ _) hitems).spaced htab
      allBlank_nil).array.spaced allBlank_nil hspace
  have hboth : ∀ p ∈ [(array ⟨"Key", []⟩, " Key [] ".toList),
      (array ⟨"List", [array ⟨"Item", []⟩]⟩, "\tList<Item[]>[] ".toList)], Written p.1 p.2 :=
    List.forall_mem_cons.2 ⟨hkeys, List.forall_mem_singleton.2 hlist⟩
  have hstock : Written stock " Map < Key [] ,\tList<Item[]>[] >[] ".toList :=
    ((Written.generic hname.2 hspace (List.cons_ne_nil _ _) hboth).spaced hspace
      allBlank_nil).array.spaced allBlank_nil hspace
  obtain ⟨hreadable, hparse, hdisplay⟩ := parse_written stock
  have hwritten : stock.display = "array<Map<array<Key>, array<List<array<Item>>>>>" := by decide
  exact ⟨hstock, hparse _ hstock, hwritten, hwritten ▸ (hdisplay (hreadable.2 ⟨_, hstock⟩)).2⟩

end ApiModels.TypeRef
