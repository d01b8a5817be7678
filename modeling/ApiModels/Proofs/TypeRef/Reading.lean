import ApiModels.Proofs.Text.Measures
import ApiModels.Proofs.TypeRef.Parts
import ApiModels.Proofs.TypeRef.Written

/-!
# How a text is read

`Reads text t` retraces how any text, well written or not, comes to denote `t`: an array suffix is cut
off, or the text is opened at its first bracket and the parts of what it encloses are read, those that
are not blank. Every text is read in this way (`reads_ofChars`). Each step into a text takes off marks
that no other step can take, an opening bracket or an array suffix for the level and a comma for each
further part, so the marks of the text bound how deep and how large its reading is
(`Reads.depth_le`, `Reads.length_nodes_le`).
-/

namespace ApiModels.TypeRef

open ApiModels.Text

variable {cs text inner : List Char} {t s : TypeRef} {ts : List TypeRef} {n : Nat}

/-! ## Nested references -/

mutual
/-- A reference and all that are nested in it. -/
def nodes : TypeRef → List TypeRef
  | ⟨name, arguments⟩ => ⟨name, arguments⟩ :: nodesOf arguments

/-- Some references and all that are nested in them. -/
def nodesOf : List TypeRef → List TypeRef
  | [] => []
  | t :: ts => nodes t ++ nodesOf ts
end

mutual
/-- The number of levels of a reference. -/
def depth : TypeRef → Nat
  | ⟨_, arguments⟩ => depthOf arguments + 1

/-- The greatest number of levels of some references. -/
def depthOf : List TypeRef → Nat
  | [] => 0
  | t :: ts => max (depth t) (depthOf ts)
end

theorem nodesOf_eq_flatMap (ts : List TypeRef) : nodesOf ts = ts.flatMap nodes := by
  induction ts with
  | nil => rfl
  | cons t ts ih => rw [nodesOf, ih, List.flatMap_cons]

theorem depthOf_le_iff : depthOf ts ≤ n ↔ ∀ t ∈ ts, depth t ≤ n := by
  induction ts with
  | nil => simp [depthOf]
  | cons t ts ih => rw [depthOf, Nat.max_le, ih, List.forall_mem_cons]

theorem nodes_array (t : TypeRef) : (array t).nodes = array t :: t.nodes := by
  rw [array, nodes, nodesOf_eq_flatMap, List.flatMap_singleton]

theorem depth_array (t : TypeRef) : (array t).depth = t.depth + 1 := by
  simp [array, depth, depthOf]

/-! ## The reading -/

theorem arrayElement?_eq_some_iff {element : List Char} :
    arrayElement? cs = some element ↔ cs = element ++ ['[', ']'] := by
  constructor
  · intro h
    rw [arrayElement?] at h
    split at h
    · next rest hrest =>
      cases h
      rw [← List.reverse_inj, hrest]
      simp
    · cases h
  · rintro rfl
    simp [arrayElement?]

theorem not_suffix_of_arrayElement? (h : arrayElement? cs = none) : ¬['[', ']'] <:+ cs := by
  intro ⟨element, hcs⟩
  cases h.symm.trans (arrayElement?_eq_some_iff.2 hcs.symm)

theorem beforeLastClose_cases (cs : List Char) :
    '>' ∉ cs ∧ beforeLastClose cs = cs ∨
      ∃ after, cs = beforeLastClose cs ++ '>' :: after ∧ '>' ∉ after := by
  by_cases hmem : '>' ∈ cs
  · -- the last bracket is the first one in the reversed text
    obtain ⟨after, before, hreverse, hafter⟩ := List.eq_append_cons_of_mem (List.mem_reverse.2 hmem)
    have hall : ∀ c ∈ after, decide (c ≠ '>') = true := by
      intro c hc
      exact decide_eq_true (ne_of_mem_of_not_mem hc hafter)
    have hclose : beforeLastClose cs = before.reverse := by
      rw [beforeLastClose, hreverse, List.dropWhile_append_of_pos hall]
      rfl
    refine .inr ⟨after.reverse, ?_, fun h => hafter (List.mem_reverse.1 h)⟩
    rw [hclose, ← List.reverse_inj, hreverse]
    simp
  · have hall : ∀ c ∈ cs.reverse, decide (c ≠ '>') = true := by
      intro c hc
      exact decide_eq_true (ne_of_mem_of_not_mem (List.mem_reverse.1 hc) hmem)
    refine .inl ⟨hmem, ?_⟩
    rw [beforeLastClose, List.dropWhile_eq_nil_iff.2 hall]

theorem isPrefix_beforeLastClose (cs : List Char) : beforeLastClose cs <+: cs := by
  rcases beforeLastClose_cases cs with ⟨-, h⟩ | ⟨after, h, -⟩
  · rw [h]
  · exact ⟨'>' :: after, h.symm⟩

/-- `Reads text t` retraces how `text` is read as `t`. -/
inductive Reads : List Char → TypeRef → Prop
  | blank {text : List Char} : trimChars text = [] → Reads text unknown
  | name {text : List Char} : trimChars text ≠ [] → ¬['[', ']'] <:+ trimChars text →
    '<' ∉ trimChars text → Reads text ⟨String.ofList (trimChars text), []⟩
  | array {text element : List Char} {t : TypeRef} : trimChars text = element ++ ['[', ']'] →
    Reads element t → Reads text (array t)
  | generic {text before rest : List Char} {parts : List (List Char × TypeRef)} :
    trimChars text = before ++ '<' :: rest → '<' ∉ before → ¬['[', ']'] <:+ trimChars text →
    parts.map Prod.fst = (splitTopLevel (beforeLastClose rest)).filter (!·.all isBlank) →
    (∀ p ∈ parts, Reads p.1 p.2) →
    Reads text ⟨String.ofList (trimChars before), parts.map Prod.snd⟩

theorem ofChars_of_allBlank (h : AllBlank text) : ofChars text = unknown := by
  have hnil : trimChars text = trimChars [] := trimChars_eq_nil_iff.2 h
  rw [ofChars_congr hnil, ofChars]
  rfl

theorem filterMap_ofChars (parts : List (List Char)) :
    (parts.filterMap fun part => if part.all isBlank then none else some (ofChars part)) =
      (parts.filter (!·.all isBlank)).map ofChars := by
  induction parts with
  | nil => rfl
  | cons part parts ih =>
    rw [List.filterMap_cons, List.filter_cons, ih]
    cases part.all isBlank with
    | true => rfl
    | false => rfl

theorem reads_ofChars (text : List Char) : Reads text (ofChars text) := by
  have htrim (cs : List Char) : trimChars (trimChars cs) = trimChars cs :=
    trimChars_eq_self_iff.2 (isTrimmed_trimChars cs)
  induction text using ofChars.induct with
  | case1 text element harray ih =>
    have hcs := arrayElement?_eq_some_iff.1 harray
    rw [ofChars_congr (htrim text).symm, hcs, ofChars_append_brackets]
    exact .array hcs ih
  | case2 text harray hopen hempty =>
    have hnil := List.isEmpty_iff.1 hempty
    rw [ofChars_of_allBlank (trimChars_eq_nil_iff.1 hnil)]
    exact .blank hnil
  | case3 text harray hopen hempty =>
    have hne : trimChars text ≠ [] := fun h => hempty (List.isEmpty_iff.2 h)
    rw [ofChars_congr (htrim text).symm, ofChars_of_no_bracket (htrim text) hne harray hopen]
    refine .name hne (not_suffix_of_arrayElement? harray) fun hmem => ?_
    simpa using List.dropWhile_eq_nil_iff.1 hopen '<' hmem
  | case4 text harray c rest hopen ih =>
    have hfirst := List.head?_dropWhile_not (fun c => decide (c ≠ '<')) (trimChars text)
    rw [hopen] at hfirst
    obtain rfl : c = '<' := by simpa using hfirst
    have hcs : trimChars text = (trimChars text).takeWhile (· ≠ '<') ++ '<' :: rest := by
      rw [← hopen, List.takeWhile_append_dropWhile]
    have hbefore : '<' ∉ (trimChars text).takeWhile (· ≠ '<') := by
      intro hmem
      simpa using List.mem_takeWhile_imp hmem
    rw [ofChars_congr (htrim text).symm, ofChars_of_bracket (htrim text) harray hopen,
      filterMap_ofChars]
    generalize hparts : (splitTopLevel (beforeLastClose rest)).filter (!·.all isBlank) = parts
    have hread : ∀ p ∈ parts.map (fun part => (part, ofChars part)), Reads p.1 p.2 := by
      intro p hp
      obtain ⟨part, hpart, rfl⟩ := List.mem_map.1 hp
      exact ih part (List.mem_of_mem_filter (hparts ▸ hpart))
    have hgeneric := Reads.generic hcs hbefore (not_suffix_of_arrayElement? harray)
      (by simp [hparts, Function.comp_def]) hread
    rwa [List.map_map] at hgeneric

/-! ## What the marks of a text bound -/

/-- The marks of a text that can make a level of its reading. -/
def levels (cs : List Char) : Nat := cs.count '<' + occurrences ['[', ']'] cs

/-- The marks of a text that can make a reference of its reading. -/
def marks (cs : List Char) : Nat := levels cs + cs.count ','

theorem superadditive_levels : Superadditive levels :=
  (superadditive_count '<').add (superadditive_occurrences (List.cons_ne_nil _ _))

theorem superadditive_marks : Superadditive marks :=
  superadditive_levels.add (superadditive_count ',')

section
variable {f : List Char → Nat} (hf : Superadditive f)
include hf

theorem add_le_of_array {element : List Char} (hcs : trimChars text = element ++ ['[', ']']) :
    f element + f ['[', ']'] ≤ f text := by
  have hinfix : element ++ ['[', ']'] <:+: text := hcs ▸ isInfix_trimChars text
  exact Nat.le_trans (hf _ _) (hf.le_of_infix hinfix)

theorem add_le_of_open {before rest : List Char} (hcs : trimChars text = before ++ '<' :: rest) :
    f ['<'] + f (beforeLastClose rest) ≤ f text := by
  obtain ⟨after, hafter⟩ := isPrefix_beforeLastClose rest
  have hinfix : ['<'] ++ beforeLastClose rest <:+: text := by
    refine List.IsInfix.trans ⟨before, after, ?_⟩ (isInfix_trimChars text)
    rw [hcs]
    simp [hafter]
  exact Nat.le_trans (hf _ _) (hf.le_of_infix hinfix)

theorem le_of_mem_splitTopLevel {part : List Char} (hpart : part ∈ splitTopLevel cs) :
    f part ≤ f cs := by
  have hle : f part ≤ f (List.intercalate [','] (splitAtDepth 0 cs)) := hf.le_of_mem hpart
  rwa [intercalate_splitAtDepth] at hle

/-- The parts together have less of a measure than their text, by what it gives the commas between
them. -/
theorem sum_splitTopLevel_le (cs : List Char) :
    ((splitTopLevel cs).map f).sum + ((splitTopLevel cs).length - 1) * f [','] ≤ f cs := by
  have hle := hf.sum_add_le [','] (splitTopLevel cs)
  rwa [splitTopLevel, intercalate_splitAtDepth] at hle

end

/-- Each part can make one reference more than it has marks. -/
theorem sum_one_add_marks_le (cs : List Char) :
    ((splitTopLevel cs).map (1 + marks ·)).sum ≤ 1 + marks cs := by
  have hle := sum_splitTopLevel_le superadditive_marks cs
  have hcomma : marks [','] = 1 := rfl
  have hpositive : 0 < (splitTopLevel cs).length :=
    List.length_pos_iff.2 (splitAtDepth_ne_nil 0 cs)
  have hsplit : ((splitTopLevel cs).map (1 + marks ·)).sum =
      (splitTopLevel cs).length + ((splitTopLevel cs).map marks).sum := by
    simp [List.sum_map_add]
  rw [hcomma] at hle
  omega

namespace Reads

theorem depth_le (h : Reads text t) : t.depth ≤ 1 + levels text := by
  induction h with
  | blank | name => exact Nat.le_add_right 1 _
  | @array text element t hcs _ ih =>
    have hlevel : levels element + 1 ≤ levels text := add_le_of_array superadditive_levels hcs
    rw [depth_array]
    omega
  | @generic text before rest parts hcs _ _ hparts _ ih =>
    have hlevel : 1 + levels (beforeLastClose rest) ≤ levels text :=
      add_le_of_open superadditive_levels hcs
    have harguments : depthOf (parts.map Prod.snd) ≤ 1 + levels (beforeLastClose rest) := by
      rw [depthOf_le_iff, List.forall_mem_map]
      intro p hp
      have hmem : p.1 ∈ splitTopLevel (beforeLastClose rest) :=
        List.mem_of_mem_filter (hparts ▸ List.mem_map_of_mem hp)
      have hle := le_of_mem_splitTopLevel superadditive_levels hmem
      have hdepth := ih p hp
      omega
    rw [depth]
    omega

theorem length_nodes_le (h : Reads text t) : t.nodes.length ≤ 1 + marks text := by
  induction h with
  | blank | name => exact Nat.le_add_right 1 _
  | @array text element t hcs _ ih =>
    have hmark : marks element + 1 ≤ marks text := add_le_of_array superadditive_marks hcs
    rw [nodes_array, List.length_cons]
    omega
  | @generic text before rest parts hcs _ _ hparts _ ih =>
    have hmark : 1 + marks (beforeLastClose rest) ≤ marks text :=
      add_le_of_open superadditive_marks hcs
    generalize beforeLastClose rest = inner at hparts hmark
    have harguments : ((parts.map Prod.snd).flatMap nodes).length ≤ 1 + marks inner := by
      calc ((parts.map Prod.snd).flatMap nodes).length
          = (parts.map fun p => p.2.nodes.length).sum := by
            simp [List.length_flatMap, Function.comp_def]
        _ ≤ (parts.map fun p => 1 + marks p.1).sum := List.sum_le_sum ih
        _ = (((splitTopLevel inner).filter (!·.all isBlank)).map (1 + marks ·)).sum := by
            rw [← hparts, List.map_map]
            rfl
        _ ≤ ((splitTopLevel inner).map (1 + marks ·)).sum :=
            ((List.filter_sublist).map _).sum_le_sum fun _ _ => Nat.zero_le _
        _ ≤ 1 + marks inner := sum_one_add_marks_le inner
    rw [nodes, nodesOf_eq_flatMap, List.length_cons]
    omega

theorem name_of_mem_nodes (h : Reads text t) :
    ∀ s ∈ t.nodes, '<' ∉ s.name.toList ∧ IsTrimmed s.name.toList := by
  induction h with
  | blank =>
    intro s hs
    cases List.mem_singleton.1 hs
    decide
  | @name text hne _ hopen =>
    intro s hs
    cases List.mem_singleton.1 hs
    rw [String.toList_ofList]
    exact ⟨hopen, isTrimmed_trimChars text⟩
  | array hcs _ ih =>
    have harray : '<' ∉ "array".toList ∧ IsTrimmed "array".toList := by decide
    rw [nodes_array]
    exact List.forall_mem_cons.2 ⟨harray, ih⟩
  | @generic text before rest parts hcs hbefore _ hparts _ ih =>
    rw [nodes, nodesOf_eq_flatMap]
    refine List.forall_mem_cons.2 ⟨?_, fun s hs => ?_⟩
    · rw [String.toList_ofList]
      exact ⟨fun hmem => hbefore ((isInfix_trimChars before).subset hmem), isTrimmed_trimChars before⟩
    · obtain ⟨a, ha, hs⟩ := List.mem_flatMap.1 hs
      obtain ⟨p, hp, rfl⟩ := List.mem_map.1 ha
      exact ih p hp s hs

end Reads

end ApiModels.TypeRef
