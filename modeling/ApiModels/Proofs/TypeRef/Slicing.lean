import ApiModels.Proofs.Text.Slices
import ApiModels.Proofs.TypeRef.Reading

/-!
# Reading by byte positions

`readSliced?` reads a type by cutting it at byte positions: an array suffix off its end, the name and
the arguments at the positions of its first opening and its last closing bracket, and the arguments
at the positions of commas that a single pass with a bracket depth finds. It has no result if a slice
cannot be taken or if its levels do not suffice. Every text is read in this way, with as many levels
as its reading has (`Reads.readSliced?_eq`), so no slice is taken anywhere but between two characters
of the text.
-/

namespace ApiModels.TypeRef

open ApiModels.Text

variable {cs text : List Char} {t : TypeRef}

/-- The parts of `text` from `start` on, cut at the commas at depth zero among the characters that
remain. -/
def slicedParts? (text : String) (start depth : Nat) : List (Nat × Char) → Option (List String)
  | [] => do return [← slice? text start text.utf8ByteSize]
  | (i, c) :: rest =>
    if c = ',' ∧ depth = 0 then do
      return (← slice? text start i) :: (← slicedParts? text (i + 1) depth rest)
    else slicedParts? text start (depthBehind depth c) rest

/-- Where the arguments end whose bracket opens at `opening`. -/
def argumentsEnd (text : String) (opening : Nat) : Nat :=
  match (positions '>' 0 text.toList).getLast? with
  | some close => if opening < close then close else text.utf8ByteSize
  | none => text.utf8ByteSize

/-- The reference that a text denotes, read by byte positions and no deeper than some levels. -/
def readSliced? : Nat → String → Option TypeRef
  | 0, _ => none
  | levels + 1, text =>
    let text := trim text
    if ['[', ']'].isSuffixOf text.toList then do
      let element ← slice? text 0 (text.utf8ByteSize - 2)
      return array (← readSliced? levels element)
    else match (positions '<' 0 text.toList).head? with
      | none => some (if text.isEmpty then unknown else ⟨text, []⟩)
      | some opening => do
        let name ← slice? text 0 opening
        let inner ← slice? text (opening + 1) (argumentsEnd text opening)
        let parts ← slicedParts? inner 0 0 (charIndices 0 inner.toList)
        let arguments ← (parts.filter fun part => !(trim part).isEmpty).mapM (readSliced? levels)
        return ⟨trim name, arguments⟩

/-! ## The parts -/

/-- A pass that has put `before` into parts and holds back `held` goes on as the cutting does. -/
theorem slicedParts?_eq (before held rest : List Char) (depth : Nat) :
    slicedParts? (String.ofList (before ++ held ++ rest)) (String.ofList before).utf8ByteSize depth
        (charIndices (String.ofList (before ++ held)).utf8ByteSize rest) =
      some ((held.foldr consFirst (splitAtDepth depth rest)).map String.ofList) := by
  induction rest generalizing before held depth with
  | nil =>
    have hslice := slice?_ofList before held []
    rw [List.append_nil] at hslice ⊢
    rw [charIndices, slicedParts?, hslice, splitAtDepth, foldr_consFirst_nil_cons]
    rfl
  | cons c rest ih =>
    rw [charIndices, slicedParts?]
    split
    · next hcut =>
      -- the comma ends the held back part, and the next one begins behind it
      obtain ⟨rfl, rfl⟩ := hcut
      have hslice := slice?_ofList before held (',' :: rest)
      have hsize : (String.ofList (before ++ held ++ [','])).utf8ByteSize =
          (String.ofList (before ++ held)).utf8ByteSize + 1 := by
        rw [utf8ByteSize_ofList_append]
        rfl
      have hrest := ih (before ++ held ++ [',']) [] 0
      rw [List.append_nil, hsize, List.append_assoc (before ++ held), List.singleton_append] at hrest
      change (do return (← slice? _ _ _) :: (← slicedParts? _ _ _ (charIndices (_ + 1) rest))) = _
      rw [hslice, hrest, splitAtDepth_comma, foldr_consFirst_nil_cons]
      rfl
    · next hcut =>
      have hcomma : c = ',' → 0 < depth := fun hc => Nat.pos_of_ne_zero fun hdepth => hcut ⟨hc, hdepth⟩
      have hsize : (String.ofList (before ++ held ++ [c])).utf8ByteSize =
          (String.ofList (before ++ held)).utf8ByteSize + c.utf8Size := by
        rw [utf8ByteSize_ofList_append, utf8ByteSize_ofList_cons]
        rfl
      have hrest := ih before (held ++ [c]) (depthBehind depth c)
      rw [← List.append_assoc, hsize, List.append_assoc (before ++ held), List.singleton_append,
        List.foldr_append] at hrest
      rw [hrest, splitAtDepth_cons hcomma]
      rfl

theorem slicedParts?_ofList (cs : List Char) :
    slicedParts? (String.ofList cs) 0 0 (charIndices 0 cs) =
      some ((splitTopLevel cs).map String.ofList) := slicedParts?_eq [] [] cs 0

/-! ## The brackets -/

/-- The arguments end at the last closing bracket of the text if it is one of the rest, which is the
last one there too. -/
theorem argumentsEnd_eq (before rest : List Char) :
    argumentsEnd (String.ofList (before ++ '<' :: rest)) (String.ofList before).utf8ByteSize =
      (String.ofList (before ++ '<' :: beforeLastClose rest)).utf8ByteSize := by
  rw [argumentsEnd, String.toList_ofList]
  rcases beforeLastClose_cases rest with ⟨hnone, hclose⟩ | ⟨after, hrest, hafter⟩
  · have hpositions : positions '>' 0 (before ++ '<' :: rest) = positions '>' 0 before := by
      rw [positions_append, positions_cons_of_ne (by decide), positions_of_not_mem hnone,
        List.append_nil]
    rw [hpositions, hclose]
    split
    · next close hlast =>
      have hlt := lt_of_mem_positions (List.mem_of_getLast? hlast)
      rw [if_neg (by omega)]
    · rfl
  · generalize beforeLastClose rest = inner at hrest
    subst hrest
    have hsplit : before ++ '<' :: (inner ++ '>' :: after) =
        (before ++ '<' :: inner) ++ '>' :: after := by simp
    have hlt : (String.ofList before).utf8ByteSize <
        (String.ofList (before ++ '<' :: inner)).utf8ByteSize := by
      rw [utf8ByteSize_ofList_append, utf8ByteSize_ofList_cons]
      have := '<'.utf8Size_pos
      omega
    rw [hsplit, getLast?_positions hafter]
    exact if_pos hlt

/-! ## The reading -/

theorem trim_ofList (cs : List Char) : trim (String.ofList cs) = String.ofList (trimChars cs) := by
  rw [trim, String.toList_ofList]

theorem isEmpty_trim_ofList (cs : List Char) :
    (trim (String.ofList cs)).isEmpty = cs.all isBlank := by
  rw [trim_ofList, Bool.eq_iff_iff, String.isEmpty_iff, String.ofList_eq_empty_iff,
    trimChars_eq_nil_iff, List.all_eq_true]
  rfl

section
variable {levels : Nat} {element before rest : List Char}

theorem readSliced?_of_no_bracket (hsuffix : ¬['[', ']'] <:+ trimChars text)
    (hopen : '<' ∉ trimChars text) : readSliced? (levels + 1) (String.ofList text) =
      some (if (trimChars text).isEmpty then unknown else ⟨String.ofList (trimChars text), []⟩) := by
  have hsuffix' : ['[', ']'].isSuffixOf (trimChars text) = false := by
    rwa [← Bool.not_eq_true, List.isSuffixOf_iff_suffix]
  simp only [readSliced?, trim_ofList, String.toList_ofList, hsuffix', positions_of_not_mem hopen]
  simp

theorem readSliced?_of_array (hcs : trimChars text = element ++ ['[', ']']) :
    readSliced? (levels + 1) (String.ofList text) =
      (readSliced? levels (String.ofList element)).map array := by
  have hslice : slice? (String.ofList (element ++ ['[', ']'])) 0 (String.ofList element).utf8ByteSize =
      some (String.ofList element) := slice?_ofList [] element ['[', ']']
  have hsize : (String.ofList (element ++ ['[', ']'])).utf8ByteSize - 2 =
      (String.ofList element).utf8ByteSize := by
    have hpair : (String.ofList ['[', ']']).utf8ByteSize = 2 := rfl
    rw [utf8ByteSize_ofList_append, hpair, Nat.add_sub_cancel]
  have hsuffix : ['[', ']'].isSuffixOf (element ++ ['[', ']']) = true :=
    List.isSuffixOf_iff_suffix.2 (List.suffix_append _ _)
  simp only [readSliced?, trim_ofList, hcs, String.toList_ofList, hsuffix, hsize, hslice, if_true,
    Option.bind_eq_bind, Option.bind_some]
  cases readSliced? levels (String.ofList element) with
  | none => rfl
  | some t => rfl

theorem readSliced?_of_open (hcs : trimChars text = before ++ '<' :: rest) (hbefore : '<' ∉ before)
    (hsuffix : ¬['[', ']'] <:+ trimChars text) :
    readSliced? (levels + 1) (String.ofList text) =
      ((((splitTopLevel (beforeLastClose rest)).filter (!·.all isBlank)).map String.ofList).mapM
        (readSliced? levels)).map fun arguments => ⟨String.ofList (trimChars before), arguments⟩ := by
  have hsuffix' : ['[', ']'].isSuffixOf (before ++ '<' :: rest) = false := by
    rwa [← Bool.not_eq_true, List.isSuffixOf_iff_suffix, ← hcs]
  have hname : slice? (String.ofList (before ++ '<' :: rest)) 0 (String.ofList before).utf8ByteSize =
      some (String.ofList before) := slice?_ofList [] before ('<' :: rest)
  have hinner : slice? (String.ofList (before ++ '<' :: rest))
      ((String.ofList before).utf8ByteSize + 1)
      (String.ofList (before ++ '<' :: beforeLastClose rest)).utf8ByteSize =
        some (String.ofList (beforeLastClose rest)) := by
    obtain ⟨after, hafter⟩ := isPrefix_beforeLastClose rest
    have hslice := slice?_ofList (before ++ ['<']) (beforeLastClose rest) after
    have hone : (String.ofList ['<']).utf8ByteSize = 1 := rfl
    rw [utf8ByteSize_ofList_append before, hone] at hslice
    simpa only [List.append_assoc, List.cons_append, List.nil_append, hafter] using hslice
  have hblank : (fun part => !(trim part).isEmpty) ∘ String.ofList = (!·.all isBlank) := by
    funext part
    rw [Function.comp_apply, isEmpty_trim_ofList]
  simp only [readSliced?, trim_ofList, hcs, String.toList_ofList, hsuffix', head?_positions hbefore,
    hname, argumentsEnd_eq, hinner, slicedParts?_ofList, List.filter_map, hblank, Option.bind_eq_bind,
    Option.bind_some, Bool.false_eq_true, if_false]
  cases List.mapM (readSliced? levels) _ with
  | none => rfl
  | some arguments => rfl

end

theorem exists_level {n : Nat} (h : t.depth ≤ n) : ∃ levels, n = levels + 1 := by
  obtain ⟨name, arguments⟩ := t
  rw [depth] at h
  exact Nat.exists_eq_add_one.2 (Nat.lt_of_lt_of_le (Nat.succ_pos _) h)

theorem mapM_readSliced? {parts : List (List Char × TypeRef)} {levels : Nat}
    (h : ∀ p ∈ parts, readSliced? levels (String.ofList p.1) = some p.2) :
    ((parts.map Prod.fst).map String.ofList).mapM (readSliced? levels) =
      some (parts.map Prod.snd) := by
  induction parts with
  | nil => rfl
  | cons p parts ih =>
    obtain ⟨hp, hparts⟩ := List.forall_mem_cons.1 h
    rw [List.map_cons, List.map_cons, List.mapM_cons, hp, ih hparts]
    rfl

theorem Reads.readSliced?_eq (h : Reads text t) :
    ∀ levels, t.depth ≤ levels → readSliced? levels (String.ofList text) = some t := by
  induction h with
  | @blank text hcs =>
    intro levels hlevels
    obtain ⟨levels, rfl⟩ := exists_level hlevels
    rw [readSliced?, trim_ofList, hcs]
    rfl
  | @name text hne hsuffix hopen =>
    intro levels hlevels
    obtain ⟨levels, rfl⟩ := exists_level hlevels
    rw [readSliced?_of_no_bracket hsuffix hopen, if_neg (by rwa [List.isEmpty_iff])]
  | @array text element t hcs _ ih =>
    intro levels hlevels
    obtain ⟨levels, rfl⟩ := exists_level hlevels
    rw [depth_array, Nat.add_le_add_iff_right] at hlevels
    rw [readSliced?_of_array hcs, ih levels hlevels]
    rfl
  | @generic text before rest parts hcs hbefore hsuffix hparts _ ih =>
    intro levels hlevels
    obtain ⟨levels, rfl⟩ := exists_level hlevels
    rw [depth, Nat.add_le_add_iff_right, depthOf_le_iff, List.forall_mem_map] at hlevels
    rw [readSliced?_of_open hcs hbefore hsuffix, ← hparts,
      mapM_readSliced? fun p hp => ih p hp levels (hlevels p hp)]
    rfl

/-- Any text is read as what it denotes with one level more than it has opening brackets and array
suffixes, every slice between characters of the text; no name of the reading holds an opening bracket
or has blanks at its ends; and the marks of the text bound its levels and the references in it. -/
theorem parse_bounded (text : String) :
    (∀ levels, 1 + text.toList.count '<' + occurrences ['[', ']'] text.toList ≤ levels →
      readSliced? levels text = some (parse text)) ∧
    (∀ t ∈ (parse text).nodes, '<' ∉ t.name.toList ∧ IsTrimmed t.name.toList) ∧
    (parse text).depth ≤ 1 + text.toList.count '<' + occurrences ['[', ']'] text.toList ∧
    (parse text).nodes.length ≤
      1 + text.toList.count '<' + text.toList.count ',' + occurrences ['[', ']'] text.toList := by
  have hread : Reads text.toList (parse text) := reads_ofChars text.toList
  have hdepth : (parse text).depth ≤
      1 + text.toList.count '<' + occurrences ['[', ']'] text.toList := by
    rw [Nat.add_assoc]
    exact hread.depth_le
  have hnodes := hread.length_nodes_le
  refine ⟨fun levels hlevels => ?_, hread.name_of_mem_nodes, hdepth, ?_⟩
  · have hsliced := hread.readSliced?_eq levels (Nat.le_trans hdepth hlevels)
    rwa [String.ofList_toList] at hsliced
  · rw [marks, levels] at hnodes
    omega

/-- Crossed brackets, a bare suffix and stray commas. -/
theorem crossedBrackets_parse_bounded :
    1 + "Map<>>,K[]<é[] ,>".toList.count '<' +
      occurrences ['[', ']'] "Map<>>,K[]<é[] ,>".toList = 5 ∧
    readSliced? 5 "Map<>>,K[]<é[] ,>" = some (parse "Map<>>,K[]<é[] ,>") :=
  ⟨by decide, (parse_bounded "Map<>>,K[]<é[] ,>").1 5 (by decide)⟩

end ApiModels.TypeRef
