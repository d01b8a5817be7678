import Mathlib.Data.List.DropRight
import ApiModels.Json.Format
import ApiModels.Json.Reader
import ApiModels.Json.Writer
import ApiModels.Proofs.Data.Presentation

/-!
# JSON is read as it is written

The text of a tree, in front of any other text, is read as the value that stands for the tree, and
what follows it is left (`Json.value?_treeText`). Every bracket and quotation mark closes what it
belongs to, so nothing is asked of the text that follows.
-/

namespace ApiModels.Json

open ApiModels.Data

mutual
/-- The value that stands for a tree. -/
def Value.ofTree : Tree → Value
  | .text value => .text value
  | .texts values => .list (values.map .text)
  | .map entries => .object (Value.ofEntries entries)

/-- The entries that stand for those of a tree. -/
def Value.ofEntries : List (String × Tree) → List (String × Value)
  | [] => []
  | (name, value) :: rest => (name, Value.ofTree value) :: Value.ofEntries rest
end

variable {c : Char} {cs rest text : List Char} {fuel level outer : Nat} {name : String}
  {names : List String} {piece : Piece} {pieces : List Piece} {v : Value} {vs : List Value}
  {more : List Char} {found : List (List Piece × Value)} {entries : List (String × Value)}

/-! ## White space -/

theorem skipSpace_newLine (level : Nat) (rest : List Char) :
    skipSpace (newLine level ++ rest) = skipSpace rest := by
  rw [newLine, skipSpace, skipSpace, List.dropWhile_append_of_pos]
  intro c hc
  rcases List.mem_cons.1 hc with rfl | hc
  · rfl
  · rw [List.eq_of_mem_replicate hc]
    rfl

theorem skipSpace_of_not_isSpace (h : isSpace c = false) : skipSpace (c :: rest) = c :: rest := by
  rw [skipSpace, List.dropWhile_cons_of_neg (by simp [h])]

theorem skipSpace_skipSpace (cs : List Char) : skipSpace (skipSpace cs) = skipSpace cs :=
  List.dropWhile_idempotent _ _

theorem value?_skipSpace : value? fuel (skipSpace cs) = value? fuel cs := by
  cases fuel with
  | zero => rfl
  | succ fuel => rw [value?, skipSpace_skipSpace, value?]

theorem items?_skipSpace : items? fuel (skipSpace cs) = items? fuel cs := by
  cases fuel with
  | zero => rfl
  | succ fuel => rw [items?, value?_skipSpace, items?]

theorem entries?_skipSpace : entries? fuel (skipSpace cs) = entries? fuel cs := by
  cases fuel with
  | zero => rfl
  | succ fuel => rw [entries?, skipSpace_skipSpace, entries?]

/-! ## Strings -/

/-- How the character `c` is written in a string, and the piece that it is read as: it stands for
itself, or it is written by a letter or by its number. -/
inductive Escaped (c : Char) : List Char → Piece → Prop where
  | plain : 0x20 ≤ c.toNat → c ≠ '"' → c ≠ '\\' → Escaped c [c] (.character c)
  | letter {l} : l ≠ 'u' → shortEscape? l = some c → Escaped c ['\\', l] (.character c)
  | number : c.toNat < 0x20 → Escaped c
      ['\\', 'u', '0', '0', hexDigit (c.toNat / 16), hexDigit (c.toNat % 16)] (.unit c.toNat)

theorem exists_escaped (c : Char) : ∃ piece, Escaped c (escape c) piece := by
  unfold escape
  split
  · exact ⟨_, .letter (by decide) rfl⟩
  · exact ⟨_, .letter (by decide) rfl⟩
  · exact ⟨_, .letter (by decide) rfl⟩
  · exact ⟨_, .letter (by decide) rfl⟩
  · exact ⟨_, .letter (by decide) rfl⟩
  · rename_i hquote hslash _ _ _
    split
    · rename_i h
      exact ⟨_, .letter (by decide) (by rw [← Char.ofNat_toNat c, h]; rfl)⟩
    split
    · rename_i h
      exact ⟨_, .letter (by decide) (by rw [← Char.ofNat_toNat c, h]; rfl)⟩
    split
    · rename_i h
      exact ⟨_, .number h⟩
    · rename_i h
      exact ⟨_, .plain (Nat.le_of_not_lt h) hquote hslash⟩

theorem unit?_hexDigit : ∀ n < 32,
    unit? '0' '0' (hexDigit (n / 16)) (hexDigit (n % 16)) = some n := by
  decide

theorem Escaped.stringRest? (h : Escaped c text piece) : Json.stringRest? (text ++ rest) =
    (Json.stringRest? rest).map fun (pieces, after) => (piece :: pieces, after) := by
  cases h with
  | plain hc hquote hslash =>
    have hn : ¬c.toNat < 0x20 := Nat.not_lt.2 hc
    simp [Json.stringRest?, hn, hslash]
    cases Json.stringRest? rest <;> rfl
  | letter hl hc =>
    simp [Json.stringRest?, hc, hl]
    cases Json.stringRest? rest <;> rfl
  | number hc =>
    simp [Json.stringRest?, unit?_hexDigit _ hc]
    cases Json.stringRest? rest <;> rfl

theorem Escaped.text? (h : Escaped c text piece) :
    Json.text? (piece :: pieces) = (Json.text? pieces).map (c :: ·) := by
  cases h with
  | plain => rfl
  | letter => rfl
  | number hc =>
    have hsingle : single? c.toNat = some c := by
      rw [single?, if_neg (by omega), Char.ofNat_toNat]
    simp [Json.text?, hsingle]

/-- What is written between quotation marks is read as pieces that make up the same text. -/
theorem exists_stringRest? (cs rest : List Char) : ∃ pieces,
    stringRest? (cs.flatMap escape ++ '"' :: rest) = some (pieces, rest) ∧
      text? pieces = some cs := by
  induction cs with
  | nil => exact ⟨[], rfl, rfl⟩
  | cons c cs ih =>
    obtain ⟨pieces, hrest, htext⟩ := ih
    obtain ⟨piece, hpiece⟩ := exists_escaped c
    refine ⟨piece :: pieces, ?_, ?_⟩
    · rw [List.flatMap_cons, List.append_assoc, hpiece.stringRest?, hrest]
      rfl
    · rw [hpiece.text?, htext]
      rfl

theorem quoted_append (name : String) (rest : List Char) :
    quoted name ++ rest = '"' :: (name.toList.flatMap escape ++ '"' :: rest) := by
  simp [quoted]

theorem value?_quoted (name : String) (rest : List Char) :
    value? (fuel + 1) (quoted name ++ rest) = some (.text name, rest) := by
  obtain ⟨pieces, hrest, htext⟩ := exists_stringRest? name.toList rest
  rw [quoted_append, value?, skipSpace_of_not_isSpace rfl]
  simp [hrest, stringValue, htext]

/-! ## Collections -/

theorem block_append (opening closing : Char) (level : Nat) (item : List Char)
    (items : List (List Char)) (rest : List Char) :
    block opening closing level (item :: items) ++ rest =
      opening :: (newLine (level + 1) ++
        (List.intercalate (',' :: newLine (level + 1)) (item :: items) ++
          (newLine level ++ closing :: rest))) := by
  simp [block]

theorem items?_last (h : value? fuel cs = some (v, newLine level ++ ']' :: rest)) :
    items? (fuel + 1) cs = some ([v], rest) := by
  have hclose : skipSpace (newLine level ++ ']' :: rest) = ']' :: rest := by
    rw [skipSpace_newLine, skipSpace_of_not_isSpace rfl]
  simp [items?, h, hclose]

theorem items?_cons (h : value? fuel cs = some (v, ',' :: (newLine level ++ more)))
    (hmore : items? fuel more = some (vs, rest)) : items? (fuel + 1) cs = some (v :: vs, rest) := by
  have hcomma : skipSpace (',' :: (newLine level ++ more)) = ',' :: (newLine level ++ more) :=
    skipSpace_of_not_isSpace rfl
  rw [← items?_skipSpace, ← skipSpace_newLine level, items?_skipSpace] at hmore
  simp [items?, h, hcomma, hmore]

theorem items?_quoted (hfuel : (List.intercalate (',' :: newLine level)
    ((name :: names).map quoted)).length ≤ fuel) :
    items? fuel (List.intercalate (',' :: newLine level) ((name :: names).map quoted) ++
      (newLine outer ++ ']' :: rest)) = some ((name :: names).map .text, rest) := by
  induction names generalizing name fuel with
  | nil =>
    rw [List.map_singleton, List.intercalate_singleton] at hfuel ⊢
    obtain ⟨fuel, rfl⟩ : ∃ n, fuel = n + 2 := ⟨fuel - 2, by simp [quoted] at hfuel; omega⟩
    exact items?_last (value?_quoted name _)
  | cons next names ih =>
    rw [List.map_cons, List.map_cons, List.intercalate_cons_cons, ← List.map_cons] at hfuel ⊢
    rw [List.append_assoc, List.append_assoc]
    simp only [List.length_append, List.length_cons, quoted] at hfuel
    obtain ⟨fuel, rfl⟩ : ∃ n, fuel = n + 2 := ⟨fuel - 2, by omega⟩
    exact items?_cons (value?_quoted name _) (ih (by omega))

theorem quoted_colon (name : String) (cs : List Char) :
    quoted name ++ [':', ' '] ++ cs = quoted name ++ ':' :: ' ' :: cs := by
  rw [List.append_assoc, List.cons_append, List.singleton_append]

theorem objectValue_cons (hname : text? pieces = some name.toList)
    (h : objectValue found = .object entries) :
    objectValue ((pieces, v) :: found) = .object ((name, v) :: entries) := by
  unfold objectValue at h ⊢
  split at h
  · rename_i hfound
    cases h
    simp [hname, hfound]
  · cases h

theorem value?_space (h : value? fuel cs = some (v, rest)) :
    value? fuel (' ' :: cs) = some (v, rest) := by
  rw [← value?_skipSpace, skipSpace, List.dropWhile_cons_of_pos rfl, ← skipSpace,
    value?_skipSpace, h]

theorem exists_entries?_last (name : String)
    (h : value? fuel cs = some (v, newLine level ++ '\x7d' :: rest)) :
    ∃ found, objectValue found = .object [(name, v)] ∧
      entries? (fuel + 1) (quoted name ++ ':' :: ' ' :: cs) = some (found, rest) := by
  obtain ⟨pieces, hpieces, htext⟩ := exists_stringRest? name.toList (':' :: ' ' :: cs)
  have hcolon : skipSpace (':' :: ' ' :: cs) = ':' :: ' ' :: cs := skipSpace_of_not_isSpace rfl
  have hclose : skipSpace (newLine level ++ '\x7d' :: rest) = '\x7d' :: rest := by
    rw [skipSpace_newLine, skipSpace_of_not_isSpace rfl]
  refine ⟨[(pieces, v)], objectValue_cons htext rfl, ?_⟩
  rw [quoted_append, entries?, skipSpace_of_not_isSpace rfl]
  simp [hpieces, hcolon, value?_space h, hclose]

theorem exists_entries?_cons (name : String)
    (h : value? fuel cs = some (v, ',' :: (newLine level ++ more)))
    (hentries : objectValue found = .object entries)
    (hmore : entries? fuel more = some (found, rest)) :
    ∃ found, objectValue found = .object ((name, v) :: entries) ∧
      entries? (fuel + 1) (quoted name ++ ':' :: ' ' :: cs) = some (found, rest) := by
  obtain ⟨pieces, hpieces, htext⟩ := exists_stringRest? name.toList (':' :: ' ' :: cs)
  have hcolon : skipSpace (':' :: ' ' :: cs) = ':' :: ' ' :: cs := skipSpace_of_not_isSpace rfl
  have hcomma : skipSpace (',' :: (newLine level ++ more)) = ',' :: (newLine level ++ more) :=
    skipSpace_of_not_isSpace rfl
  rw [← entries?_skipSpace, ← skipSpace_newLine level, entries?_skipSpace] at hmore
  refine ⟨(pieces, v) :: found, objectValue_cons htext hentries, ?_⟩
  rw [quoted_append, entries?, skipSpace_of_not_isSpace rfl]
  simp [hpieces, hcolon, value?_space h, hcomma, hmore]

theorem head?_intercalate (name : String) (more sep rest : List Char) (items : List (List Char)) :
    (List.intercalate sep ((quoted name ++ more) :: items) ++ rest).head? = some '"' := by
  rw [quoted, List.cons_append, List.intercalate_cons_cons_left]
  rfl

theorem value?_list (hcs : cs.head? = some '"') (h : items? fuel cs = some (vs, rest)) :
    value? (fuel + 1) ('[' :: (newLine level ++ cs)) = some (.list vs, rest) := by
  obtain ⟨cs, rfl⟩ := List.head?_eq_some_iff.1 hcs
  have hfirst : skipSpace (newLine level ++ '"' :: cs) = '"' :: cs := by
    rw [skipSpace_newLine, skipSpace_of_not_isSpace rfl]
  rw [value?, skipSpace_of_not_isSpace rfl]
  simp [hfirst, h]

theorem value?_object (hcs : cs.head? = some '"') (h : entries? fuel cs = some (found, rest)) :
    value? (fuel + 1) ('\x7b' :: (newLine level ++ cs)) = some (objectValue found, rest) := by
  obtain ⟨cs, rfl⟩ := List.head?_eq_some_iff.1 hcs
  have hfirst : skipSpace (newLine level ++ '"' :: cs) = '"' :: cs := by
    rw [skipSpace_newLine, skipSpace_of_not_isSpace rfl]
  rw [value?, skipSpace_of_not_isSpace rfl]
  simp [hfirst, h]

mutual
/-- A tree in front of any text is read as its value, and the text is left. -/
theorem value?_treeText : ∀ (t : Tree) (level fuel : Nat) (rest : List Char),
    (treeText level t).length ≤ fuel →
      value? fuel (treeText level t ++ rest) = some (Value.ofTree t, rest)
  | .text name, level, fuel, rest, hfuel => by
    rw [treeText, quoted, List.length_cons] at hfuel
    obtain ⟨fuel, rfl⟩ : ∃ n, fuel = n + 1 := ⟨fuel - 1, by omega⟩
    rw [treeText, value?_quoted, Value.ofTree]
  | .texts [], level, fuel, rest, hfuel => by
    rw [treeText, List.map_nil, block, List.length_cons] at hfuel
    obtain ⟨fuel, rfl⟩ : ∃ n, fuel = n + 1 := ⟨fuel - 1, by omega⟩
    rfl
  | .texts (name :: names), level, fuel, rest, hfuel => by
    rw [treeText, List.map_cons, ← List.append_nil (block ..), block_append] at hfuel
    simp only [List.length_cons, List.length_append] at hfuel
    obtain ⟨fuel, rfl⟩ : ∃ n, fuel = n + 1 := ⟨fuel - 1, by omega⟩
    rw [treeText, List.map_cons, block_append, Value.ofTree]
    refine value?_list ?_ (items?_quoted (by rw [List.map_cons]; omega))
    rw [← List.append_nil (quoted name), head?_intercalate]
  | .map [], level, fuel, rest, hfuel => by
    rw [treeText, entryTexts, block, List.length_cons] at hfuel
    obtain ⟨fuel, rfl⟩ : ∃ n, fuel = n + 1 := ⟨fuel - 1, by omega⟩
    rfl
  | .map ((name, t) :: entries), level, fuel, rest, hfuel => by
    rw [treeText, entryTexts, ← List.append_nil (block ..), block_append] at hfuel
    simp only [List.length_cons, List.length_append] at hfuel
    obtain ⟨fuel, rfl⟩ : ∃ n, fuel = n + 1 := ⟨fuel - 1, by omega⟩
    obtain ⟨found, hvalue, hfound⟩ := exists_entries? ((name, t) :: entries) (level + 1) level fuel
      rest (List.cons_ne_nil _ _) (by rw [entryTexts]; omega)
    rw [treeText, entryTexts, block_append, Value.ofTree, ← hvalue]
    rw [entryTexts] at hfound
    refine value?_object ?_ hfound
    rw [List.append_assoc, head?_intercalate]

theorem exists_entries? : ∀ (es : List (String × Tree)) (level outer fuel : Nat)
    (rest : List Char), es ≠ [] →
    (List.intercalate (',' :: newLine level) (entryTexts level es)).length ≤ fuel →
      ∃ found, objectValue found = .object (Value.ofEntries es) ∧
        entries? fuel (List.intercalate (',' :: newLine level) (entryTexts level es) ++
          (newLine outer ++ '\x7d' :: rest)) = some (found, rest)
  | [], _, _, _, _, hne, _ => absurd rfl hne
  | [(name, t)], level, outer, fuel, rest, _, hfuel => by
    rw [entryTexts, entryTexts, List.intercalate_singleton, quoted_colon] at hfuel ⊢
    simp only [List.length_append, List.length_cons, quoted] at hfuel
    obtain ⟨fuel, rfl⟩ : ∃ n, fuel = n + 1 := ⟨fuel - 1, by omega⟩
    rw [List.append_assoc, List.cons_append, List.cons_append]
    exact exists_entries?_last name (value?_treeText t level fuel _ (by omega))
  | (name, t) :: (name', t') :: es, level, outer, fuel, rest, _, hfuel => by
    rw [entryTexts, entryTexts, List.intercalate_cons_cons, ← entryTexts, quoted_colon] at hfuel ⊢
    simp only [List.length_append, List.length_cons, quoted] at hfuel
    obtain ⟨fuel, rfl⟩ : ∃ n, fuel = n + 1 := ⟨fuel - 1, by omega⟩
    obtain ⟨found, hfound, hmore⟩ := exists_entries? ((name', t') :: es) level outer fuel rest
      (List.cons_ne_nil _ _) (by omega)
    simp only [List.append_assoc, List.cons_append]
    exact exists_entries?_cons name (value?_treeText t level fuel _ (by omega)) hfound hmore
end

/-- The text of a tree is read as the value that stands for it. -/
theorem read?_render (t : Tree) : read? (render t) = some (Value.ofTree t) := by
  have h := value?_treeText t 0 (2 * (treeText 0 t).length + 2) [] (by omega)
  rw [List.append_nil] at h
  rw [read?, render, String.toList_ofList, h]
  rfl

/-! ## Values as data -/

theorem Value.ofEntries_eq_map (entries : List (String × Tree)) :
    ofEntries entries = entries.map fun e => (e.1, ofTree e.2) := by
  induction entries with
  | nil => rfl
  | cons e entries ih => rw [ofEntries, ih, List.map_cons]

/-- Values present the trees that they stand for: none of them is `null`. -/
theorem format_presents : format.Presents Value.ofTree where
  text? text := by
    rw [Value.ofTree]
    rfl
  items? texts := by
    rw [Value.ofTree]
    simp only [Value.ofTree]
    rfl
  entries? entries := by
    rw [Value.ofTree, Value.ofEntries_eq_map]
    rfl
  record? entries := by
    rw [Value.ofTree, Value.ofEntries_eq_map]
    rfl
  optional? t := by
    cases t <;> (rw [Value.ofTree]; rfl)

end ApiModels.Json
