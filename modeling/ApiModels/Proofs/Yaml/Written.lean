import ApiModels.Proofs.Yaml.Styles

/-!
# Written scalars

Whatever its style, a scalar is written without special characters, begins with a character that is
neither white space nor the mark of a comment, and stays on the lines of its text. As a key it takes
up at most four times the bytes of its text and two for its marks.
-/

namespace ApiModels.Yaml

open Position (bytes bytes_nil bytes_cons bytes_append bytes_flatMap_le)

variable {c : Char} {cs : List Char} {text : String} {style : Style} {n : Nat}

/-! ## Bytes -/

theorem bytes_hexDigits {width : Nat} : bytes (hexDigits width n) = width := by
  have hdigit : ∀ d < 16, (Nat.digitChar d).toUpper.utf8Size = 1 := by decide
  induction width generalizing n with
  | zero => rfl
  | succ width ih =>
    rw [hexDigits, bytes_append, ih, bytes_cons, bytes_nil, hdigit _ (Nat.mod_lt _ (by decide))]

theorem two_le_utf8Size (h : 0xFF < c.toNat) : 2 ≤ c.utf8Size := by
  rw [Char.utf8Size]
  split
  case isTrue hle =>
    have hle : c.toNat ≤ 127 := UInt32.le_iff_toNat_le.1 hle
    omega
  case isFalse =>
    split
    · exact Nat.le_refl _
    · split <;> decide

theorem bytes_escape_le (c : Char) : bytes (escape c) ≤ 4 * c.utf8Size := by
  have hpos := c.utf8Size_pos
  unfold escape
  split
  case h_15 =>
    split
    · split
      · have hbytes : bytes ('\\' :: 'x' :: hexDigits 2 c.toNat) = 4 := by
          rw [bytes_cons, bytes_cons, bytes_hexDigits]
          rfl
        omega
      · rename_i hbig
        have hbytes : bytes ('\\' :: 'u' :: hexDigits 4 c.toNat) = 6 := by
          rw [bytes_cons, bytes_cons, bytes_hexDigits]
          rfl
        have := two_le_utf8Size (Nat.lt_of_not_le hbig)
        omega
    · rw [bytes_cons, bytes_nil]
      omega
  all_goals
    refine Nat.le_trans (Nat.le_of_eq rfl : _ ≤ 2) ?_
    omega

theorem bytes_doubled_le (c : Char) : bytes (doubled c) ≤ 2 * c.utf8Size := by
  rw [doubled]
  split <;> simp only [bytes_cons, bytes_nil] <;> omega

/-! ## Scalars -/

theorem scalarText_singleQuoted : scalarText n .singleQuoted text =
    '\'' :: (singleText n text.toList ++ ['\'']) := rfl

theorem clean_literalHeader : Clean (literalHeader cs) := by
  rw [literalHeader_eq, Clean.append]
  constructor
  · split
    · exact Clean.cons.2 ⟨rfl, Clean.nil⟩
    · exact Clean.nil
  · cases chompingOf cs
    · exact Clean.cons.2 ⟨rfl, Clean.nil⟩
    · exact Clean.nil
    · exact Clean.cons.2 ⟨rfl, Clean.nil⟩

theorem clean_scalarText (h : style.Holds text) : Clean (scalarText n style text) := by
  have hmark : ∀ {c : Char} {cs : List Char}, isSpecial c = false → Clean cs →
      Clean (c :: (cs ++ [c])) :=
    fun hc hcs => Clean.cons.2 ⟨hc, Clean.append.2 ⟨hcs, Clean.cons.2 ⟨hc, Clean.nil⟩⟩⟩
  cases h with
  | plain _ _ _ hsafe => exact hsafe.clean
  | singleQuoted hsafe => exact hmark rfl (clean_singleText hsafe.clean)
  | doubleQuoted => exact hmark rfl clean_flatMap_escape
  | literal _ _ hclean =>
    exact Clean.cons.2 ⟨rfl, Clean.append.2 ⟨clean_literalHeader,
      Clean.cons.2 ⟨rfl, clean_indentLines hclean⟩⟩⟩

/-- A scalar begins with a character that is seen at once. -/
theorem exists_scalarText_eq_cons (h : style.Holds text) :
    ∃ c cs, scalarText n style text = c :: cs ∧ Solid c ∧ c ≠ '#' := by
  cases h with
  | plain hne _ hfirst hsafe =>
    obtain ⟨c, cs, hcs⟩ := List.exists_cons_of_ne_nil hne
    have hc : c ∈ text.toList.head? := by rw [hcs]; rfl
    have hmem : c ∈ text.toList := List.mem_of_mem_head? hc
    obtain ⟨hspace, hcomment⟩ := hsafe.first c hc
    exact ⟨c, cs, hcs, ⟨hsafe.clean c hmem, hspace, hsafe.oneLine c hmem⟩, hcomment⟩
  | singleQuoted => exact ⟨_, _, rfl, ⟨rfl, by decide, rfl⟩, by decide⟩
  | doubleQuoted => exact ⟨_, _, rfl, ⟨rfl, by decide, rfl⟩, by decide⟩
  | literal => exact ⟨_, _, rfl, ⟨rfl, by decide, rfl⟩, by decide⟩

theorem endLine_eq (cs : List Char) : endLine cs = cs ++ lineEnd cs := by
  rw [endLine, lineEnd]
  split
  · rw [List.append_nil]
  · rfl

theorem lineEnd_indentLines {atStart : Bool} : lineEnd (indentLines n atStart cs) = lineEnd cs := by
  rw [lineEnd, getLast?_indentLines, lineEnd]

/-- The line that ends a text ends the literal scalar that holds it. -/
theorem lineEnd_literal {as : List Char} {atStart : Bool} (hne : cs ≠ []) :
    lineEnd (as ++ indentLines n atStart cs) = lineEnd cs := by
  have hne' : indentLines n atStart cs ≠ [] := by
    intro hnil
    have hlast : (indentLines n atStart cs).getLast? = cs.getLast? := getLast?_indentLines
    rw [hnil, List.getLast?_nil] at hlast
    exact hne (List.getLast?_eq_none_iff.1 hlast.symm)
  rw [lineEnd_append hne', lineEnd_indentLines]

/-! ## Scalars on one line -/

theorem oneLine_scalarText (h : style.Holds text) (hline : OneLine text.toList) :
    OneLine (scalarText n style text) := by
  have hmark : ∀ {c : Char} {cs : List Char}, isBreak c = false → OneLine cs →
      OneLine (c :: (cs ++ [c])) :=
    fun hc hcs => OneLine.cons.2 ⟨hc, OneLine.append.2 ⟨hcs, OneLine.cons.2 ⟨hc, OneLine.nil⟩⟩⟩
  cases h with
  | plain => exact hline
  | singleQuoted =>
    rw [scalarText_singleQuoted, singleText_oneLine hline]
    exact hmark rfl fun c hc => hline c (mem_flatMap_doubled.1 hc)
  | doubleQuoted => exact hmark rfl oneLine_flatMap_escape
  | literal _ hfeed => exact absurd (hline _ hfeed) (by decide)

/-- The marks of a scalar take up at most four times the bytes of its text and two more. -/
theorem bytes_scalarText_le (h : style.Holds text) (hline : OneLine text.toList) :
    bytes (scalarText n style text) ≤ 4 * bytes text.toList + 2 := by
  have hmark : ∀ {c : Char} {cs : List Char}, c.utf8Size = 1 →
      bytes (c :: (cs ++ [c])) = bytes cs + 2 := by
    intro c cs hc
    rw [bytes_cons, bytes_append, bytes_cons, bytes_nil, hc]
    omega
  cases h with
  | plain =>
    rw [scalarText]
    omega
  | singleQuoted =>
    rw [scalarText_singleQuoted, singleText_oneLine hline, hmark rfl]
    have : bytes (text.toList.flatMap doubled) ≤ 2 * bytes text.toList :=
      bytes_flatMap_le bytes_doubled_le
    omega
  | doubleQuoted =>
    rw [scalarText, hmark rfl]
    have : bytes (text.toList.flatMap escape) ≤ 4 * bytes text.toList :=
      bytes_flatMap_le bytes_escape_le
    omega
  | literal _ hfeed => exact absurd (hline _ hfeed) (by decide)

end ApiModels.Yaml
