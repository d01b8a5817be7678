import ApiModels.Proofs.Yaml.Indentation

/-!
# The header and the end of a block scalar

The header of a literal scalar says how far its lines are indented if the first of them does not
show it, and how many of the line breaks at the end are part of the text (`literalHeader_eq`). The
reader takes both for what they are written for: no line break at the end of a text is lost or added
(`chompingOf_oneLine`, `ending_chompingOf`, `chompingOf_breaks`).
-/

namespace ApiModels.Yaml

variable {q : Position} {c : Char} {cs as bs word more : List Char}

/-! ## The header -/

/-- What becomes of the line breaks at the end of a text when it is written. -/
def chompingOf (cs : List Char) : Chomping :=
  match cs.reverse with
  | [] => .strip
  | [c] => if isBreak c then .keep else .strip
  | c :: d :: _ => if !isBreak c then .strip else if isBreak d then .keep else .clip

/-- The mark for a chomping. -/
def Chomping.text : Chomping → List Char
  | .strip => ['-']
  | .clip => []
  | .keep => ['+']

/-- Whether the first line does not show the indentation of a text. -/
def needsHint (cs : List Char) : Bool := cs.head?.any fun c => c = ' ' || isBreak c

theorem literalHeader_eq (cs : List Char) :
    literalHeader cs = (if needsHint cs then ['2'] else []) ++ (chompingOf cs).text := by
  unfold literalHeader chompingOf
  dsimp only
  congr 1
  · cases cs <;> simp [needsHint]
  · rcases cs.reverse with _ | ⟨c, _ | ⟨d, _⟩⟩
    · rfl
    · cases hc : isBreak c <;> simp [hc, Chomping.text]
    · cases hc : isBreak c <;> cases hd : isBreak d <;> simp [hc, hd, Chomping.text]

/-- The header says what it is written for. -/
theorem blockHeader?_text (hint : Bool) (chomping : Chomping) (rest : List Char) :
    blockHeader? (q.glyphs ((if hint then ['2'] else []) ++ chomping.text ++ '\n' :: rest)) =
      some (chomping, if hint then some 2 else none,
        (q.after ((if hint then ['2'] else []) ++ chomping.text ++ ['\n'])).glyphs rest) := by
  cases hint <;> cases chomping <;>
  · simp only [Chomping.text, if_true, Bool.false_eq_true, if_false, List.cons_append,
      List.nil_append]
    repeat rw [Position.glyphs_cons rfl]
    rfl

/-! ## The end of a text -/

/-- The line breaks at the end of a block scalar that a chomping keeps. -/
def Chomping.ending (chomping : Chomping) (last : LineGap) : List Char :=
  match chomping with
  | .strip => []
  | .clip => last.first
  | .keep => last.first ++ last.more

/-- The line break that ends the last line of a text unless the text does so. -/
def lineEnd (cs : List Char) : List Char := if cs.getLast?.any isBreak then [] else ['\n']

theorem chompingOf_append (hbegins : Begins (isBreak · = false) bs) (hne : bs ≠ []) :
    chompingOf (as ++ bs) = chompingOf bs := by
  have hreverse : bs.reverse ≠ [] := mt List.reverse_eq_nil_iff.1 hne
  rw [chompingOf, chompingOf, List.reverse_append]
  rcases hbs : bs.reverse with _ | ⟨c, _ | ⟨d, tail⟩⟩
  · exact absurd hbs hreverse
  · have hc : isBreak c = false := by
      obtain rfl : bs = [c] := by simpa using congrArg List.reverse hbs
      exact hbegins c rfl
    cases has : as.reverse <;> simp [hc]
  · rfl

/-- No line break at the end of a text is left over. -/
theorem chompingOf_oneLine (h : OneLine cs) : chompingOf cs = .strip := by
  have hmem : ∀ c ∈ cs.reverse, isBreak c = false := fun c hc => h c (List.mem_reverse.1 hc)
  rw [chompingOf]
  rcases hcs : cs.reverse with _ | ⟨c, _ | ⟨d, tail⟩⟩
  · rfl
  all_goals
    have hc : isBreak c = false := hmem c (hcs ▸ List.mem_cons_self)
    simp [hc]

/-- All line breaks at the end of a text are kept. -/
theorem ending_chompingOf {afterBlank : Bool} (hword : OneLine word) (hne : word ≠ [])
    (hbreaks : ∀ d ∈ c :: more, isBreak d = true) :
    (chompingOf (word ++ c :: more)).ending ⟨[c], more, afterBlank⟩ = c :: more := by
  have hbreaks' : ∀ d ∈ (c :: more).reverse, isBreak d = true :=
    fun d hd => hbreaks d (List.mem_reverse.1 hd)
  rw [chompingOf, List.reverse_append]
  rcases hgap : (c :: more).reverse with _ | ⟨d, _ | ⟨e, tail⟩⟩
  · simp at hgap
  · obtain ⟨rfl, rfl⟩ : c = d ∧ more = [] := by
      simpa using congrArg List.reverse hgap
    obtain ⟨e, tail, hreverse⟩ := List.exists_cons_of_ne_nil (mt List.reverse_eq_nil_iff.1 hne)
    have he : isBreak e = false := hword e (List.mem_reverse.1 (hreverse ▸ List.mem_cons_self))
    have hc : isBreak c = true := hbreaks c List.mem_cons_self
    simp [hreverse, he, hc, Chomping.ending]
  · have hd : isBreak d = true := hbreaks' d (by simp [hgap])
    have he : isBreak e = true := hbreaks' e (by simp [hgap])
    simp [hd, he, Chomping.ending]

/-- Line breaks without a line in front of them are kept. -/
theorem chompingOf_breaks (h : ∀ c ∈ cs, isBreak c = true) (hne : cs ≠ []) :
    chompingOf cs = .keep := by
  have hmem : ∀ c ∈ cs.reverse, isBreak c = true := fun c hc => h c (List.mem_reverse.1 hc)
  rw [chompingOf]
  rcases hcs : cs.reverse with _ | ⟨c, _ | ⟨d, tail⟩⟩
  · exact absurd (List.reverse_eq_nil_iff.1 hcs) hne
  · simp [hmem c (by simp [hcs])]
  · simp [hmem c (by simp [hcs]), hmem d (by simp [hcs])]

theorem needsHint_of_break (h : ∀ c ∈ cs, isBreak c = true) (hne : cs ≠ []) :
    needsHint cs = true := by
  obtain ⟨c, cs, rfl⟩ := List.exists_cons_of_ne_nil hne
  simp [needsHint, h c List.mem_cons_self]

theorem lineEnd_oneLine (h : OneLine cs) : lineEnd cs = ['\n'] := by
  rw [lineEnd]
  cases hlast : cs.getLast? with
  | none => rfl
  | some c => exact if_neg (by simp [h c (List.mem_of_getLast? hlast)])

theorem lineEnd_breaks (h : ∀ c ∈ cs, isBreak c = true) (hne : cs ≠ []) : lineEnd cs = [] := by
  rw [lineEnd, List.getLast?_eq_some_getLast hne]
  exact if_pos (h _ (List.getLast_mem hne))

theorem lineEnd_append (hne : bs ≠ []) : lineEnd (as ++ bs) = lineEnd bs := by
  rw [lineEnd, List.getLast?_append_of_ne_nil as hne, lineEnd]

theorem clean_lineEnd : Clean (lineEnd cs) := by
  rw [lineEnd]
  split
  · exact Clean.nil
  · exact Clean.cons.2 ⟨rfl, Clean.nil⟩

theorem column_after_lineEnd (q : Position) (cs : List Char) :
    (q.after (cs ++ lineEnd cs)).column = 0 := by
  rw [lineEnd]
  split
  case isTrue hlast =>
    rcases List.eq_nil_or_concat cs with rfl | ⟨init, c, rfl⟩
    · cases hlast
    · have hc : isBreak c = true := by simpa using hlast
      rw [List.append_nil, List.concat_eq_append, Position.after_append]
      exact (Position.next_of_break hc).2
  case isFalse =>
    rw [Position.after_append]
    exact (Position.next_of_break (c := '\n') rfl).2

end ApiModels.Yaml
