import ApiModels.Proofs.Yaml.Quoted
import Mathlib.Algebra.Group.Nat.Defs

/-!
# Reading double-quoted scalars back

In double quotation marks every character is written as it is or has an escape (`escape_spec`), and
only spaces are white space. Each escape is read as its character, whatever stands behind it
(`doublePart?_escape`), so every text is read back (`quoted?_double`).
-/

namespace ApiModels.Yaml

variable {p : Position} {c : Char} {cs word gap rest tail : List Char} {width n fuel : Nat}

/-! ## Numeric escapes -/

theorem digitValue?_digitChar :
    ∀ d < 16, digitValue? (Nat.digitChar d).toUpper = some d := by decide

theorem solid_digitChar {d : Nat} (hd : d < 16) : Solid (Nat.digitChar d).toUpper := by
  have hsolid : ∀ d < 16, isSpecial (Nat.digitChar d).toUpper = false ∧
      (Nat.digitChar d).toUpper ≠ ' ' ∧ isBreak (Nat.digitChar d).toUpper = false := by decide
  obtain ⟨hspecial, hspace, hbreak⟩ := hsolid d hd
  exact ⟨hspecial, hspace, hbreak⟩

theorem length_hexDigits : (hexDigits width n).length = width := by
  induction width generalizing n with
  | zero => rfl
  | succ width ih => rw [hexDigits, List.length_append, ih]; rfl

theorem solid_hexDigits : ∀ c ∈ hexDigits width n, Solid c := by
  induction width generalizing n with
  | zero => exact fun _ h => nomatch h
  | succ width ih =>
    rw [hexDigits, List.forall_mem_append, List.forall_mem_singleton]
    exact ⟨ih, solid_digitChar (Nat.mod_lt _ (by decide))⟩

theorem natural?_hexDigits (hwidth : 0 < width) (hn : n < 16 ^ width) :
    natural? 16 (hexDigits width n) = some n := by
  have hne : ∀ width n, 0 < width → hexDigits width n ≠ [] := by
    intro width n hwidth hnil
    have := congrArg List.length hnil
    rw [length_hexDigits, List.length_nil] at this
    omega
  rw [natural?.eq_2 _ _ (hne width n hwidth)]
  clear hwidth
  induction width generalizing n with
  | zero =>
    rw [Nat.lt_one_iff.1 hn]
    rfl
  | succ width ih =>
    have hdiv : n / 16 < 16 ^ width := Nat.div_lt_of_lt_mul (by rwa [Nat.mul_comm, ← Nat.pow_succ])
    rw [hexDigits, List.foldl_append, ih hdiv]
    have hmod : n % 16 < 16 := Nat.mod_lt _ (by decide)
    simp only [List.foldl_cons, List.foldl_nil, Option.bind_eq_bind, Option.bind_some,
      digitValue?_digitChar _ hmod, if_pos hmod]
    rw [Nat.mul_comm, Nat.div_add_mod]

/-! ## Escapes -/

/-- How a character stands in double quotation marks. -/
inductive Escape (c : Char) : List Char → Prop where
  | itself : isSpecial c = false → isBreak c = false → c ≠ '"' → c ≠ '\\' → Escape c [c]
  | letter {e} : Solid e → escaped? e = some c → Escape c ['\\', e]
  | number {e digits} : Solid e → (∀ d ∈ digits, Solid d) → escaped? e = none →
    escapeWidth? e = some digits.length → natural? 16 digits = some c.toNat →
    Escape c ('\\' :: e :: digits)

theorem eq_ofNat_of_toNat {m : Nat} (h : c.toNat = m) : Char.ofNat m = c := by
  rw [← h, Char.ofNat_toNat]

theorem escape_spec (c : Char) : Escape c (escape c) := by
  have hletter : ∀ {m : Nat} {e : Char}, c.toNat = m → Solid e → escaped? e = some (Char.ofNat m) →
      Escape c ['\\', e] :=
    fun hm hsolid he => .letter hsolid (eq_ofNat_of_toNat hm ▸ he)
  unfold escape
  split
  case h_15 hfeed _ _ hreturn _ hmark hslash hnext hline hparagraph =>
    have hne : ∀ {d : Char}, (c.toNat = d.toNat → False) → c ≠ d := fun h heq => h (heq ▸ rfl)
    split
    case isTrue hspecial =>
      have hlt : c.toNat < 16 ^ 4 := by
        simp only [isSpecial, Bool.or_eq_true, Bool.and_eq_true, decide_eq_true_eq] at hspecial
        omega
      split
      · refine .number ⟨rfl, by decide, rfl⟩ solid_hexDigits rfl (length_hexDigits.symm ▸ rfl) ?_
        exact natural?_hexDigits (by decide) (by omega)
      · refine .number ⟨rfl, by decide, rfl⟩ solid_hexDigits rfl (length_hexDigits.symm ▸ rfl) ?_
        exact natural?_hexDigits (by decide) hlt
    case isFalse hspecial =>
      have hbreak : isBreak c = false := by
        simp [isBreak, hne (d := '\n') hfeed, hne (d := '\r') hreturn, mt hnext, mt hline,
          mt hparagraph]
      exact .itself (Bool.not_eq_true _ ▸ hspecial) hbreak (hne hmark) (hne hslash)
  all_goals exact hletter ‹_› ⟨rfl, by decide, rfl⟩ rfl

theorem Escape.solid (h : Escape c cs) (hc : c ≠ ' ') : ∀ d ∈ cs, Solid d := by
  have hslash : Solid '\\' := ⟨rfl, by decide, rfl⟩
  cases h with
  | itself hspecial hbreak => exact List.forall_mem_singleton.2 ⟨hspecial, hc, hbreak⟩
  | letter he => exact List.forall_mem_cons.2 ⟨hslash, List.forall_mem_singleton.2 he⟩
  | number he hdigits => exact List.forall_mem_cons.2 ⟨hslash, List.forall_mem_cons.2 ⟨he, hdigits⟩⟩

theorem Escape.ne_nil (h : Escape c cs) : cs ≠ [] := by
  cases h <;> exact List.cons_ne_nil _ _

/-- Escaped text is on one line and has no special characters. -/
theorem isSpecial_and_isBreak_of_mem_escape {d : Char} (h : d ∈ escape c) :
    isSpecial d = false ∧ isBreak d = false := by
  by_cases hc : c = ' '
  · subst hc
    rw [List.mem_singleton.1 h]
    exact ⟨rfl, rfl⟩
  · have hd := (escape_spec c).solid hc d h
    exact ⟨hd.notSpecial, hd.notBreak⟩

theorem clean_flatMap_escape : Clean (cs.flatMap escape) := by
  intro d hd
  obtain ⟨c, -, hd⟩ := List.mem_flatMap.1 hd
  exact (isSpecial_and_isBreak_of_mem_escape hd).1

theorem oneLine_flatMap_escape : OneLine (cs.flatMap escape) := by
  intro d hd
  obtain ⟨c, -, hd⟩ := List.mem_flatMap.1 hd
  exact (isSpecial_and_isBreak_of_mem_escape hd).2

/-! ## Scalars -/

/-- A character is read from its escape. -/
theorem doublePart?_escape (h : Escape c cs) (hc : c ≠ ' ') :
    doublePart? (p.glyphs (cs ++ tail)) =
      (doublePart? ((p.after cs).glyphs tail)).map fun (part, rest) => (c :: part, rest) := by
  cases h with
  | itself hspecial hbreak hmark hslash =>
    have hwhite : isWhite c = false := Solid.isWhite_eq_false ⟨hspecial, hc, hbreak⟩
    rw [List.singleton_append, Position.glyphs_cons hspecial, doublePart?.eq_def]
    simp [hwhite, hmark, hslash]
  | @letter e hsolid he =>
    rw [List.cons_append, List.singleton_append, Position.glyphs_cons rfl,
      Position.glyphs_cons hsolid.notSpecial, doublePart?.eq_def]
    simp [hsolid.notBreak, he, show isWhite '\\' = false from rfl]
  | @number e digits hsolid hdigits he hwidth hn =>
    have hdigits : Clean digits := fun d hd => (hdigits d hd).notSpecial
    rw [List.cons_append, List.cons_append, Position.glyphs_cons rfl,
      Position.glyphs_cons hsolid.notSpecial, Position.glyphs_append hdigits, doublePart?.eq_def]
    have hnumber : numbered? digits.length digits = some c := by
      rw [numbered?, hn, Option.bind_eq_bind, Option.bind_some, if_pos ⟨rfl, c.valid⟩,
        Char.ofNat_toNat]
    have hlength := Position.length_glyphs (p := (p.next '\\').next e) hdigits
    simp [hsolid.notBreak, he, hwidth, show isWhite '\\' = false from rfl]
    rw [Position.map_char_glyphs hdigits, List.take_left, hnumber, List.drop_left' hlength,
      Option.bind_some, Option.map_eq_bind]
    rfl

/-- A word is read up to a space or the closing mark. -/
theorem doublePart?_word (hword : ∀ c ∈ word, c ≠ ' ')
    (htail : doublePart? ((p.after (word.flatMap escape)).glyphs tail) =
      some ([], (p.after (word.flatMap escape)).glyphs tail)) :
    doublePart? (p.glyphs (word.flatMap escape ++ tail)) =
      some (word, (p.after (word.flatMap escape)).glyphs tail) := by
  induction word generalizing p with
  | nil => exact htail
  | cons c word ih =>
    obtain ⟨hc, hword⟩ := List.forall_mem_cons.1 hword
    rw [List.flatMap_cons, Position.after_append] at htail
    rw [List.flatMap_cons, List.append_assoc, doublePart?_escape (escape_spec c) hc, ih hword htail,
      Position.after_append]
    rfl

/-- The text behind a gap begins with a character that is neither special nor white space. -/
theorem begins_escape (h : Begins (· ≠ ' ') cs) :
    Begins Solid (cs.flatMap escape ++ '"' :: rest) := by
  cases cs with
  | nil => exact .of_cons ⟨rfl, by decide, rfl⟩
  | cons c cs =>
    have hsolid := (escape_spec c).solid (h c rfl)
    obtain ⟨d, ds, hds⟩ := List.exists_cons_of_ne_nil (escape_spec c).ne_nil
    rw [List.flatMap_cons, hds]
    exact .of_cons (hsolid d (hds ▸ List.mem_cons_self))

theorem quotedParts?_double (h : Words (· = ' ') cs) (hcolumn : 0 < p.column)
    (hfuel : (cs.flatMap escape).length < fuel) :
    quotedParts? .doubleQuoted fuel (p.glyphs (cs.flatMap escape ++ '"' :: rest)) =
      some (cs, ((p.after (cs.flatMap escape)).next '"').glyphs rest) := by
  have hword : ∀ {word : List Char}, (∀ c ∈ word, decide (c = ' ') = false) → ∀ c ∈ word, c ≠ ' ' :=
    fun h c hc => of_decide_eq_false (h c hc)
  have hstop : ∀ {q : Position} {c : Char} {tail : List Char}, c = ' ' ∨ c = '"' →
      doublePart? (q.glyphs (c :: tail)) = some ([], q.glyphs (c :: tail)) := by
    rintro q c tail (rfl | rfl) <;>
    · rw [Position.glyphs_cons rfl, doublePart?.eq_def]
      simp [show isWhite ' ' = true from rfl]
  induction h generalizing p fuel with
  | last hlast =>
    obtain ⟨fuel, rfl⟩ := Nat.exists_eq_succ_of_ne_zero (Nat.ne_zero_of_lt hfuel)
    exact quotedParts?_close hcolumn (doublePart?_word (hword hlast) (hstop (.inr rfl)))
  | @more word gap rest' hfirst hne hgap hbegins _ ih =>
    obtain ⟨fuel, rfl⟩ := Nat.exists_eq_succ_of_ne_zero (Nat.ne_zero_of_lt hfuel)
    have hspaces : ∀ c ∈ gap, c = ' ' := fun c hc => of_decide_eq_true (hgap c hc)
    have hclean : Clean gap := fun c hc => hspaces c hc ▸ rfl
    have hwritten : gap.flatMap escape = gap := flatMap_eq_self fun c hc => hspaces c hc ▸ rfl
    have hrest : Begins Solid (rest'.flatMap escape ++ '"' :: rest) :=
      begins_escape fun c hc => of_decide_eq_false (hbegins c hc)
    obtain ⟨c, gap, rfl⟩ := List.exists_cons_of_ne_nil hne
    have hpart : Style.part? .doubleQuoted (p.glyphs (word.flatMap escape ++
        ((c :: gap) ++ (rest'.flatMap escape ++ '"' :: rest)))) = some (word, _) :=
      doublePart?_word (hword hfirst) (hstop (.inl (hspaces c List.mem_cons_self)))
    rw [List.flatMap_append, List.flatMap_append, hwritten, List.append_assoc, List.append_assoc]
    rw [quotedParts?_gap hcolumn hne hclean (fun c hc => hspaces c hc ▸ rfl) hrest hpart]
    have hline : OneLine (word.flatMap escape ++ (c :: gap)) :=
      OneLine.append.2 ⟨oneLine_flatMap_escape, hwritten ▸ oneLine_flatMap_escape⟩
    have hcolumn' : 0 < ((p.after (word.flatMap escape)).after (c :: gap)).column :=
      Position.after_append ▸ Position.column_after_pos hline hcolumn
    have hfuel' : (rest'.flatMap escape).length < fuel := by
      rw [List.flatMap_append, List.flatMap_append, hwritten] at hfuel
      simp only [List.length_append, List.length_cons] at hfuel
      omega
    rw [ih hcolumn' hfuel', gapText_spaces hspaces, Option.map_some, ← Position.after_append,
      ← Position.after_append]
    simp only [List.append_assoc]

/-- Text in double quotation marks is read back. -/
theorem quoted?_double (hcolumn : 0 < p.column) :
    quoted? .doubleQuoted (p.glyphs (cs.flatMap escape ++ '"' :: rest)) =
      some (cs, ((p.after (cs.flatMap escape)).next '"').glyphs rest) := by
  refine quotedParts?_double (words _ cs) hcolumn ?_
  rw [Position.glyphs_append clean_flatMap_escape, List.length_append,
    Position.length_glyphs clean_flatMap_escape]
  omega

end ApiModels.Yaml
