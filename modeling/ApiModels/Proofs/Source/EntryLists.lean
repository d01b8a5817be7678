import ApiModels.Source.File

/-!
# Lists of entries

An entry of an attribute's list is a path alone, a path with a value, or a path with a nested list.
Entries with commas between them are read as they are written, however many there are
(`IsEntryList.entriesFrom_eq`), and so are the attributes that they stand in
(`outerAttributes_run`). A nested list has the same form (`IsEntryList.entries_run`).
-/

namespace ApiModels.Source

open Parse

variable {g : Grammar} {ts content rest : List Token} {e : Entry} {es : List Entry} {b : Bool}
  {first : Identifier} {names : List Identifier} {fuel : Nat}

/-! ## Repetition -/

theorem mark?_run (text : String) :
    (mark? text).run ⟨ts, b⟩ =
      some (Token.isMark text ts,
        ⟨if Token.isMark text ts then ts.drop text.length else ts, b⟩) := by
  cases h : Token.isMark text ts <;> simp [mark?, atMark, next, ahead, drop, h]

section

variable {α β : Type} {step : Parse (Option β)} {tokens : α → List Token} {value : α → β}
  {parts : List α}

theorem repeatFor_run
    (hstep : ∀ p ∈ parts, ∀ after,
      step.run ⟨tokens p ++ after, b⟩ = some (some (value p), ⟨after, b⟩))
    (hrest : step.run ⟨rest, b⟩ = some (none, ⟨rest, b⟩)) (hfuel : parts.length < fuel) :
    (repeatFor step fuel).run ⟨parts.flatMap tokens ++ rest, b⟩ =
      some (parts.map value, ⟨rest, b⟩) := by
  induction parts generalizing fuel with
  | nil =>
    obtain ⟨fuel, rfl⟩ := Nat.exists_eq_succ_of_ne_zero (Nat.ne_zero_of_lt hfuel)
    simp [repeatFor, hrest]
  | cons p parts ih =>
    obtain ⟨fuel, rfl⟩ := Nat.exists_eq_succ_of_ne_zero (Nat.ne_zero_of_lt hfuel)
    obtain ⟨hp, hparts⟩ := List.forall_mem_cons.1 hstep
    rw [List.flatMap_cons, List.append_assoc]
    simp [repeatFor, hp, ih hparts (Nat.lt_of_succ_lt_succ hfuel)]

theorem length_le_length_flatMap (hne : ∀ p ∈ parts, tokens p ≠ []) :
    parts.length ≤ (parts.flatMap tokens).length := by
  induction parts with
  | nil => exact Nat.le_refl _
  | cons p parts ih =>
    obtain ⟨hp, hparts⟩ := List.forall_mem_cons.1 hne
    rw [List.flatMap_cons, List.length_append, List.length_cons, Nat.add_comm]
    exact Nat.add_le_add (List.length_pos_iff.2 hp) (ih hparts)

/-- What is found again and again is found as often as it is there. -/
theorem many_run
    (hstep : ∀ p ∈ parts, ∀ after,
      step.run ⟨tokens p ++ after, b⟩ = some (some (value p), ⟨after, b⟩))
    (hne : ∀ p ∈ parts, tokens p ≠ [])
    (hrest : step.run ⟨rest, b⟩ = some (none, ⟨rest, b⟩)) :
    (many step).run ⟨parts.flatMap tokens ++ rest, b⟩ = some (parts.map value, ⟨rest, b⟩) := by
  refine repeatFor_run hstep hrest (Nat.lt_succ_of_le ?_)
  rw [List.length_append]
  exact Nat.le_add_right_of_le (length_le_length_flatMap hne)

end

/-! ## Paths -/

/-- The token of a name. -/
def Identifier.token (name : Identifier) : Token := .word name.text name.isRaw

/-- The tokens of a name behind another one. -/
def nameTokens (name : Identifier) : List Token := [.mark ':' true, .mark ':' false, name.token]

/-- The tokens of a path. -/
def pathTokens (first : Identifier) (names : List Identifier) : List Token :=
  first.token :: names.flatMap nameTokens

/-- A pair of colons and a name, if they come next. -/
def nextName? : Parse (Option Identifier) := do
  if ← mark? "::" then return some (← anyWord) else return none

theorem entryPath_eq : entryPath = do
    let _ ← mark? "::"
    let first ← anyWord
    let names ← many nextName?
    return first :: names := rfl

theorem entryPath_run (h : Token.isMark "::" rest = false) :
    entryPath.run ⟨pathTokens first names ++ rest, b⟩ = some (first :: names, ⟨rest, b⟩) := by
  have hlead : Token.isMark "::" (pathTokens first names ++ rest) = false := rfl
  have hfirst : anyWord.run ⟨pathTokens first names ++ rest, b⟩ =
      some (first, ⟨names.flatMap nameTokens ++ rest, b⟩) := rfl
  have hnames : (many nextName?).run ⟨names.flatMap nameTokens ++ rest, b⟩ =
      some (names.map id, ⟨rest, b⟩) := by
    refine many_run (fun _ _ _ => rfl) (fun _ _ => List.cons_ne_nil _ _) ?_
    simp [nextName?, mark?_run, h]
  simp [entryPath_eq, mark?_run, hlead, hfirst, hnames]

/-! ## Entries -/

/-- Tokens in front of which an entry may end: none, or a comma and what follows it. -/
inductive EndsEntry : List Token → Prop
  | nil : EndsEntry []
  | comma {isJoint : Bool} {rest : List Token} : EndsEntry (.mark ',' isJoint :: rest)

/-- Whether a parser takes all of `ts`, and makes `a` of it, wherever an entry may end behind it. -/
def Reads {α : Type} (p : Parse α) (ts : List Token) (a : α) : Prop :=
  ∀ rest b, EndsEntry rest → p.run ⟨ts ++ rest, b⟩ = some (a, ⟨rest, b⟩)

theorem Reads.run {α : Type} {p : Parse α} {a : α} (h : Reads p ts a) :
    p.run ⟨ts, b⟩ = some (a, ⟨[], b⟩) := by
  have hend := h [] b .nil
  rwa [List.append_nil] at hend

/-- The tokens of an entry: a path alone, a path with an expression, or a path with a nested list. -/
inductive IsEntry (g : Grammar) : List Token → Entry → Prop
  | flag {first : Identifier} {names : List Identifier} :
      IsEntry g (pathTokens first names) ⟨first :: names, .flag⟩
  | value {first : Identifier} {names : List Identifier} {isJoint : Bool} {ts : List Token}
      {value : Expression} (h : Reads (g (.expression true)) ts value) :
      IsEntry g (pathTokens first names ++ .mark '=' isJoint :: ts)
        ⟨first :: names, .value value.literal?⟩
  | nested {first : Identifier} {names : List Identifier} {content : List Token}
      (h : (g .entries).run ⟨content, false⟩ = some ((), ⟨[], false⟩)) :
      IsEntry g (pathTokens first names ++ [.group .parenthesis content])
        ⟨first :: names, .nested⟩

theorem IsEntry.ne_nil (h : IsEntry g ts e) : ts ≠ [] := by
  cases h <;> exact List.cons_ne_nil _ _

theorem IsEntry.reads (h : IsEntry g ts e) : Reads (entry g) ts e := by
  intro rest b hrest
  cases h with
  | @flag first names =>
    have hmarks : Token.isMark "::" rest = false ∧ Token.isMark "=" rest = false ∧
        Token.isGroup .parenthesis rest = false := by
      cases hrest <;> exact ⟨rfl, rfl, rfl⟩
    simp [entry, entryPath_run, mark?_run, atGroup, next, ahead, hmarks]
  | @value first names isJoint ts value h =>
    have hpath : entryPath.run ⟨pathTokens first names ++ .mark '=' isJoint :: (ts ++ rest), b⟩ =
        some (first :: names, ⟨.mark '=' isJoint :: (ts ++ rest), b⟩) := entryPath_run rfl
    have hmark : (mark? "=").run ⟨.mark '=' isJoint :: (ts ++ rest), b⟩ =
        some (true, ⟨ts ++ rest, b⟩) := rfl
    simp [entry, hpath, hmark, h rest b hrest]
  | @nested first names content h =>
    have hpath : entryPath.run ⟨pathTokens first names ++ .group .parenthesis content :: rest, b⟩ =
        some (first :: names, ⟨.group .parenthesis content :: rest, b⟩) := entryPath_run rfl
    have hmark : (mark? "=").run ⟨.group .parenthesis content :: rest, b⟩ =
        some (false, ⟨.group .parenthesis content :: rest, b⟩) := rfl
    have hgroup : (atGroup .parenthesis).run ⟨.group .parenthesis content :: rest, b⟩ =
        some (true, ⟨.group .parenthesis content :: rest, b⟩) := rfl
    have hinside : (inside .parenthesis (g .entries)).run ⟨.group .parenthesis content :: rest, b⟩ =
        some ((), ⟨rest, b⟩) := by
      simp [inside, ahead, require, h]
    simp [entry, hpath, hmark, hgroup, hinside]

/-! ## Lists -/

/-- Entries with commas between them; a comma may stand behind the last one. -/
inductive IsEntryList (g : Grammar) : List Token → List Entry → Prop
  | nil : IsEntryList g [] []
  | last {ts : List Token} {e : Entry} (h : IsEntry g ts e) : IsEntryList g ts [e]
  | cons {ts rest : List Token} {e : Entry} {es : List Entry} {isJoint : Bool}
      (h : IsEntry g ts e) (hrest : IsEntryList @g rest es) :
      IsEntryList g (ts ++ .mark ',' isJoint :: rest) (e :: es)

theorem entryEnd_run_comma {isJoint : Bool} :
    entryEnd.run ⟨.mark ',' isJoint :: rest, b⟩ = some (!rest.isEmpty, ⟨rest, b⟩) := rfl

theorem IsEntryList.length_le (h : IsEntryList g content es) : es.length ≤ content.length := by
  induction h with
  | nil => exact Nat.le_refl _
  | last h => exact List.length_pos_iff.2 h.ne_nil
  | cons h _ ih =>
    rw [List.length_append, List.length_cons, List.length_cons]
    exact Nat.le_add_left_of_le (Nat.succ_le_succ ih)

theorem IsEntryList.eq_nil_iff (h : IsEntryList g content es) : es = [] ↔ content = [] := by
  cases h with
  | nil => simp
  | last h => simp [h.ne_nil]
  | cons => simp

/-- Every entry of a list is read. -/
theorem IsEntryList.entriesFrom_eq (h : IsEntryList g content es) (hfuel : es.length < fuel) :
    entriesFrom g fuel ⟨content, b⟩ = es := by
  induction h generalizing fuel with
  | nil => cases fuel <;> rfl
  | last h =>
    obtain ⟨fuel, rfl⟩ := Nat.exists_eq_succ_of_ne_zero (Nat.ne_zero_of_lt hfuel)
    rw [entriesFrom, h.reads.run]
    rfl
  | @cons ts rest e es isJoint h hrest ih =>
    obtain ⟨fuel, rfl⟩ := Nat.exists_eq_succ_of_ne_zero (Nat.ne_zero_of_lt hfuel)
    rw [entriesFrom, h.reads _ b .comma]
    simp only [entryEnd_run_comma]
    -- nothing needs to follow the comma
    cases rest with
    | nil => rw [hrest.eq_nil_iff.2 rfl]; rfl
    | cons t rest => simpa using ih (Nat.lt_of_succ_lt_succ hfuel)

/-- A nested list is taken whole. -/
theorem IsEntryList.repeatWhile_run (h : IsEntryList g content es) (hne : es ≠ [])
    (hfuel : es.length ≤ fuel) :
    (repeatWhile (do let _ ← entry g; entryEnd) fuel).run ⟨content, b⟩ = some ((), ⟨[], b⟩) := by
  induction h generalizing fuel with
  | nil => exact (hne rfl).elim
  | last h =>
    obtain ⟨fuel, rfl⟩ := Nat.exists_eq_succ_of_ne_zero (Nat.ne_zero_of_lt hfuel)
    have hend : entryEnd.run ⟨[], b⟩ = some (false, ⟨[], b⟩) := rfl
    simp [repeatWhile, h.reads.run, hend]
  | @cons ts rest e es isJoint h hrest ih =>
    obtain ⟨fuel, rfl⟩ := Nat.exists_eq_succ_of_ne_zero (Nat.ne_zero_of_lt hfuel)
    have hentry := h.reads (.mark ',' isJoint :: rest) b .comma
    by_cases hnil : rest = []
    · subst hnil
      simp [repeatWhile, hentry, entryEnd_run_comma]
    · have hes : es ≠ [] := mt hrest.eq_nil_iff.1 hnil
      simp [repeatWhile, hentry, entryEnd_run_comma, hnil, ih hes (Nat.le_of_succ_le_succ hfuel)]

theorem IsEntryList.entries_run (h : IsEntryList g content es) (hne : es ≠ []) :
    (entries g).run ⟨content, b⟩ = some ((), ⟨[], b⟩) :=
  h.repeatWhile_run hne (Nat.le_succ_of_le h.length_le)

/-! ## Attributes -/

/-- The tokens of an attribute: a list of entries behind the name of the package, or anything else
that is one. -/
inductive IsAttribute (g : Grammar) : List Token → Attribute → Prop
  | list {isJoint : Bool} {content : List Token} {es : List Entry} (h : IsEntryList g content es) :
      IsAttribute g [.mark '#' isJoint,
        .group .bracket [.word "serde" false, .group .parenthesis content]]
        ⟨[⟨"serde", false⟩], false, .list es⟩
  | other {isJoint : Bool} {content : List Token} {a : Attribute}
      (h : (attributeContent g).run ⟨content, false⟩ = some (a, ⟨[], false⟩)) :
      IsAttribute g [.mark '#' isJoint, .group .bracket content] a

theorem outerAttribute_run {isJoint : Bool} {a : Attribute}
    (h : (attributeContent g).run ⟨content, false⟩ = some (a, ⟨[], false⟩)) :
    (outerAttribute g).run ⟨.mark '#' isJoint :: .group .bracket content :: rest, b⟩ =
      some (a, ⟨rest, b⟩) := by
  have hmark : (mark "#").run ⟨.mark '#' isJoint :: .group .bracket content :: rest, b⟩ =
      some ((), ⟨.group .bracket content :: rest, b⟩) := rfl
  simp [outerAttribute, hmark, inside, ahead, require, h]

/-- A list of entries is read as it is written. -/
theorem IsEntryList.attributeContent_run (h : IsEntryList g content es) :
    (attributeContent g).run ⟨[.word "serde" false, .group .parenthesis content], false⟩ =
      some (⟨[⟨"serde", false⟩], false, .list es⟩, ⟨[], false⟩) := by
  have hcontent : (attributeContent g).run
      ⟨[.word "serde" false, .group .parenthesis content], false⟩ =
        some (⟨[⟨"serde", false⟩], false, .list (entriesFrom g (content.length + 1) ⟨content, false⟩)⟩,
          ⟨[], false⟩) := rfl
  rw [hcontent, h.entriesFrom_eq (Nat.lt_succ_of_le h.length_le)]

theorem IsAttribute.run {a : Attribute} (h : IsAttribute g ts a) :
    (outerAttribute g).run ⟨ts ++ rest, b⟩ = some (a, ⟨rest, b⟩) := by
  cases h with
  | list h => exact outerAttribute_run h.attributeContent_run
  | other h => exact outerAttribute_run h

theorem IsAttribute.isMark {a : Attribute} (h : IsAttribute g ts a) :
    Token.isMark "#" (ts ++ rest) = true := by
  cases h <;> rfl

/-- Attributes are read as they are written. -/
theorem outerAttributes_run {parts : List (List Token × Attribute)}
    (h : ∀ p ∈ parts, IsAttribute g p.1 p.2) (hrest : Token.isMark "#" rest = false) :
    (outerAttributes g).run ⟨parts.flatMap Prod.fst ++ rest, b⟩ =
      some (parts.map Prod.snd, ⟨rest, b⟩) := by
  refine many_run (fun p hp after => ?_) (fun p hp hnil => ?_) ?_
  · simp [atMark, next, ahead, (h p hp).isMark, (h p hp).run]
  · have hmark : Token.isMark "#" (p.1 ++ []) = true := (h p hp).isMark
    simp [hnil, Token.isMark, Token.isMarkOf] at hmark
  · simp [atMark, next, ahead, hrest]

/-! ## The grammar of source files -/

/-- A nested list of entries follows a path. -/
theorem IsEntryList.isEntry_nested {depth : Nat}
    (h : IsEntryList (Grammar.of rules depth) content es) (hne : es ≠ []) :
    IsEntry (Grammar.of rules (depth + 1)) (pathTokens first names ++ [.group .parenthesis content])
      ⟨first :: names, .nested⟩ :=
  .nested (h.entries_run hne)

/-- A literal is an expression. -/
theorem reads_literal (depth : Nat) (value : Literal) :
    Reads (Grammar.of rules (depth + 3) (.expression true)) [.literal value] (.literal value) := by
  rintro rest b (_ | _) <;> rfl

end ApiModels.Source
