import ApiModels.Proofs.Source.CommentLines
import ApiModels.Proofs.TypeRef.Written

/-!
# What a method returns

A line of documentation tells what a method returns if it begins with the mark `@return`; without one
the paragraph under the heading does. `ReturnText` says which text that is, for any reading of what a
marked line is. A line counts as soon as it begins with the mark, whether or not the mark is a word of
its own (`returnDoc?_eq_iff`). Where the two readings differ, at the first line that begins with a
longer word such as `@returns`, the rest of that word opens the text (`exists_tail_of_not_hasMark`).
-/

namespace ApiModels

open ApiModels.Text

namespace Source

variable {lines body : List String} {line text : String} {result : Option String}
  {isMarked : String → Bool}

/-! ## Marked lines -/

/-- The mark of a line that tells what a method returns. -/
def returnMark : List Char := "@return".toList

/-- The first word of a line. -/
def firstWord (line : String) : List Char := (trim line).toList.takeWhile (!isBlank ·)

/-- Whether a line begins with the mark, be it a part of a longer word. -/
def beginsWithMark (line : String) : Bool := returnMark.isPrefixOf (trim line).toList

/-- Whether the mark is the first word of a line. -/
def hasMark (line : String) : Bool := firstWord line == returnMark

/-- The text behind the mark of a line. -/
def behindMark (line : String) : String :=
  trim (String.ofList ((trim line).toList.drop returnMark.length))

theorem returnLine?_eq (line : String) :
    returnLine? line = if beginsWithMark line = true then some (behindMark line) else none := by
  rw [returnLine?, textBehind?]
  change (if beginsWithMark line = true then _ else none).map trim = _
  split <;> rfl

theorem returnLine?_eq_none_iff : returnLine? line = none ↔ beginsWithMark line = false := by
  rw [returnLine?_eq]
  split <;> simp_all

theorem beginsWithMark_iff :
    beginsWithMark line = true ↔ ∃ rest, (trim line).toList = returnMark ++ rest := by
  rw [beginsWithMark, List.isPrefixOf_iff_prefix]
  exact ⟨fun ⟨rest, h⟩ => ⟨rest, h.symm⟩, fun ⟨rest, h⟩ => ⟨rest, h.symm⟩⟩

theorem firstWord_eq {rest : List Char} (h : (trim line).toList = returnMark ++ rest) :
    firstWord line = returnMark ++ rest.takeWhile (!isBlank ·) := by
  have hmark : returnMark.all (!isBlank ·) = true := by decide
  rw [firstWord, h]
  exact List.takeWhile_append_of_pos (List.all_eq_true.1 hmark)

theorem beginsWithMark_of_hasMark (h : hasMark line = true) : beginsWithMark line = true := by
  rw [beginsWithMark, List.isPrefixOf_iff_prefix, ← beq_iff_eq.1 h]
  exact List.takeWhile_prefix _

theorem hasMark_of_beginsWithMark_eq_false (h : beginsWithMark line = false) :
    hasMark line = false :=
  Bool.eq_false_iff.2 fun hmark => by simp [beginsWithMark_of_hasMark hmark] at h

/-! ## The text -/

/-- What documentation tells of the value that a method returns, if `isMarked` are the lines marked
for it: the text behind the first mark, or else the paragraph under the heading. -/
inductive ReturnText (isMarked : String → Bool) : List String → Option String → Prop
  | marked {before after : List String} {line : String}
      (first : ∀ line ∈ before, isMarked line = false) (mark : isMarked line = true) :
      ReturnText isMarked (before ++ line :: after) (some (behindMark line))
  | underHeading {lines body : List String} (unmarked : ∀ line ∈ lines, isMarked line = false)
      (under : ReturnSection lines body) :
      ReturnText isMarked lines (some (" ".intercalate (body.map trim)))
  | nothing {lines : List String} (unmarked : ∀ line ∈ lines, isMarked line = false)
      (no : ∀ body, ¬ReturnSection lines body) : ReturnText isMarked lines none

theorem returnText_iff_of_find?_eq_some (h : lines.find? isMarked = some line) :
    ReturnText isMarked lines result ↔ result = some (behindMark line) := by
  constructor
  · intro htext
    cases htext with
    | marked first mark =>
      rw [List.find?_append, List.find?_eq_none.2 (by simpa using first), Option.none_or,
        List.find?_cons_of_pos mark] at h
      rw [Option.some.inj h]
    | underHeading unmarked _ | nothing unmarked _ =>
      rw [List.find?_eq_none.2 (by simpa using unmarked)] at h
      cases h
  · rintro rfl
    obtain ⟨mark, before, after, rfl, first⟩ := List.find?_eq_some_iff_append.1 h
    exact .marked (by simpa using first) mark

theorem returnText_iff_of_find?_eq_none (h : lines.find? isMarked = none) :
    ReturnText isMarked lines result ↔
      (∃ body, ReturnSection lines body ∧ result = some (" ".intercalate (body.map trim))) ∨
        (∀ body, ¬ReturnSection lines body) ∧ result = none := by
  have hunmarked : ∀ line ∈ lines, isMarked line = false := by
    simpa using List.find?_eq_none.1 h
  constructor
  · intro htext
    cases htext with
    | @marked before _ line _ mark =>
      rw [hunmarked line (List.mem_append_right before List.mem_cons_self)] at mark
      cases mark
    | underHeading _ under => exact .inl ⟨_, under, rfl⟩
    | nothing _ no => exact .inr ⟨no, rfl⟩
  · rintro (⟨body, under, rfl⟩ | ⟨no, rfl⟩)
    · exact .underHeading hunmarked under
    · exact .nothing hunmarked no

/-- The two readings of a marked line agree where the first line that begins with the mark has it as
its first word. -/
theorem returnText_hasMark_iff (h : ∀ line ∈ lines.find? beginsWithMark, hasMark line = true) :
    ReturnText hasMark lines result ↔ ReturnText beginsWithMark lines result := by
  cases hfirst : lines.find? beginsWithMark with
  | none =>
    have hnone : lines.find? hasMark = none := by
      refine List.find?_eq_none.2 fun line hline hmark => ?_
      exact List.find?_eq_none.1 hfirst line hline (beginsWithMark_of_hasMark hmark)
    rw [returnText_iff_of_find?_eq_none hnone, returnText_iff_of_find?_eq_none hfirst]
  | some line =>
    have hsome : lines.find? hasMark = some line := by
      obtain ⟨-, before, after, rfl, hbefore⟩ := List.find?_eq_some_iff_append.1 hfirst
      refine List.find?_eq_some_iff_append.2 ⟨h line hfirst, before, after, rfl, ?_⟩
      intro other hother
      have hbegins : beginsWithMark other = false := by simpa using hbefore other hother
      simp [hasMark_of_beginsWithMark_eq_false hbegins]
    rw [returnText_iff_of_find?_eq_some hsome, returnText_iff_of_find?_eq_some hfirst]

theorem ReturnSection.exists_heading (h : ReturnSection lines body) :
    ∃ line ∈ lines, isReturnHeading line = true := by
  cases h with
  | @mk before _ _ heading _ heads _ =>
    exact ⟨heading, List.mem_append_right before List.mem_cons_self, heads⟩

theorem returnDoc?_of_find?_eq_some (h : lines.find? beginsWithMark = some line) :
    returnDoc? lines = some (behindMark line) := by
  obtain ⟨mark, before, after, rfl, first⟩ := List.find?_eq_some_iff_append.1 h
  have hbefore : ∀ line ∈ before, returnLine? line = none := by
    intro line hline
    rw [returnLine?_eq_none_iff]
    simpa using first line hline
  have hline : returnLine? line = some (behindMark line) := by
    rw [returnLine?_eq, if_pos mark]
  rw [returnDoc?, List.findSome?_append, List.findSome?_eq_none_iff.2 hbefore, Option.none_or,
    List.findSome?_cons, hline]

/-- The lines that count as marked are those that begin with the mark. -/
theorem returnDoc?_eq_iff :
    returnDoc? lines = result ↔ ReturnText beginsWithMark lines result := by
  cases hfirst : lines.find? beginsWithMark with
  | some line =>
    rw [returnText_iff_of_find?_eq_some hfirst, returnDoc?_of_find?_eq_some hfirst, eq_comm]
  | none =>
    have hunmarked : ∀ line ∈ lines, beginsWithMark line = false := by
      simpa using List.find?_eq_none.1 hfirst
    have hsection (text : String) : returnDoc? lines = some text ↔
        ∃ body, ReturnSection lines body ∧ text = " ".intercalate (body.map trim) :=
      returnDoc?_eq_some_iff fun line hline => returnLine?_eq_none_iff.2 (hunmarked line hline)
    rw [returnText_iff_of_find?_eq_none hfirst]
    constructor
    · rintro rfl
      cases hdoc : returnDoc? lines with
      | some text =>
        obtain ⟨body, under, rfl⟩ := (hsection text).1 hdoc
        exact .inl ⟨body, under, rfl⟩
      | none =>
        refine .inr ⟨fun body under => ?_, rfl⟩
        rw [(hsection _).2 ⟨body, under, rfl⟩] at hdoc
        cases hdoc
    · rintro (⟨body, under, rfl⟩ | ⟨no, rfl⟩)
      · exact (hsection _).2 ⟨body, under, rfl⟩
      · rw [Option.eq_none_iff_forall_ne_some]
        intro text hdoc
        obtain ⟨body, under, -⟩ := (hsection text).1 hdoc
        exact no body under

/-- The rest of a longer word that begins with the mark opens the text behind the mark. -/
theorem exists_tail_of_not_hasMark (hbegins : beginsWithMark line = true)
    (hmark : hasMark line = false) :
    ∃ tail after, tail ≠ [] ∧ firstWord line = returnMark ++ tail ∧
      behindMark line = String.ofList (tail ++ after) := by
  obtain ⟨rest, hrest⟩ := beginsWithMark_iff.1 hbegins
  have hword := firstWord_eq hrest
  have htail : rest.takeWhile (!isBlank ·) ≠ [] := by
    intro htail
    rw [hasMark, hword, htail, List.append_nil, beq_self_eq_true] at hmark
    cases hmark
  have hhead : ∀ c ∈ rest.head?, isBlank c = false := by
    cases rest with
    | nil => exact nofun
    | cons c rest =>
      intro c' hc'
      cases hc'
      simpa using htail
  have hlast : ∀ c ∈ rest.getLast?, isBlank c = false := by
    intro c hc
    rw [trim, String.toList_ofList] at hrest
    apply isBlank_of_mem_getLast?_trimChars c
    rw [hrest, List.getLast?_append, Option.mem_def.1 hc, Option.some_or]
    exact Option.mem_some_self c
  refine ⟨rest.takeWhile (!isBlank ·), rest.dropWhile (!isBlank ·), htail, hword, ?_⟩
  rw [List.takeWhile_append_dropWhile, behindMark, hrest, List.drop_left, trim, String.toList_ofList,
    trimChars_eq_self hhead hlast]

/-- What the documentation of a method tells of the value that it returns: the text behind the first
line that begins with the mark, or else the first paragraph under the heading. Where the mark is a
word of its own on that line, the same is told if only lines with the mark as their first word are
marked; otherwise the rest of a longer word opens the text. -/
theorem returnDoc?_exact (lines : List String) :
    (∀ result, returnDoc? lines = result ↔ ReturnText beginsWithMark lines result) ∧
    ((∀ line ∈ lines.find? beginsWithMark, hasMark line = true) →
      ∀ result, returnDoc? lines = result ↔ ReturnText hasMark lines result) ∧
    ∀ line ∈ lines.find? beginsWithMark, hasMark line = false →
      ∃ tail after, tail ≠ [] ∧ firstWord line = returnMark ++ tail ∧
        returnDoc? lines = some (String.ofList (tail ++ after)) := by
  refine ⟨fun result => returnDoc?_eq_iff, fun h result => ?_, fun line hline hmark => ?_⟩
  · rw [returnText_hasMark_iff h, returnDoc?_eq_iff]
  · obtain ⟨tail, after, hne, hword, htext⟩ :=
      exists_tail_of_not_hasMark (List.find?_some hline) hmark
    refine ⟨tail, after, hne, hword, ?_⟩
    rw [returnDoc?_eq_iff, ← htext]
    exact (returnText_iff_of_find?_eq_some hline).2 rfl

/-- Behind a line that only uses the word, a line that is marked, and one with a longer word. -/
def sumLines : List String := ["The @return mark.", "@return the sum", "@returns more"]

theorem sum_returnDoc?_exact :
    (∀ line ∈ sumLines.find? beginsWithMark, hasMark line = true) ∧
    ReturnText hasMark sumLines (some "the sum") ∧
    (["@returns the sum"].find? beginsWithMark = some "@returns the sum" ∧
      hasMark "@returns the sum" = false) ∧
    ∃ tail after, tail ≠ [] ∧ firstWord "@returns the sum" = returnMark ++ tail ∧
      returnDoc? ["@returns the sum"] = some (String.ofList (tail ++ after)) := by
  obtain ⟨-, hword, -⟩ := returnDoc?_exact sumLines
  obtain ⟨-, -, htail⟩ := returnDoc?_exact ["@returns the sum"]
  have hmarked : ∀ line ∈ sumLines.find? beginsWithMark, hasMark line = true := by decide +kernel
  have hfound : ["@returns the sum"].find? beginsWithMark = some "@returns the sum" := by
    decide +kernel
  have hlonger : hasMark "@returns the sum" = false := by decide +kernel
  refine ⟨hmarked, (hword hmarked _).1 (by decide +kernel), ⟨hfound, hlonger⟩, ?_⟩
  exact htail _ hfound hlonger

/-- The end of a longer word is what a method is said to return, although no line has the mark as its
first word and there is no heading. -/
theorem order_returns_tail :
    ReturnText hasMark ["@returns the sum"] none ∧
    ∃ items ∈ parse? "pub struct Order \x7b net: u32 \x7d
impl Order \x7b
/// @returns the sum
pub fn sum(&self) -> u32 \x7b 0 \x7d
\x7d
",
      ∃ d ∈ (resolve [items]).declarations,
        d.methods.map Method.returnDoc = [some "s the sum"] := by
  constructor
  · rw [returnText_iff_of_find?_eq_none (by decide +kernel)]
    refine .inr ⟨fun body under => ?_, rfl⟩
    have hheading := under.exists_heading
    revert hheading
    decide +kernel
  · rw [parse?_ofList]
    decide +kernel

end Source

end ApiModels
