import Mathlib.Data.List.TakeWhile
import ApiModels.Proofs.Path
import ApiModels.Source.File
import ApiModels.Source.Resolve

/-!
# Lines of documentation comments

Every comment line is a text of its own. A text without line breaks has one line, but the empty text
has none; so a comment line with nothing on it, not even a space, leaves no trace. One such line
between two paragraphs makes them one, in the documentation of a field as well as under the heading
over what a method returns (`Source.order_paragraphs_joined`). Apart from that the lines are kept:
`Source.commentLines_exact` says what becomes of any comment, and `Source.ReturnSection` where the
paragraph under the heading begins and ends.
-/

namespace ApiModels

open ApiModels.Text

theorem Text.lines_of_not_mem {text : String} (h : '\n' ∉ text.toList) :
    lines text = if text = "" then [] else [text] := by
  have hlines : lineChars text.toList = if text.toList.isEmpty then [] else [text.toList] := by
    rw [lineChars, splitChars_of_not_mem h]
    rfl
  rw [lines, hlines]
  by_cases hempty : text = ""
  · simp [hempty]
  · simp [hempty]

namespace Source

variable {attributes : List Attribute} {texts lines rest body : List String} {text : String}

/-! ## Lines -/

/-- The texts of the documentation comments among attributes. -/
def commentTexts (attributes : List Attribute) : List String :=
  attributes.filterMap Attribute.docText?

/-- The lines that are kept of comment lines: all but the empty ones, each without one space at its
front. -/
def keptLines (texts : List String) : List String := (texts.filter (· ≠ "")).map dropSpace

theorem keptLines_cons (text : String) (texts : List String) :
    keptLines (text :: texts) = if text = "" then keptLines texts
      else dropSpace text :: keptLines texts := by
  rw [keptLines, keptLines, List.filter_cons]
  split <;> simp_all

theorem flatMap_lines (h : ∀ text ∈ texts, '\n' ∉ text.toList) :
    (texts.flatMap fun text => (Text.lines text).map dropSpace) = keptLines texts := by
  induction texts with
  | nil => rfl
  | cons text texts ih =>
    obtain ⟨htext, htexts⟩ := List.forall_mem_cons.1 h
    rw [List.flatMap_cons, ih htexts, Text.lines_of_not_mem htext, keptLines_cons]
    split <;> rfl

theorem docLines_eq (h : ∀ text ∈ commentTexts attributes, '\n' ∉ text.toList) :
    docLines attributes = keptLines (commentTexts attributes) :=
  flatMap_lines h

/-- There is a line for each comment line just if none of them is empty. -/
theorem keptLines_eq_map_iff : keptLines texts = texts.map dropSpace ↔ "" ∉ texts := by
  constructor
  · intro h hempty
    have hlength : (texts.filter (· ≠ "")).length = texts.length := by
      simpa [keptLines] using congrArg List.length h
    have hall := List.length_filter_eq_length_iff.1 hlength
    simpa using hall "" hempty
  · intro h
    have hkept : texts.filter (· ≠ "") = texts := by
      refine List.filter_eq_self.2 fun text htext => ?_
      have hne : text ≠ "" := by
        rintro rfl
        exact h htext
      simpa using hne
    rw [keptLines, hkept]

/-! ## What a method returns -/

/-- Whether a line has nothing but white space. -/
def isBlankLine (line : String) : Bool := (trim line).isEmpty

/-- Whether a line begins with the mark of a heading. -/
def isHeading (line : String) : Bool := (trim line).toList.head? == some '#'

/-- Whether a line belongs to a paragraph. -/
def isProse (line : String) : Bool := !isBlankLine line && !isHeading line

/-- `body` is the first paragraph of lines, up to the next blank line or heading; only blank lines
stand in front of it. -/
inductive Paragraph : List String → List String → Prop where
  | mk {gap body after : List String} (blank : ∀ line ∈ gap, isBlankLine line = true)
    (nonempty : body ≠ []) (prose : ∀ line ∈ body, isProse line = true)
    (ends : ∀ line ∈ after.head?, isProse line = false) : Paragraph (gap ++ body ++ after) body

/-- `body` is the paragraph under the first heading over what is returned. -/
inductive ReturnSection : List String → List String → Prop where
  | mk {before rest body : List String} {heading : String}
    (first : ∀ line ∈ before, isReturnHeading line = false)
    (heads : isReturnHeading heading = true) (under : Paragraph rest body) :
    ReturnSection (before ++ heading :: rest) body

theorem paragraph_eq (lines : List String) :
    paragraph lines = ((lines.dropWhile isBlankLine).takeWhile isProse).map trim := by
  have hblank : String.isEmpty ∘ trim = isBlankLine := by
    funext line
    rw [Function.comp_apply, isBlankLine]
  have hprose : (fun line : String => !line.isEmpty && line.toList.head? != some '#') ∘ trim =
      isProse := by
    funext line
    rw [Function.comp_apply, isProse, isBlankLine, isHeading, bne]
  rw [paragraph, List.dropWhile_map, List.takeWhile_map, hblank, hprose]

theorem isBlankLine_of_isProse {line : String} (h : isProse line = true) :
    isBlankLine line = false := by
  rw [isProse, Bool.and_eq_true, Bool.not_eq_true'] at h
  exact h.1

theorem Paragraph.ne_nil (h : Paragraph lines body) : body ≠ [] := by
  cases h with
  | mk _ nonempty _ _ => exact nonempty

theorem Paragraph.eq (h : Paragraph lines body) : paragraph lines = body.map trim := by
  cases h with
  | @mk gap _ after blank nonempty prose ends =>
    obtain ⟨line, rest, rfl⟩ := List.exists_cons_of_ne_nil nonempty
    have hline : isBlankLine line = false := isBlankLine_of_isProse (prose line List.mem_cons_self)
    have hdrop : (gap ++ (line :: rest) ++ after).dropWhile isBlankLine =
        line :: rest ++ after := by
      rw [List.append_assoc, List.dropWhile_append_of_pos blank, List.cons_append,
        List.dropWhile_cons_of_neg (by simp [hline])]
    have hafter : after.takeWhile isProse = [] := by
      cases after with
      | nil => rfl
      | cons next after => rw [List.takeWhile_cons, ends next rfl]; rfl
    rw [paragraph_eq, hdrop, List.takeWhile_append_of_pos prose, hafter, List.append_nil]

theorem exists_paragraph (h : paragraph lines ≠ []) : ∃ body, Paragraph lines body := by
  rw [paragraph_eq] at h
  have hlines : lines.takeWhile isBlankLine ++ (lines.dropWhile isBlankLine).takeWhile isProse ++
      (lines.dropWhile isBlankLine).dropWhile isProse = lines := by
    rw [List.append_assoc, List.takeWhile_append_dropWhile, List.takeWhile_append_dropWhile]
  have hends : ∀ line ∈ ((lines.dropWhile isBlankLine).dropWhile isProse).head?,
      isProse line = false := by
    intro line hline
    have hfirst := List.head?_dropWhile_not isProse (lines.dropWhile isBlankLine)
    rw [hline] at hfirst
    simpa using hfirst
  have hgap : ∀ line ∈ lines.takeWhile isBlankLine, isBlankLine line = true :=
    fun line hline => List.mem_takeWhile_imp hline
  have hparagraph := Paragraph.mk hgap (fun hnil => h (List.map_eq_nil_iff.2 hnil))
    (fun line hline => List.mem_takeWhile_imp hline) hends
  rw [hlines] at hparagraph
  exact ⟨_, hparagraph⟩

theorem dropWhile_eq_heading {before : List String} {heading : String}
    (first : ∀ line ∈ before, isReturnHeading line = false)
    (heads : isReturnHeading heading = true) :
    (before ++ heading :: rest).dropWhile (!isReturnHeading ·) = heading :: rest := by
  rw [List.dropWhile_append_of_pos fun line hline => by simp [first line hline],
    List.dropWhile_cons_of_neg (by simp [heads])]

theorem ReturnSection.of_dropWhile {heading : String} (under : Paragraph rest body)
    (h : lines.dropWhile (!isReturnHeading ·) = heading :: rest) : ReturnSection lines body := by
  have hlines : lines.takeWhile (!isReturnHeading ·) ++ heading :: rest = lines := by
    rw [← h, List.takeWhile_append_dropWhile]
  rw [← hlines]
  refine .mk (fun line hline => ?_) ?_ under
  · simpa using List.mem_takeWhile_imp hline
  · have hfirst := List.head?_dropWhile_not (!isReturnHeading ·) lines
    rw [h] at hfirst
    simpa using hfirst

theorem returnDoc_of_method? {scope : Scope} {f : Function} {m : Method}
    (h : scope.method? f = some m) : m.returnDoc = returnDoc? (docLines f.attributes) := by
  rw [Scope.method?] at h
  split at h
  · cases h
  · obtain ⟨returns, -, rfl⟩ := Option.map_eq_some_iff.1 h
    rfl

/-- Without a marked line, what a method returns is told by the paragraph under the heading. -/
theorem returnDoc?_eq_some_iff (h : ∀ line ∈ lines, returnLine? line = none) :
    returnDoc? lines = some text ↔
      ∃ body, ReturnSection lines body ∧ text = " ".intercalate (body.map trim) := by
  have hnone : lines.findSome? returnLine? = none := List.findSome?_eq_none_iff.2 h
  rw [returnDoc?, hnone]
  constructor
  · intro hdoc
    cases hrest : lines.dropWhile (!isReturnHeading ·) with
    | nil => simp [hrest] at hdoc
    | cons heading rest =>
      simp only [hrest] at hdoc
      split at hdoc
      · cases hdoc
      · next hne =>
        obtain ⟨body, under⟩ := exists_paragraph (by simpa using hne)
        rw [under.eq] at hdoc
        exact ⟨body, .of_dropWhile under hrest, (Option.some.inj hdoc).symm⟩
  · rintro ⟨body, hsection, rfl⟩
    cases hsection with
    | mk first heads under =>
      simp [dropWhile_eq_heading first heads, under.eq, under.ne_nil]

/-! ## Fields and methods -/

/-- What becomes of comments whose texts have no line breaks. There is a line for each that is not
empty, in order, so that all lines are kept just if no comment is empty. The documentation of a
field is these lines; without a marked line, that of what a method returns is the one paragraph
under the heading. -/
theorem commentLines_exact (attributes : List Attribute)
    (h : ∀ text ∈ commentTexts attributes, '\n' ∉ text.toList) :
    docLines attributes = keptLines (commentTexts attributes) ∧
    (docLines attributes = (commentTexts attributes).map dropSpace ↔
      "" ∉ commentTexts attributes) ∧
    (∀ (scope : Scope) (f : NamedField), f.attributes = attributes →
      (scope.field f).doc = trim ("\n".intercalate (keptLines (commentTexts attributes)))) ∧
    ∀ (scope : Scope) (f : Function) (m : Method), f.attributes = attributes →
      scope.method? f = some m →
      (∀ line ∈ keptLines (commentTexts attributes), returnLine? line = none) →
      ∀ text, m.returnDoc = some text ↔
        ∃ body, ReturnSection (keptLines (commentTexts attributes)) body ∧
          text = " ".intercalate (body.map trim) := by
  have hlines := docLines_eq h
  refine ⟨hlines, ?_, ?_, ?_⟩
  · rw [hlines]
    exact keptLines_eq_map_iff
  · rintro scope f rfl
    rw [← hlines]
    rfl
  · rintro scope f m rfl hmethod hmarked text
    have hdoc : m.returnDoc = returnDoc? (docLines f.attributes) := returnDoc_of_method? hmethod
    rw [hdoc, hlines]
    exact returnDoc?_eq_some_iff hmarked

/-- The attribute that a comment line with this text stands for. -/
def comment (text : String) : Attribute where
  path := [⟨"doc", false⟩]
  form := .value (some (.text text))

/-- A method whose comment has an empty line, a line with one space, and a second paragraph. -/
def total : Function where
  attributes := [" # Returns", "", " the net sum", " ", " Prices change daily."].map comment
  isPublic := true
  signature :=
    { name := ⟨"total", false⟩
      isGeneric := false
      receiver := some (.reference false)
      arguments := 0
      returns := some (.path .relative [⟨⟨"u32", false⟩, []⟩]) }

theorem total_commentLines_exact :
    (∀ text ∈ commentTexts total.attributes, '\n' ∉ text.toList) ∧
    docLines total.attributes = ["# Returns", "the net sum", "", "Prices change daily."] ∧
    docLines total.attributes ≠ (commentTexts total.attributes).map dropSpace ∧
    ((Scope.mk [] "Order").method? total).bind Method.returnDoc = some "the net sum" := by
  have htexts : ∀ text ∈ commentTexts total.attributes, '\n' ∉ text.toList := by decide
  obtain ⟨hlines, hall, -, hmethod⟩ := commentLines_exact total.attributes htexts
  refine ⟨htexts, ?_, ?_, ?_⟩
  · rw [hlines]
    decide +kernel
  · rw [Ne, hall]
    decide
  · refine (hmethod ⟨[], "Order"⟩ total _ rfl rfl (by decide +kernel) "the net sum").2
      ⟨["the net sum"], ?_, by decide +kernel⟩
    have hkept : keptLines (commentTexts total.attributes) =
        [] ++ "# Returns" :: ([] ++ ["the net sum"] ++ ["", "Prices change daily."]) := by
      decide +kernel
    rw [hkept]
    apply ReturnSection.mk
    · decide
    · decide +kernel
    · apply Paragraph.mk <;> decide +kernel

/-- An empty line between two paragraphs is lost, in a field and under the heading of a method. -/
theorem order_paragraphs_joined :
    docLines ([" Net sum.", "", " Without tax."].map comment) ≠
      [" Net sum.", "", " Without tax."].map dropSpace ∧
    ∃ items ∈ parse? "pub struct Order \x7b
/// Net sum.
///
/// Without tax.
net: u32
\x7d
impl Order \x7b
/// # Returns
/// the sum
///
/// It changes.
pub fn sum(&self) -> u32 \x7b 0 \x7d
\x7d
",
      ∃ d ∈ (resolve [items]).declarations,
        d.fields.map Field.doc = ["Net sum.\nWithout tax."] ∧
        d.methods.map Method.returnDoc = [some "the sum It changes."] := by
  -- a literal is first taken as its characters, which its bytes would have to be decoded into
  rw [parse?_ofList]
  decide +kernel

end Source

end ApiModels
