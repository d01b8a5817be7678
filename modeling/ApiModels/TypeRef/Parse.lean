import ApiModels.Text.Blank
import ApiModels.TypeRef

/-!
# Reading type references

Every text denotes a type reference. `T[]` is an array of `T`; `N<A, B>` is `N` with arguments;
a bracket without its partner closes or opens as much as there is; a blank text is `unknown`.
-/

namespace ApiModels.TypeRef

open ApiModels.Text

/-- Puts `c` in front of the first part. -/
def consFirst (c : Char) : List (List Char) → List (List Char)
  | [] => [[c]]
  | part :: parts => (c :: part) :: parts

/-- Cuts at the commas that stand at bracket depth zero, starting at `depth`. -/
def splitAtDepth : Nat → List Char → List (List Char)
  | _, [] => [[]]
  | depth, c :: cs =>
    if c = '<' then consFirst c (splitAtDepth (depth + 1) cs)
    else if c = '>' then consFirst c (splitAtDepth (depth - 1) cs)
    else if c = ',' ∧ depth = 0 then [] :: splitAtDepth 0 cs
    else consFirst c (splitAtDepth depth cs)

/-- Cuts at the commas outside brackets; a closing bracket too many closes nothing. -/
def splitTopLevel (cs : List Char) : List (List Char) := splitAtDepth 0 cs

/-- What stands before a final `[]`. -/
def arrayElement? (cs : List Char) : Option (List Char) :=
  match cs.reverse with
  | ']' :: '[' :: rest => some rest.reverse
  | _ => none

/-- What stands before the last `>`, or everything. -/
def beforeLastClose (cs : List Char) : List Char :=
  match cs.reverse.dropWhile (· ≠ '>') with
  | [] => cs
  | _ :: rest => rest.reverse

theorem length_le_of_mem_consFirst {c : Char} {parts : List (List Char)} {part : List Char}
    {n : Nat} (h : ∀ p ∈ parts, p.length ≤ n) (hp : part ∈ consFirst c parts) :
    part.length ≤ n + 1 := by
  cases parts with
  | nil =>
    cases List.mem_singleton.1 hp
    simp
  | cons first rest =>
    rcases List.mem_cons.1 hp with rfl | hp
    · exact Nat.succ_le_succ (h first List.mem_cons_self)
    · exact Nat.le_succ_of_le (h part (List.mem_cons_of_mem _ hp))

theorem length_le_of_mem_splitAtDepth {cs : List Char} :
    ∀ {depth : Nat} {part : List Char}, part ∈ splitAtDepth depth cs → part.length ≤ cs.length := by
  induction cs with
  | nil =>
    intro depth part h
    cases List.mem_singleton.1 h
    exact Nat.le_refl _
  | cons c cs ih =>
    intro depth part h
    unfold splitAtDepth at h
    split at h
    · exact length_le_of_mem_consFirst (fun _ => ih) h
    · split at h
      · exact length_le_of_mem_consFirst (fun _ => ih) h
      · split at h
        · rcases List.mem_cons.1 h with rfl | h
          · exact Nat.zero_le _
          · exact Nat.le_succ_of_le (ih h)
        · exact length_le_of_mem_consFirst (fun _ => ih) h

theorem length_le_of_mem_splitTopLevel {cs part : List Char} (h : part ∈ splitTopLevel cs) :
    part.length ≤ cs.length := length_le_of_mem_splitAtDepth h

theorem length_arrayElement? {cs element : List Char} (h : arrayElement? cs = some element) :
    element.length < cs.length := by
  unfold arrayElement? at h
  split at h
  · next rest hr =>
    cases h
    have := congrArg List.length hr
    simp at this ⊢
    omega
  · cases h

theorem length_beforeLastClose_le (cs : List Char) : (beforeLastClose cs).length ≤ cs.length := by
  unfold beforeLastClose
  split
  · exact Nat.le_refl _
  · next c rest h =>
    have h₁ := (List.dropWhile_sublist (· ≠ '>') (l := cs.reverse)).length_le
    rw [h] at h₁
    simp at h₁ ⊢
    omega

/-- The reference that a text denotes. -/
def ofChars (text : List Char) : TypeRef :=
  match _ : arrayElement? (trimChars text) with
  | some element => array (ofChars element)
  | none =>
    match _ : (trimChars text).dropWhile (· ≠ '<') with
    | [] => if (trimChars text).isEmpty then unknown else ⟨String.ofList (trimChars text), []⟩
    | _ :: rest =>
      { name := String.ofList (trimChars ((trimChars text).takeWhile (· ≠ '<')))
        arguments := (splitTopLevel (beforeLastClose rest)).attach.filterMap fun ⟨part, _⟩ =>
          if part.all isBlank then none else some (ofChars part) }
termination_by text.length
decreasing_by
  · next h => exact Nat.lt_of_lt_of_le (length_arrayElement? h) (length_trimChars_le text)
  · next rest h hp _ =>
    have h₁ := length_le_of_mem_splitTopLevel hp
    have h₂ := length_beforeLastClose_le rest
    have h₃ := (List.dropWhile_sublist (· ≠ '<') (l := trimChars text)).length_le
    have h₄ := length_trimChars_le text
    rw [h] at h₃
    simp only [List.length_cons] at h₃
    omega

/-- The reference that a text denotes. -/
def parse (text : String) : TypeRef := ofChars text.toList

end ApiModels.TypeRef
