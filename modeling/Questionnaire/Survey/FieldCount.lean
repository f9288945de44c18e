import Questionnaire.Text.Cut
import Questionnaire.Text.Word

/-! How many fields a text of markup holds: form controls with distinct names, without
buttons and hidden controls. The text is searched for tags as it stands, so any
text can be counted. -/
namespace Questionnaire.FieldCount

open Text

/-- Equality of a letter in a text with a small letter, capitals being equal to their
small letters, and so is the long s. -/
def sameLetter (small c : Char) : Bool := c.toLower == small || small == 's' && c == 'ſ'

/-- The rest behind a name written in whatever letters. -/
def stripName? : (name : List Char) → List Char → Option (List Char)
  | [], cs => some cs
  | _ :: _, [] => none
  | small :: name, c :: cs => if sameLetter small c then stripName? name cs else none

theorem stripName?_length {name cs rest : List Char} (h : stripName? name cs = some rest) :
    rest.length ≤ cs.length := by
  induction name generalizing cs with
  | nil => cases h; exact Nat.le_refl _
  | cons small name ih =>
    cases cs with
    | nil => simp [stripName?] at h
    | cons c cs =>
      unfold stripName? at h
      split at h
      · exact Nat.le_succ_of_le (ih h)
      · simp at h

def controlNames : List (List Char) :=
  [['i', 'n', 'p', 'u', 't'], ['t', 'e', 'x', 't', 'a', 'r', 'e', 'a'],
    ['s', 'e', 'l', 'e', 'c', 't']]

/-- The attributes in the tag of a control behind its opening bracket, and the text
behind the tag. -/
def takeControl? (cs : List Char) : Option (List Char × List Char) :=
  controlNames.findSome? fun name => do
    let rest ← (stripName? name cs).filter atWordEnd
    cutAtChars? (· == '>') rest

theorem takeControl?_length {cs attributes rest : List Char}
    (h : takeControl? cs = some (attributes, rest)) : rest.length ≤ cs.length := by
  obtain ⟨name, -, h⟩ := List.exists_of_findSome?_eq_some h
  simp only [Option.bind_eq_bind, Option.bind_eq_some_iff, Option.filter_eq_some_iff] at h
  obtain ⟨r, ⟨hstrip, -⟩, hcut⟩ := h
  obtain ⟨c, -, happ, -⟩ := cutAtChars?_eq_some hcut
  have h₁ := stripName?_length hstrip
  have h₂ := congrArg List.length happ
  simp only [List.length_append, List.length_cons] at h₂
  omega

def controls (cs : List Char) : List (List Char) :=
  match cs with
  | [] => []
  | c :: rest =>
    if c == '<' then
      match h : takeControl? rest with
      | some (attributes, further) =>
        have := takeControl?_length h
        attributes :: controls further
      | none => controls rest
    else controls rest
termination_by cs.length
decreasing_by all_goals (simp only [List.length_cons]; omega)

/-- The quoted value behind an equals sign. -/
def takeQuoted? (cs : List Char) : Option (List Char) := do
  let rest ← stripLeading? ['=', '"'] cs
  let (value, _) ← cutAtChars? (· == '"') rest
  return value

/-- The first quoted value of an attribute, whose name begins a word. -/
def attribute? (strip : List Char → Option (List Char)) (before : Option Char) :
    List Char → Option (List Char)
  | [] => none
  | c :: cs =>
    let here := if before.any isWord then none else (strip (c :: cs)).bind takeQuoted?
    match here with
    | some value => some value
    | none => attribute? strip (some c) cs

def typeName : List Char := ['t', 'y', 'p', 'e']

def unansweredTypes : List String := ["submit", "hidden", "button"]

/-- The type of a control in small letters. The word `type` may be in any letters. -/
def controlType? (attributes : List Char) : Option String :=
  (attribute? (stripName? typeName) none attributes).map fun value =>
    String.ofList (value.map Char.toLower)

def controlKey? (attributes : List Char) : Option String :=
  if (controlType? attributes).any unansweredTypes.contains then none
  else
    ((attribute? (stripLeading? ['n', 'a', 'm', 'e']) none attributes).or
      (attribute? (stripLeading? ['i', 'd']) none attributes)).map String.ofList

end Questionnaire.FieldCount

namespace Questionnaire

def countFields (markup : String) : Nat :=
  ((FieldCount.controls markup.toList).filterMap FieldCount.controlKey?).eraseDups.length

end Questionnaire
