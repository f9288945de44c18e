import Questionnaire.Definition.Body
import Questionnaire.Definition.Segment

/-! Reading question bodies. Lines are read on their own: a line that is not a response
option as a whole is text, and a brace that opens no marker is text. Field keys are
given out afterwards, in the order of the fields: a field without a key of its own
gets one from its kind and how many such fields came before, except for the free
text of an option, whose key names the option. -/
namespace Questionnaire.Definition

open Text

/-- A field as it is written, before its key is known. -/
structure FieldMarker where
  kind : FieldKind
  key : Option String
  attributes : List (String × Option String)

inductive InlineMarker where
  | text (cs : List Char)
  | computed (expression : String)
  | context (name : String)
  | field (marker : FieldMarker)

def isKeyChar (c : Char) : Bool := c.isAlphanum || c == '_'

def takeKey? (cs : List Char) : Option (List Char × List Char) :=
  if (cs.takeWhile isKeyChar).isEmpty then none else some (takeRun isKeyChar cs)

/-- An unquoted attribute value ends at a blank and at the closing brace. -/
def endsAttribute (c : Char) : Bool := isLineBlank c || c == '}'

/-- An attribute without a value may stand in front of an equals sign that has none,
but then the marker does not close. -/
def takeAttributeValue (cs : List Char) : Option String × List Char :=
  match cs with
  | '=' :: rest =>
    match takeValue endsAttribute 0 rest with
    | ([], _) => (none, cs)
    | (value, rest) => (some (String.ofList value), rest)
  | _ => (none, cs)

theorem takeAttributeValue_length_le (cs : List Char) :
    (takeAttributeValue cs).2.length ≤ cs.length := by
  unfold takeAttributeValue
  split
  · next rest =>
    have h := congrArg List.length (takeValue_append endsAttribute 0 rest)
    simp only [List.length_append] at h
    split
    · exact Nat.le_refl _
    · next heq =>
      simp only [heq] at h
      simp only [List.length_cons]
      omega
  · exact Nat.le_refl _

theorem takeAttributeValue_length {c : Char} {cs rest : List Char}
    (h : skipLineBlanks cs = c :: rest) :
    (takeAttributeValue (rest.dropWhile isKeyChar)).2.length < cs.length := by
  have h₁ := takeAttributeValue_length_le (rest.dropWhile isKeyChar)
  have h₂ := length_dropWhile_le isKeyChar rest
  have h₃ := skipLineBlanks_length_le cs
  rw [h, List.length_cons] at h₃
  omega

/-- The attributes in front of the closing brace, their names in small letters, and
what follows the brace. -/
def takeAttributes? (cs : List Char) : Option (List (String × Option String) × List Char) :=
  match h : skipLineBlanks cs with
  | [] => none
  | c :: rest =>
    if c == '}' then some ([], rest)
    else if c.isAlpha then
      have := takeAttributeValue_length h
      let name := String.ofList ((c :: rest.takeWhile isKeyChar).map Char.toLower)
      let value := takeAttributeValue (rest.dropWhile isKeyChar)
      (takeAttributes? value.2).map fun (attributes, rest) =>
        ((name, value.1) :: attributes, rest)
    else none
termination_by cs.length

def takeFieldKey? (cs : List Char) : Option (Option String × List Char) :=
  match cs with
  | ':' :: rest => (takeKey? rest).map fun (key, rest) => (some (String.ofList key), rest)
  | _ => some (none, cs)

def takeField? (cs : List Char) : Option (FieldMarker × List Char) := do
  let (keyword, rest) ← takeKey? cs
  let kind ← FieldKind.ofKeyword? (String.ofList keyword)
  let (key, rest) ← takeFieldKey? rest
  let (attributes, rest) ← takeAttributes? rest
  return (⟨kind, key, attributes⟩, rest)

def takeContext? (cs : List Char) : Option (String × List Char) := do
  let (name, rest) ← takeKey? cs
  let rest ← stripLeading? ['}'] rest
  return (String.ofList name, rest)

def takeMarker? (cs : List Char) : Option (InlineMarker × List Char) :=
  match cs with
  | '#' :: rest =>
    (cutAtChars? (· == '}') rest).map fun (expression, rest) =>
      (.computed (String.ofList (trimChars expression)), rest)
  | '@' :: rest => (takeContext? rest).map fun (name, rest) => (.context name, rest)
  | _ => (takeField? cs).map fun (marker, rest) => (.field marker, rest)

def startsArrow (cs : List Char) : Bool := (stripLeading? ['-', '>'] cs).isSome

/-- Puts a character in front of the text that begins a list of inline parts. -/
def pushChar (c : Char) : List InlineMarker → List InlineMarker
  | .text cs :: more => .text (c :: cs) :: more
  | markers => .text [c] :: markers

/-- The inline parts of a line, and what is left of it. A label ends at an arrow. -/
def takeInlines (label : Bool) (cs : List Char) : List InlineMarker × List Char :=
  go 0 cs
where
  /-- Here `pending` characters of the current marker are still to be passed over. -/
  go : Nat → List Char → List InlineMarker × List Char
    | _, [] => ([], [])
    | pending + 1, _ :: cs => go pending cs
    | 0, c :: cs =>
      if c == '{' then
        match takeMarker? cs with
        | some (marker, rest) =>
          let further := go (cs.length - rest.length) cs
          (marker :: further.1, further.2)
        | none =>
          let further := go 0 cs
          (pushChar c further.1, further.2)
      else if label && startsArrow (c :: cs) then ([], c :: cs)
      else
        let further := go 0 cs
        (pushChar c further.1, further.2)

def takeGuard? (cs : List Char) : Option (String × List Char) := do
  let (i, rest) ← cs.head?.map fun c => (c, cs.tail)
  let (f, rest) ← rest.head?.map fun c => (c, rest.tail)
  if i.toLower != 'i' || f.toLower != 'f' then none
  if !rest.head?.any isLineBlank then none
  let (guard, rest) := takeUntilArrow (skipLineBlanks rest)
  if guard.isEmpty then none
  return (String.ofList (trimChars guard), rest)
where
  takeUntilArrow : List Char → List Char × List Char
    | [] => ([], [])
    | c :: cs =>
      if startsArrow (c :: cs) then ([], c :: cs)
      else ((c :: (takeUntilArrow cs).1), (takeUntilArrow cs).2)

/-- A skip directive with the blanks behind it. -/
def takeSkip? (cs : List Char) : Option (SkipDirective × List Char) := do
  let rest ← stripLeading? ['-', '>'] cs
  let (target, rest) ← takeQuestionId? (skipLineBlanks rest)
  let rest := skipLineBlanks rest
  match takeGuard? rest with
  | some (guard, rest) => return (⟨String.ofList target, some guard⟩, rest)
  | none => return (⟨String.ofList target, none⟩, rest)

/-- The skip directives that end a line, `none` if anything else is left. -/
def takeSkips? : Nat → List Char → Option (List SkipDirective)
  | 0, cs => if (skipLineBlanks cs).isEmpty then some [] else none
  | fuel + 1, cs =>
    match takeSkip? cs with
    | some (skip, rest) => (takeSkips? fuel rest).map (skip :: ·)
    | none => if (skipLineBlanks cs).isEmpty then some [] else none

def isValueChar (c : Char) : Bool := c.isAlphanum || c == '_' || c == '-' || c == '.'

def takeChoiceKind (cs : List Char) : ChoiceKind × List Char :=
  match cs with
  | '+' :: rest => (.inclusive, rest)
  | '!' :: rest => (.sole, rest)
  | _ => (.exclusive, cs)

/-- The kind and value of an option at the front of a line, and the rest. -/
def takeChoiceMarker? (cs : List Char) : Option (ChoiceKind × String × List Char) := do
  let rest ← stripLeading? ['('] (skipLineBlanks cs)
  let (kind, rest) := takeChoiceKind rest
  let (value, rest) := takeRun isValueChar rest
  let rest ← stripLeading? [')'] rest
  if value.isEmpty then none else some (kind, String.ofList value, rest)

/-- A line as it is written, before field keys are known. -/
inductive LineMarker where
  | text (markers : List InlineMarker)
  | choice (kind : ChoiceKind) (value : String) (label : List InlineMarker)
      (skips : List SkipDirective)

def takeChoiceLine? (cs : List Char) : Option LineMarker := do
  let (kind, value, rest) ← takeChoiceMarker? cs
  let (label, rest) := takeInlines true (skipLineBlanks rest)
  let skips ← takeSkips? rest.length rest
  return .choice kind value label skips

def readLine (cs : List Char) : LineMarker :=
  match takeChoiceLine? cs with
  | some line => line
  | none => .text (takeInlines false cs).1

def bodyLines (afterReturn : Bool) : List Char → List (List Char)
  | [] => [[]]
  | c :: cs =>
    if c == '\n' && afterReturn then bodyLines false cs
    else
      match bodyLines (c == '\r') cs with
      | [] => [[c]]
      | line :: more => if isNewline c then [] :: line :: more else (c :: line) :: more

/-- How many keys of each kind have been given out. -/
abbrev KeyCounts := FieldKind → Nat

/-- The next key of a kind: its keyword, from the second time on with a number. -/
def nextKey (counts : KeyCounts) (kind : FieldKind) : String × KeyCounts :=
  let count := counts kind + 1
  (if count = 1 then kind.keyword else kind.keyword ++ toString count,
    fun k => if k = kind then count else counts k)

/-- The last value given to an attribute, which may be none. -/
def attributeValue? (attributes : List (String × Option String)) (name : String) :
    Option String :=
  (attributes.reverse.lookup name).join

def FieldMarker.withKey (m : FieldMarker) (key : String) : Field where
  kind := m.kind
  key := key
  minimum := attributeValue? m.attributes "min"
  maximum := attributeValue? m.attributes "max"
  displayIf := attributeValue? m.attributes "displayif"
  disabled := m.attributes.any (·.1 == "disabled")
  exclusiveGroup := attributeValue? m.attributes "xor"

/-- The key of a field, `option` being the value of the option it belongs to. -/
def fieldKey (option : Option String) (m : FieldMarker) (counts : KeyCounts) :
    String × KeyCounts :=
  match m.key, m.kind, option with
  | some key, _, _ => (key, counts)
  | none, .other, some value => ("other_" ++ value, counts)
  | none, kind, _ => nextKey counts kind

def assignInlines (option : Option String) (counts : KeyCounts) :
    List InlineMarker → List Inline × KeyCounts
  | [] => ([], counts)
  | .text cs :: more =>
    let (inlines, counts) := assignInlines option counts more
    (.text (String.ofList cs) :: inlines, counts)
  | .computed expression :: more =>
    let (inlines, counts) := assignInlines option counts more
    (.computed expression :: inlines, counts)
  | .context name :: more =>
    let (inlines, counts) := assignInlines option counts more
    (.context name :: inlines, counts)
  | .field m :: more =>
    let (key, counts) := fieldKey option m counts
    let (inlines, counts) := assignInlines option counts more
    (.field (m.withKey key) :: inlines, counts)

def trimFirst : List Inline → List Inline
  | .text s :: more => .text (trimStart s) :: more
  | inlines => inlines

def trimLast : List Inline → List Inline
  | [] => []
  | [.text s] => [.text (trimEnd s)]
  | inline :: more => inline :: trimLast more

/-- Without blanks at both ends and without empty texts. -/
def trimInlines (inlines : List Inline) : List Inline :=
  (trimLast (trimFirst inlines)).filter (· != .text "")

/-- The lines with their field keys. A text line with nothing in it disappears. -/
def assignLines (counts : KeyCounts) : List LineMarker → List BodyLine
  | [] => []
  | .text markers :: more =>
    let (inlines, counts) := assignInlines none counts markers
    match trimInlines inlines with
    | [] => assignLines counts more
    | inlines => .text inlines :: assignLines counts more
  | .choice kind value label skips :: more =>
    let (inlines, counts) := assignInlines (some value) counts label
    .choice ⟨kind, value, trimInlines inlines, skips⟩ :: assignLines counts more

def readBody (content : String) : List BodyLine :=
  assignLines (fun _ => 0) ((bodyLines false content.toList).map readLine)

end Questionnaire.Definition
