import Questionnaire.Definition.Identifier
import Questionnaire.Definition.Question
import Questionnaire.Text.Blank

/-! Segmentation of a definition text into questions. A question begins at a header at
the beginning of a line and reaches to the next one. A header that never closes
takes its body with it; text before the first header belongs to no question. Every
text can be segmented. -/
namespace Questionnaire.Definition

open Text

/-- A line feed, a carriage return or both in this order, and what follows. -/
def takeNewline? : List Char → Option (List Char × List Char)
  | '\r' :: '\n' :: cs => some (['\r', '\n'], cs)
  | '\r' :: cs => some (['\r'], cs)
  | '\n' :: cs => some (['\n'], cs)
  | _ => none

def isNewline (c : Char) : Bool := c == '\n' || c == '\r'

/-- Whether a text begins like a header: a bracket, an identifier and one of the
characters that may follow it. -/
def isHeaderStart (cs : List Char) : Bool :=
  (do
    let rest ← stripLeading? ['['] cs
    let (_, rest) ← takeQuestionId? rest
    let next ← rest.head?
    return next == ']' || next == '!' || next == '?' || next == ',').getD false

/-- Whether a header follows the line end at the front of a text. -/
def isBoundary (cs : List Char) : Bool :=
  match takeNewline? cs with
  | some (_, rest) => isHeaderStart (skipLineBlanks rest)
  | none => false

/-- A text cut in front of every boundary. A line feed behind a carriage return
belongs to it and begins no chunk of its own. -/
def chunks (afterReturn : Bool) : List Char → List (List Char)
  | [] => [[]]
  | c :: cs =>
    match chunks (c == '\r') cs with
    | [] => [[c]]
    | chunk :: more =>
      if isBoundary (c :: cs) && !(afterReturn && c == '\n') then [] :: (c :: chunk) :: more
      else (c :: chunk) :: more

theorem chunks_flatten (afterReturn : Bool) (cs : List Char) :
    (chunks afterReturn cs).flatten = cs := by
  induction cs generalizing afterReturn with
  | nil => rfl
  | cons c cs ih =>
    have h := ih (c == '\r')
    unfold chunks
    split
    · next heq =>
      rw [heq] at h
      simp_all
    · next chunk more heq =>
      rw [heq] at h
      split <;> simpa using h

/-- The characters of a parenthesised group behind its opening parenthesis, and what
follows the closing one. Groups nest and stay within a line. -/
def takeGroup? (depth : Nat) : List Char → Option (List Char × List Char)
  | [] => none
  | c :: cs =>
    if isNewline c then none
    else if c == ')' && depth == 0 then some ([], cs)
    else
      let depth := if c == '(' then depth + 1 else if c == ')' then depth - 1 else depth
      (takeGroup? depth cs).map fun (inner, rest) => (c :: inner, rest)

/-- A value in which parenthesised groups may hold any character. It ends at a
character that satisfies `stop`, at a line end and at a parenthesis without its
partner. -/
def takeValue (stop : Char → Bool) (depth : Nat) : List Char → List Char × List Char
  | [] => ([], [])
  | c :: cs =>
    let further (depth : Nat) :=
      let (value, rest) := takeValue stop depth cs
      (c :: value, rest)
    if c == '(' then
      if depth > 0 || (takeGroup? 0 cs).isSome then further (depth + 1) else ([], c :: cs)
    else if c == ')' then if depth > 0 then further (depth - 1) else ([], c :: cs)
    else if depth > 0 then further depth
    else if isNewline c || stop c then ([], c :: cs)
    else further 0

def isOptionKeyChar (c : Char) : Bool := c.isAlphanum || c == '_' || c == '-'

/-- The value behind an equals sign, if there is one, and the rest. -/
def takeOptionValue (cs : List Char) : Option String × List Char :=
  match cs with
  | '=' :: rest =>
    let (value, rest) := takeValue (fun c => c == ',' || c == ']') 0 (skipLineBlanks rest)
    (some (String.ofList (trimChars value)), rest)
  | _ => (none, cs)

/-- An option of a header: a key in small letters and optionally a value. -/
def takeOption? (cs : List Char) : Option ((String × Option String) × List Char) :=
  match cs with
  | c :: rest =>
    if c.isAlpha then
      let key := c :: rest.takeWhile isOptionKeyChar
      let value := takeOptionValue (skipLineBlanks (rest.dropWhile isOptionKeyChar))
      some ((String.ofList (key.map Char.toLower), value.1), value.2)
    else none
  | [] => none

/-- A comma and an option, with blanks around the comma. -/
def takeNextOption? (cs : List Char) : Option ((String × Option String) × List Char) := do
  let rest ← stripLeading? [','] (skipLineBlanks cs)
  takeOption? (skipLineBlanks rest)

theorem takeValue_append (stop : Char → Bool) (depth : Nat) (cs : List Char) :
    (takeValue stop depth cs).1 ++ (takeValue stop depth cs).2 = cs := by
  induction cs generalizing depth with
  | nil => rfl
  | cons c cs ih =>
    unfold takeValue
    split
    · split <;> simp [ih]
    · split
      · split <;> simp [ih]
      · split
        · simp [ih]
        · split <;> simp [ih]

theorem takeOptionValue_length_le (cs : List Char) :
    (takeOptionValue cs).2.length ≤ cs.length := by
  unfold takeOptionValue
  split
  · next rest =>
    have h := congrArg List.length
      (takeValue_append (fun c => c == ',' || c == ']') 0 (skipLineBlanks rest))
    have := skipLineBlanks_length_le rest
    simp only [List.length_append, List.length_cons] at h ⊢
    omega
  · exact Nat.le_refl _

theorem takeOption?_length {cs rest : List Char} {option : String × Option String}
    (h : takeOption? cs = some (option, rest)) : rest.length < cs.length := by
  unfold takeOption? at h
  split at h
  · next c cs' =>
    split at h
    · cases h
      have h₁ := takeOptionValue_length_le (skipLineBlanks (cs'.dropWhile isOptionKeyChar))
      have h₂ := skipLineBlanks_length_le (cs'.dropWhile isOptionKeyChar)
      have h₃ := length_dropWhile_le isOptionKeyChar cs'
      simp only [List.length_cons]
      omega
    · simp at h
  · simp at h

theorem takeNextOption?_length {cs rest : List Char} {option : String × Option String}
    (h : takeNextOption? cs = some (option, rest)) : rest.length < cs.length := by
  simp only [takeNextOption?, Option.bind_eq_bind, Option.bind_eq_some_iff] at h
  obtain ⟨r, hr, h⟩ := h
  have h₁ := takeOption?_length h
  have h₂ := skipLineBlanks_length_le r
  have h₃ := skipLineBlanks_length_le cs
  have h₄ := congrArg List.length (stripLeading?_eq_some_iff.1 hr)
  simp only [List.length_append, List.length_cons, List.length_nil] at h₄
  omega

def takeOptions (cs : List Char) : List (String × Option String) × List Char :=
  match h : takeNextOption? cs with
  | some (option, rest) =>
    have := takeNextOption?_length h
    (option :: (takeOptions rest).1, (takeOptions rest).2)
  | none => ([], cs)
termination_by cs.length

structure Header where
  id : String
  mandate : Mandate
  options : List (String × Option String)

def takeMandateMark (cs : List Char) : Mandate × List Char :=
  match cs with
  | '!' :: rest => (.hard, rest)
  | '?' :: rest => (.soft, rest)
  | _ => (.optional, cs)

/-- A header that closes, and what follows it. -/
def takeHeaderLine? (cs : List Char) : Option (Header × List Char) := do
  let rest ← stripLeading? ['['] cs
  let (id, rest) ← takeQuestionId? rest
  let (mandate, rest) := takeMandateMark rest
  let (options, rest) := takeOptions rest
  let rest ← stripLeading? [']'] (skipLineBlanks rest)
  return (⟨String.ofList id, mandate, options⟩, rest)

def applyOption (d : Directives) (option : String × Option String) : Directives :=
  let (key, value) := option
  if key == "displayif" then { d with displayIf := value.filter (!·.isEmpty) }
  else if key == "end" then { d with isEnd := true }
  else if key == "grid" then { d with grid := true }
  else { d with extra := d.extra ++ [(key, value)] }

/-- The value of the first option with a key. -/
def optionValue? (extra : List (String × Option String)) (key : String) : Option String :=
  (extra.lookup key).join

def loopKeys : List String := ["loop", "bound", "max", "iteration", "base"]

def readLoopEntry? (extra : List (String × Option String)) : Option LoopEntry := do
  let loopIndex ← (optionValue? extra "loop").bind readUInt64?
  let bound ← optionValue? extra "bound"
  let maximum ← (optionValue? extra "max").bind readUInt32?
  let iteration ← (optionValue? extra "iteration").bind readUInt32?
  let stem ← optionValue? extra "base"
  return ⟨loopIndex, bound, maximum, iteration, stem⟩

/-- Turns the options that loop expansion wrote into the loop entry. They are taken
out as soon as the option `loop` has a value, also when they are incomplete. -/
def takeLoopEntry (d : Directives) : Directives :=
  match optionValue? d.extra "loop" with
  | none => d
  | some _ =>
    { d with
      loopEntry := readLoopEntry? d.extra
      extra := d.extra.filter fun (key, _) => !loopKeys.contains key }

def Header.directives (h : Header) : Directives :=
  let d := takeLoopEntry (h.options.foldl applyOption { mandate := h.mandate })
  if h.id == terminalId then { d with isEnd := true } else d

/-- The line end and the blanks at the front of a chunk, and the rest. -/
def takeIndent (chunk : List Char) : List Char × List Char :=
  let (newline, rest) := (takeNewline? chunk).getD ([], chunk)
  (newline ++ rest.takeWhile isLineBlank, rest.dropWhile isLineBlank)

/-- The question of a chunk that begins at a position. There is none in front of the
first header and none for a header that does not close. -/
def questionOf? (start : Position) (chunk : List Char) : Option QuestionText := do
  let (indent, text) := takeIndent chunk
  if !isHeaderStart text then none
  let (header, body) ← takeHeaderLine? text
  let place := start.advance indent
  return ⟨header.id, header.directives, String.ofList body, place.spanTo (place.advance text)⟩

/-- The questions of chunks that stand behind each other from a position on. -/
def questionsFrom (start : Position) : List (List Char) → List QuestionText
  | [] => []
  | chunk :: more =>
    (questionOf? start chunk).toList ++ questionsFrom (start.advance chunk) more

def questions (content : String) : List QuestionText :=
  questionsFrom {} (chunks false content.toList)

end Questionnaire.Definition
