import Questionnaire.Text.Blank
import Questionnaire.Text.Cut
import Questionnaire.Text.Word

/-! Loop blocks in a definition text: everything between `<loop …>` and the next
`</loop>`. The attributes in the opening tag are `name=value` pairs, with or without
quotes around the value. -/
namespace Questionnaire.Definition

open Text

structure LoopBlock where
  attributes : List Char
  body : List Char

namespace LoopBlock

def openTag : List Char := ['<', 'l', 'o', 'o', 'p']
def closeTag : List Char := ['<', '/', 'l', 'o', 'o', 'p', '>']

def toChars (b : LoopBlock) : List Char := openTag ++ b.attributes ++ '>' :: b.body ++ closeTag

/-- A block at the front of a text, and the rest. The word `loop` must end where the
attributes begin. -/
def take? (cs : List Char) : Option (LoopBlock × List Char) := do
  let rest ← (stripLeading? openTag cs).filter atWordEnd
  let (attributes, rest) ← cutAtChars? (· == '>') rest
  let (body, rest) ← cutAtLiteral? closeTag rest
  return (⟨attributes, body⟩, rest)

theorem take?_append {cs rest : List Char} {b : LoopBlock} (h : take? cs = some (b, rest)) :
    cs = b.toChars ++ rest := by
  simp only [take?, Option.bind_eq_bind, Option.bind_eq_some_iff, Option.filter_eq_some_iff,
    Option.pure_def, Option.some.injEq, Prod.exists, Prod.mk.injEq] at h
  obtain ⟨r₁, ⟨h₁, -⟩, attributes, r₂, h₂, body, r₃, h₃, rfl, rfl⟩ := h
  obtain ⟨c, hc, hcut, -⟩ := cutAtChars?_eq_some h₂
  rw [stripLeading?_eq_some_iff.1 h₁, hcut, cutAtLiteral?_eq_some h₃]
  simp_all [toChars]

def find? : List Char → Option (List Char × LoopBlock × List Char)
  | [] => none
  | c :: cs =>
    match take? (c :: cs) with
    | some (b, rest) => some ([], b, rest)
    | none => (find? cs).map fun (before, b, rest) => (c :: before, b, rest)

theorem find?_append {cs before rest : List Char} {b : LoopBlock}
    (h : find? cs = some (before, b, rest)) : cs = before ++ b.toChars ++ rest := by
  induction cs generalizing before with
  | nil => simp [find?] at h
  | cons c cs ih =>
    unfold find? at h
    split at h
    · next htake => cases h; simpa using take?_append htake
    · obtain ⟨⟨p, b', r⟩, hfind, hcut⟩ := Option.map_eq_some_iff.1 h
      cases hcut
      simp [ih hfind]

theorem find?_length {cs before rest : List Char} {b : LoopBlock}
    (h : find? cs = some (before, b, rest)) : rest.length < cs.length := by
  have := congrArg List.length (find?_append h)
  simp only [toChars, openTag, List.length_append, List.length_cons] at this
  omega

/-- A quotation mark at the front of a text is passed over. -/
def skipQuote : List Char → List Char
  | '"' :: cs => cs
  | cs => cs

/-- The value behind the name of an attribute, and the rest. -/
def takeValue? (cs : List Char) : Option (List Char × List Char) :=
  match trimStartChars cs with
  | '=' :: rest =>
    let isValue := fun c => c != '"' && c != '>' && !isBlank c
    let (value, rest) := takeRun isValue (skipQuote (trimStartChars rest))
    if value.isEmpty then none else some (value, skipQuote rest)
  | _ => none

/-- The attributes of a tag. A word without a value is passed over. -/
def attributePairs (cs : List Char) : Nat → List (List Char × List Char)
  | 0 => []
  | fuel + 1 =>
    match cs.dropWhile (fun c => !isWord c) with
    | [] => []
    | named =>
      let (name, rest) := takeRun isWord named
      match takeValue? rest with
      | some (value, rest) => (name, value) :: attributePairs rest fuel
      | none => attributePairs rest fuel

/-- The value of the last attribute called `name`. -/
def attribute? (b : LoopBlock) (name : String) : Option String :=
  ((attributePairs b.attributes b.attributes.length).reverse.find? (·.1 == name.toList)).map
    fun (_, value) => String.ofList value

end LoopBlock

end Questionnaire.Definition
