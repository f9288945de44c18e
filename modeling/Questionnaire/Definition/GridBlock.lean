import Questionnaire.Definition.Identifier
import Questionnaire.Definition.Line

/-! Grid blocks in a definition text. A block begins a line and has the form
`|grid ID|args|shared text|rows|columns|`; its fields may run over several lines
but hold no bar. A text falls into blocks and what lies between them, and joining
these pieces gives the text back. -/
namespace Questionnaire.Definition

open Text

structure GridBlock where
  indent : List Char
  gap : List Char
  id : List Char
  args : List Char
  shared : List Char
  rows : List Char
  columns : List Char

namespace GridBlock

def keyword : List Char := ['|', 'g', 'r', 'i', 'd']

def toChars (b : GridBlock) : List Char :=
  b.indent ++ keyword ++ b.gap ++ b.id ++ '|' :: b.args ++ '|' :: b.shared ++ '|' :: b.rows ++
    '|' :: b.columns ++ ['|']

/-- The characters up to the next bar, and what follows it. -/
def takeField? (cs : List Char) : Option (List Char × List Char) := cutAtChars? (· == '|') cs

/-- One blank or more, and what follows them. -/
def takeGap? (cs : List Char) : Option (List Char × List Char) :=
  if (cs.takeWhile isLineBlank).isEmpty then none else some (takeRun isLineBlank cs)

/-- A block at the beginning of a line, and the rest. -/
def take? (cs : List Char) : Option (GridBlock × List Char) := do
  let rest ← stripLeading? keyword (skipLineBlanks cs)
  let (gap, rest) ← takeGap? rest
  let (id, rest) ← takeQuestionId? rest
  let rest ← stripLeading? ['|'] rest
  let (args, rest) ← takeField? rest
  let (shared, rest) ← takeField? rest
  let (rows, rest) ← takeField? rest
  let (columns, rest) ← takeField? rest
  return (⟨cs.takeWhile isLineBlank, gap, id, args, shared, rows, columns⟩, rest)

theorem takeField?_append {cs field rest : List Char} (h : takeField? cs = some (field, rest)) :
    cs = field ++ '|' :: rest := by
  obtain ⟨c, hc, rfl, -⟩ := cutAtChars?_eq_some h
  simp_all

theorem takeGap?_append {cs gap rest : List Char} (h : takeGap? cs = some (gap, rest)) :
    cs = gap ++ rest := by
  unfold takeGap? takeRun at h
  split at h
  · simp at h
  · cases h
    exact List.takeWhile_append_dropWhile.symm

theorem takeQuestionId?_append {cs id rest : List Char}
    (h : takeQuestionId? cs = some (id, rest)) : cs = id ++ rest := by
  cases cs with
  | nil => simp [takeQuestionId?] at h
  | cons c cs =>
    simp only [takeQuestionId?] at h
    split at h
    · cases h
      simp [List.takeWhile_append_dropWhile]
    · simp at h

theorem take?_append {cs rest : List Char} {b : GridBlock} (h : take? cs = some (b, rest)) :
    cs = b.toChars ++ rest := by
  simp only [take?, Option.bind_eq_bind, Option.bind_eq_some_iff, Option.pure_def,
    Option.some.injEq, Prod.exists, Prod.mk.injEq] at h
  obtain ⟨r₀, h₀, gap, r₁, h₁, id, r₂, h₂, r₃, h₃, args, r₄, h₄, shared, r₅, h₅, rows, r₆, h₆,
    columns, r₇, h₇, rfl, rfl⟩ := h
  have hskip : skipLineBlanks cs = keyword ++ (gap ++ (id ++ '|' :: (args ++ '|' ::
      (shared ++ '|' :: (rows ++ '|' :: (columns ++ '|' :: r₇)))))) := by
    rw [stripLeading?_eq_some_iff.1 h₀, takeGap?_append h₁, takeQuestionId?_append h₂,
      stripLeading?_eq_some_iff.1 h₃, takeField?_append h₄, takeField?_append h₅,
      takeField?_append h₆, takeField?_append h₇]
    rfl
  calc cs = cs.takeWhile isLineBlank ++ skipLineBlanks cs :=
        List.takeWhile_append_dropWhile.symm
    _ = _ := by
      rw [hskip]
      simp [toChars]

theorem take?_length {cs rest : List Char} {b : GridBlock} (h : take? cs = some (b, rest)) :
    rest.length < cs.length := by
  have := congrArg List.length (take?_append h)
  simp only [toChars, keyword, List.length_append, List.length_cons] at this
  omega

end GridBlock

inductive Piece where
  | plain (cs : List Char)
  | grid (b : GridBlock)

def Piece.toChars : Piece → List Char
  | plain cs => cs
  | grid b => b.toChars

/-- The pieces of a text that begins a line. What follows a block in its line is
plain. -/
def pieces (cs : List Char) : List Piece :=
  match cs with
  | [] => []
  | c :: rest =>
    match h : GridBlock.take? (c :: rest) with
    | some (b, []) => [.grid b]
    | some (b, d :: more) =>
      have := Nat.lt_trans (takeLine_rest_length d more) (GridBlock.take?_length h)
      .grid b :: .plain (takeLine (d :: more)).1 :: pieces (takeLine (d :: more)).2
    | none =>
      have := takeLine_rest_length c rest
      .plain (takeLine (c :: rest)).1 :: pieces (takeLine (c :: rest)).2
termination_by cs.length
decreasing_by all_goals exact this

theorem pieces_flatMap_toChars (cs : List Char) : (pieces cs).flatMap Piece.toChars = cs := by
  fun_induction pieces cs with
  | case1 => rfl
  | case2 c rest b h => simpa [Piece.toChars] using (GridBlock.take?_append h).symm
  | case3 c rest b d more h _ ih =>
    simp [Piece.toChars, ih, takeLine_append, ← GridBlock.take?_append h]
  | case4 c rest h _ ih => simp [Piece.toChars, ih, takeLine_append]

def gridBlocks (cs : List Char) : List GridBlock :=
  (pieces cs).filterMap fun
    | .grid b => some b
    | .plain _ => none

end Questionnaire.Definition
