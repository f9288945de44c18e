import Questionnaire.Proofs.Definition.Pieces
import Questionnaire.Proofs.LineEnding.Returns

/-! Comments and grid blocks in texts that differ in carriage returns in front of line feeds. The
same lines are comments, and the texts fall into the same pieces; where no block of the one spans
lines, the blocks of the other are the same. -/
namespace Questionnaire.Definition

open Text

/-! ### Comments -/

theorem lineEnd_plain {line : List Char} (plain : '\r' ∉ line) :
    lineEnd line = if line.getLast? = some '\n' then ['\n'] else [] := by
  rw [← List.head?_reverse, lineEnd]
  have behind : '\r' ∉ line.reverse := fun member => plain (List.mem_reverse.1 member)
  generalize line.reverse = cs at behind ⊢
  split
  · exact absurd (by simp) behind
  · rfl
  · next _ other =>
    rw [if_neg]
    intro feed
    obtain ⟨more, rfl⟩ := List.head?_eq_some_iff.1 feed
    exact other more rfl

theorem lineEnd_cases (line : List Char) : line.getLast? = some '\n' ∧
      (lineEnd line = ['\n'] ∨ lineEnd line = ['\r', '\n']) ∨
    line.getLast? ≠ some '\n' ∧ lineEnd line = [] := by
  rw [← List.head?_reverse, lineEnd]
  generalize line.reverse = cs
  split
  · exact .inl ⟨rfl, .inr rfl⟩
  · exact .inl ⟨rfl, .inl rfl⟩
  · next _ other =>
    refine .inr ⟨fun feed => ?_, rfl⟩
    obtain ⟨more, rfl⟩ := List.head?_eq_some_iff.1 feed
    exact other more rfl

namespace Returns
variable {l d : List Char}

theorem lineEnd (returns : Returns l d) :
    Returns (Definition.lineEnd l) (Definition.lineEnd d) := by
  rw [lineEnd_plain returns.plain, ← returns.getLast?]
  rcases lineEnd_cases d with ⟨feed, plain | returned⟩ | ⟨none, empty⟩
  · rw [if_pos feed, plain]
    exact .same (by decide) .nil
  · rw [if_pos feed, returned]
    exact .feed .nil
  · rw [if_neg none, empty]
    exact .nil

theorem isComment (returns : Returns l d) :
    Definition.isComment d = Definition.isComment l := by
  have read := (returns.dropWhile (p := isBlank) rfl).stripLeading?
    (show OneLine ['/', '/'] by decide)
  rw [Definition.isComment, Definition.isComment, trimStartChars, trimStartChars]
  generalize Text.stripLeading? ['/', '/'] (l.dropWhile isBlank) = a,
    Text.stripLeading? ['/', '/'] (d.dropWhile isBlank) = b at read ⊢
  cases read <;> rfl

theorem withoutComment (returns : Returns l d) :
    Returns (Definition.withoutComment l) (Definition.withoutComment d) := by
  rw [Definition.withoutComment, Definition.withoutComment, returns.isComment]
  split
  · exact returns.lineEnd
  · exact returns

theorem flatMap {ls ds : List (List Char)} {f : List Char → List Char}
    (related : List.Forall₂ Returns ls ds) (keeps : ∀ l d, Returns l d → Returns (f l) (f d)) :
    Returns (ls.flatMap f) (ds.flatMap f) := by
  rw [List.flatMap_def, List.flatMap_def]
  exact flatten (List.forall₂_map_left_iff.2 (List.forall₂_map_right_iff.2
    (related.imp fun l d => keeps l d)))

theorem stripComments {left right : String} (returns : Returns left.toList right.toList) :
    Returns (Definition.stripComments left).toList (Definition.stripComments right).toList := by
  rw [Definition.stripComments, Definition.stripComments, String.toList_ofList,
    String.toList_ofList]
  exact flatMap returns.lines fun l d => withoutComment

end Returns

/-! ### Grid blocks -/

/-- Blocks whose fields differ in returns only. -/
structure GridBlock.Alike (b c : GridBlock) : Prop where
  indent : c.indent = b.indent
  gap : c.gap = b.gap
  id : c.id = b.id
  args : Returns b.args c.args
  shared : Returns b.shared c.shared
  rows : Returns b.rows c.rows
  columns : Returns b.columns c.columns

inductive Piece.Alike : Piece → Piece → Prop
  | plain {cs ds : List Char} (returns : Returns cs ds) : Alike (.plain cs) (.plain ds)
  | grid {b c : GridBlock} (shape : b.WellFormed) (alike : b.Alike c) :
      Alike (.grid b) (.grid c)

namespace Returns
variable {l d : List Char}

theorem takeGap? (returns : Returns l d) :
    Option.Rel ReadsSame (GridBlock.takeGap? l) (GridBlock.takeGap? d) := by
  obtain ⟨taken, rest⟩ := returns.takeRun (p := isLineBlank) rfl rfl
  have same : d.takeWhile isLineBlank = l.takeWhile isLineBlank := taken.symm
  rw [GridBlock.takeGap?, GridBlock.takeGap?, same]
  split
  · exact .none
  · exact .some ⟨taken, rest⟩

theorem takeField? (returns : Returns l d) :
    Option.Rel ReturnsPair (GridBlock.takeField? l) (GridBlock.takeField? d) :=
  returns.cutAtChars? rfl rfl

theorem takeGrid? (returns : Returns l d) :
    Option.Rel (fun a b => a.1.Alike b.1 ∧ Returns a.2 b.2)
      (GridBlock.take? l) (GridBlock.take? d) := by
  obtain ⟨indent, rest⟩ := returns.takeRun (p := isLineBlank) rfl rfl
  refine rel_bind (rest.stripLeading? (by decide)) fun r₁ s₁ h₁ => ?_
  refine rel_bind h₁.takeGap? ?_
  rintro ⟨gap, r₂⟩ ⟨_, s₂⟩ ⟨rfl, h₂⟩
  refine rel_bind h₂.takeQuestionId? ?_
  rintro ⟨id, r₃⟩ ⟨_, s₃⟩ ⟨rfl, h₃⟩
  refine rel_bind (h₃.stripLeading? (oneLine_single rfl)) fun r₄ s₄ h₄ => ?_
  refine rel_bind h₄.takeField? ?_
  rintro ⟨args, r₅⟩ ⟨args', s₅⟩ ⟨argsRel, h₅⟩
  refine rel_bind h₅.takeField? ?_
  rintro ⟨shared, r₆⟩ ⟨shared', s₆⟩ ⟨sharedRel, h₆⟩
  refine rel_bind h₆.takeField? ?_
  rintro ⟨rows, r₇⟩ ⟨rows', s₇⟩ ⟨rowsRel, h₇⟩
  refine rel_bind h₇.takeField? ?_
  rintro ⟨columns, r₈⟩ ⟨columns', s₈⟩ ⟨columnsRel, h₈⟩
  exact .some ⟨⟨indent.symm, rfl, rfl, argsRel, sharedRel, rowsRel, columnsRel⟩, h₈⟩

end Returns

theorem pieces_of_none {cs : List Char} (some : cs ≠ []) (none : GridBlock.take? cs = none) :
    pieces cs = .plain (takeLine cs).1 :: pieces (takeLine cs).2 := by
  cases cs with
  | nil => exact absurd rfl some
  | cons c cs =>
    rw [pieces.eq_def]
    simp only
    split
    · next taken => rw [none] at taken; cases taken
    · next taken => rw [none] at taken; cases taken
    · rfl

theorem pieces_of_grid {cs rest : List Char} {b : GridBlock}
    (taken : GridBlock.take? cs = some (b, rest)) : pieces cs = .grid b ::
      if rest = [] then [] else .plain (takeLine rest).1 :: pieces (takeLine rest).2 := by
  cases cs with
  | nil => cases taken
  | cons c cs =>
    rw [pieces.eq_def]
    simp only
    split
    · next other =>
      obtain ⟨rfl, rfl⟩ := Prod.mk.inj (Option.some.inj (taken.symm.trans other))
      rfl
    · next other =>
      obtain ⟨rfl, rfl⟩ := Prod.mk.inj (Option.some.inj (taken.symm.trans other))
      rw [if_neg (List.cons_ne_nil _ _)]
    · next none => rw [taken] at none; cases none

theorem Returns.pieces {l d : List Char} (returns : Returns l d) :
    List.Forall₂ Piece.Alike (Definition.pieces l) (Definition.pieces d) := by
  induction size : l.length using Nat.strongRecOn generalizing l d with
  | _ n ih =>
    subst size
    by_cases empty : l = []
    · subst empty
      cases returns
      rw [Definition.pieces]
      exact .nil
    have some : d ≠ [] := by
      rintro rfl
      cases returns
      exact empty rfl
    -- A line that begins behind what has been read, and the pieces of what is left.
    have further {t u : List Char} (rest : Returns t u) (some : t ≠ [])
        (shorter : t.length ≤ l.length) :
        List.Forall₂ Piece.Alike
          (.plain (Definition.takeLine t).1 :: Definition.pieces (Definition.takeLine t).2)
          (.plain (Definition.takeLine u).1 :: Definition.pieces (Definition.takeLine u).2) := by
      obtain ⟨line, left⟩ := rest.takeLine
      refine .cons (.plain line) (ih _ ?_ left rfl)
      cases t with
      | nil => exact absurd rfl some
      | cons c t => exact Nat.lt_of_lt_of_le (takeLine_rest_length c t) shorter
    rcases rel_cases returns.takeGrid? with
      ⟨left, right⟩ | ⟨⟨b, t⟩, ⟨c, u⟩, left, right, alike, rest⟩
    · rw [pieces_of_none empty left, pieces_of_none some right]
      exact further returns empty (Nat.le_refl _)
    · have behind : Returns t u := rest
      rw [pieces_of_grid left, pieces_of_grid right]
      refine .cons (.grid (GridBlock.take?_sound left) alike) ?_
      by_cases done : t = []
      · subst done
        cases behind
        exact .nil
      · have more : u ≠ [] := by
          rintro rfl
          cases behind
          exact done rfl
        rw [if_neg done, if_neg more]
        exact further behind done (Nat.le_of_lt (GridBlock.take?_length left))

/-- No block of a text spans lines. -/
def BlocksInLines (cs : List Char) : Prop := ∀ b ∈ gridBlocks cs, '\n' ∉ b.toChars

instance (cs : List Char) : Decidable (BlocksInLines cs) :=
  inferInstanceAs (Decidable (∀ b ∈ gridBlocks cs, '\n' ∉ b.toChars))

theorem GridBlock.Alike.eq {b c : GridBlock} (alike : b.Alike c) (inLine : '\n' ∉ b.toChars) :
    c = b := by
  simp only [GridBlock.toChars, List.mem_append, List.mem_cons, not_or] at inLine
  have args := alike.args.eq_of_oneLine (by tauto)
  have shared := alike.shared.eq_of_oneLine (by tauto)
  have rows := alike.rows.eq_of_oneLine (by tauto)
  have columns := alike.columns.eq_of_oneLine (by tauto)
  obtain ⟨indent, gap, id, -, -, -, -⟩ := alike
  cases b
  cases c
  simp_all

theorem Returns.gridBlocks {l d : List Char} (returns : Returns l d) (inLines : BlocksInLines l) :
    Definition.gridBlocks d = Definition.gridBlocks l := by
  rw [BlocksInLines] at inLines
  rw [Definition.gridBlocks] at inLines ⊢
  rw [Definition.gridBlocks]
  have related := returns.pieces
  generalize Definition.pieces l = left, Definition.pieces d = right at related inLines ⊢
  induction related with
  | nil => rfl
  | cons first _ ih =>
    cases first with
    | plain =>
      simp only [List.filterMap_cons] at inLines ⊢
      exact ih inLines
    | grid shape alike =>
      simp only [List.filterMap_cons, List.forall_mem_cons] at inLines ⊢
      rw [alike.eq inLines.1, ih inLines.2]

end Questionnaire.Definition
