import Questionnaire.Definition.Line
import Questionnaire.Proofs.Definition.Options
import Questionnaire.Proofs.LineEnding.Related
import Questionnaire.Text.Word

/-! Texts with carriage returns in front of some of their line feeds. Characters that are no line
ends are the same in both, and everything that a text is cut with treats the two alike, so what is
cut out of such texts is so related again. -/
namespace Questionnaire.Definition

open Text

theorem isWord_newline {c : Char} (newline : isNewline c = true) : isWord c = false := by
  rcases isNewline_cases newline with rfl | rfl <;> rfl

/-- The second text is the first with carriage returns in front of some of the line feeds. -/
inductive Returns : List Char → List Char → Prop
  | nil : Returns [] []
  | same {c : Char} {l d : List Char} (plain : c ≠ '\r') (rest : Returns l d) :
      Returns (c :: l) (c :: d)
  | feed {l d : List Char} (rest : Returns l d) : Returns ('\n' :: l) ('\r' :: '\n' :: d)

/-- Pairs of texts so related. -/
def ReturnsPair (a b : List Char × List Char) : Prop := Returns a.1 b.1 ∧ Returns a.2 b.2

/-- The same has been read, and the rests are so related. -/
def ReadsSame {α : Type} (a b : α × List Char) : Prop := a.1 = b.1 ∧ Returns a.2 b.2

namespace Returns
variable {l d l' d' : List Char}

theorem refl (plain : '\r' ∉ l) : Returns l l := by
  induction l with
  | nil => exact .nil
  | cons c l ih =>
    obtain ⟨here, rest⟩ := not_or.1 (mt List.mem_cons.2 plain)
    exact .same (Ne.symm here) (ih rest)

theorem append (front : Returns l d) (back : Returns l' d') : Returns (l ++ l') (d ++ d') := by
  induction front with
  | nil => exact back
  | same plain _ ih => exact .same plain ih
  | feed _ ih => exact .feed ih

/-- What stands behind such texts is so related if the whole is. -/
theorem behind (front : Returns l d) (whole : Returns (l ++ l') (d ++ d')) : Returns l' d' := by
  induction front with
  | nil => exact whole
  | same _ _ ih =>
    cases whole with
    | same _ rest => exact ih rest
  | feed _ ih =>
    cases whole with
    | feed rest => exact ih rest

theorem plain (returns : Returns l d) : '\r' ∉ l := by
  induction returns with
  | nil => exact List.not_mem_nil
  | same plain _ ih => simp [plain.symm, ih]
  | feed _ ih => simp [ih]

theorem eq_of_oneLine (returns : Returns l d) (oneLine : '\n' ∉ l) : d = l := by
  induction returns with
  | nil => rfl
  | same _ _ ih => rw [ih (List.not_mem_of_not_mem_cons oneLine)]
  | feed => exact absurd List.mem_cons_self oneLine

theorem getLast? (returns : Returns l d) : d.getLast? = l.getLast? := by
  induction returns with
  | nil => rfl
  | same _ rest ih => rw [List.getLast?_cons, List.getLast?_cons, ih]
  | feed rest ih => rw [List.getLast?_cons, List.getLast?_cons, List.getLast?_cons, ih]; rfl

theorem any_head? (returns : Returns l d) {p : Char → Bool} (same : p '\r' = p '\n') :
    d.head?.any p = l.head?.any p := by
  cases returns with
  | nil => rfl
  | same => rfl
  | feed => exact same

theorem takeWhile_dropWhile (returns : Returns l d) {p : Char → Bool} (same : p '\r' = p '\n') :
    ReturnsPair (l.takeWhile p, l.dropWhile p) (d.takeWhile p, d.dropWhile p) := by
  induction returns with
  | nil => exact ⟨.nil, .nil⟩
  | @same c l d plain rest ih =>
    cases holds : p c with
    | true => simpa [holds] using ⟨.same plain ih.1, ih.2⟩
    | false => simpa [holds] using ⟨.nil, .same plain rest⟩
  | feed rest ih =>
    cases holds : p '\n' with
    | true => simpa [holds, same] using ⟨.feed ih.1, ih.2⟩
    | false => simpa [holds, same] using ⟨.nil, .feed rest⟩

theorem dropWhile (returns : Returns l d) {p : Char → Bool} (same : p '\r' = p '\n') :
    Returns (l.dropWhile p) (d.dropWhile p) :=
  (returns.takeWhile_dropWhile same).2

/-- A run of characters that are no line ends. -/
theorem takeRun (returns : Returns l d) {p : Char → Bool} (feed : p '\n' = false)
    (back : p '\r' = false) : ReadsSame (Text.takeRun p l) (Text.takeRun p d) := by
  obtain ⟨taken, rest⟩ := returns.takeWhile_dropWhile (back.trans feed.symm)
  refine ⟨(taken.eq_of_oneLine fun member => ?_).symm, rest⟩
  rw [List.mem_takeWhile_imp member] at feed
  contradiction

/-- A run that only a line feed ends takes in the return in front of it. -/
theorem takeRun_feed (returns : Returns l d) {p : Char → Bool} (feed : p '\n' = false)
    (back : p '\r' = true) : ReadsSame (Text.takeRun p l) (Text.takeRun p d) ∨
      ∃ run l' d', Text.takeRun p l = (run, '\n' :: l') ∧
        Text.takeRun p d = (run ++ ['\r'], '\n' :: d') ∧ Returns l' d' := by
  simp only [Text.takeRun]
  induction returns with
  | nil => exact .inl ⟨rfl, .nil⟩
  | @same c l d plain rest ih =>
    cases holds : p c with
    | true =>
      rcases ih with ⟨taken, left⟩ | ⟨run, l', d', taken, returned, further⟩
      · exact .inl (by simpa [ReadsSame, holds] using ⟨taken, left⟩)
      · simp only [Prod.mk.injEq] at taken returned
        exact .inr ⟨c :: run, l', d', by simp [holds, taken], by simp [holds, returned], further⟩
    | false => exact .inl (by simpa [ReadsSame, holds] using .same plain rest)
  | @feed l d rest => exact .inr ⟨[], l, d, by simp [feed], by simp [feed, back], rest⟩

theorem stripLeading? (returns : Returns l d) {literal : List Char} (oneLine : OneLine literal) :
    Option.Rel Returns (Text.stripLeading? literal l) (Text.stripLeading? literal d) := by
  induction literal generalizing l d with
  | nil => exact .some returns
  | cons a literal ih =>
    obtain ⟨plain, oneLine⟩ := List.forall_mem_cons.1 oneLine
    cases returns with
    | nil => exact .none
    | @same c l d _ rest =>
      rw [Text.stripLeading?, Text.stripLeading?]
      split
      · exact ih rest oneLine
      · exact .none
    | feed rest =>
      have feed : (a == '\n') = false := beq_eq_false_iff_ne.2 (by rintro rfl; cases plain)
      have back : (a == '\r') = false := beq_eq_false_iff_ne.2 (by rintro rfl; cases plain)
      simp only [Text.stripLeading?, feed, back]
      exact .none

theorem cutAtChars? (returns : Returns l d) {p : Char → Bool} (feed : p '\n' = false)
    (back : p '\r' = false) :
    Option.Rel ReturnsPair (Text.cutAtChars? p l) (Text.cutAtChars? p d) := by
  induction returns with
  | nil => exact .none
  | @same c l d plain rest ih =>
    rw [Text.cutAtChars?, Text.cutAtChars?]
    split
    · exact .some ⟨.nil, rest⟩
    · exact rel_map ih fun _ _ related => ⟨.same plain related.1, related.2⟩
  | feed rest ih =>
    simp only [Text.cutAtChars?, feed, back, Bool.false_eq_true, if_false, Option.map_map]
    exact rel_map ih fun _ _ related => ⟨.feed related.1, related.2⟩

theorem cutAtLiteral? (returns : Returns l d) {literal : List Char} (oneLine : OneLine literal)
    (some : literal ≠ []) :
    Option.Rel ReturnsPair (Text.cutAtLiteral? literal l) (Text.cutAtLiteral? literal d) := by
  have missed {c : Char} (newline : isNewline c = true) (cs : List Char) :
      Text.stripLeading? literal (c :: cs) = none := by
    cases literal with
    | nil => exact absurd rfl some
    | cons a literal =>
      rw [Text.stripLeading?, if_neg]
      intro same
      rw [← eq_of_beq same, oneLine a (by simp)] at newline
      cases newline
  induction returns with
  | nil =>
    have none : Text.cutAtLiteral? literal [] = none := by simp [Text.cutAtLiteral?, some]
    rw [none]
    exact .none
  | @same c l d plain rest ih =>
    rw [Text.cutAtLiteral?, Text.cutAtLiteral?]
    have here := (Returns.same plain rest).stripLeading? oneLine
    generalize Text.stripLeading? literal (c :: l) = a,
      Text.stripLeading? literal (c :: d) = b at here ⊢
    cases here with
    | some behind => exact .some ⟨.nil, behind⟩
    | none => exact rel_map ih fun _ _ related => ⟨.same plain related.1, related.2⟩
  | feed rest ih =>
    simp only [Text.cutAtLiteral?, missed (show isNewline '\n' = true from rfl),
      missed (show isNewline '\r' = true from rfl), Option.map_map]
    exact rel_map ih fun _ _ related => ⟨.feed related.1, related.2⟩

theorem containsLiteral (returns : Returns l d) {literal : List Char} (oneLine : OneLine literal)
    (some : literal ≠ []) : Text.containsLiteral literal d = Text.containsLiteral literal l := by
  rw [Text.containsLiteral, Text.containsLiteral]
  have cut := returns.cutAtLiteral? oneLine some
  generalize Text.cutAtLiteral? literal l = a, Text.cutAtLiteral? literal d = b at cut ⊢
  cases cut <;> rfl

theorem splitChars (returns : Returns l d) {p : Char → Bool} (feed : p '\n' = false)
    (back : p '\r' = false) :
    List.Forall₂ Returns (Text.splitChars p l) (Text.splitChars p d) := by
  induction returns with
  | nil => exact .cons .nil .nil
  | @same c l d plain rest ih =>
    rw [Text.splitChars, Text.splitChars]
    split
    · exact .cons .nil ih
    · generalize Text.splitChars p l = ls, Text.splitChars p d = ds at ih ⊢
      cases ih with
      | nil => exact .cons (.same plain .nil) .nil
      | cons first more => exact .cons (.same plain first) more
  | @feed l d rest ih =>
    simp only [Text.splitChars, feed, back, Bool.false_eq_true, if_false]
    generalize Text.splitChars p l = ls, Text.splitChars p d = ds at ih ⊢
    cases ih with
    | nil => exact .cons (.feed .nil) .nil
    | cons first more => exact .cons (.feed first) more

theorem flatten {ls ds : List (List Char)} (related : List.Forall₂ Returns ls ds) :
    Returns ls.flatten ds.flatten := by
  induction related with
  | nil => exact .nil
  | cons first _ ih => exact first.append ih

/-! ### Lines -/

/-- Such texts begin with one line, and go on alike. -/
theorem line (returns : Returns l d) : ∃ x t u, l = x ++ t ∧ d = x ++ u ∧ OneLine x ∧
    Returns t u ∧ LineEnd t ∧ LineEnd u := by
  induction returns with
  | nil => exact ⟨[], [], [], rfl, rfl, nofun, .nil, nofun, nofun⟩
  | @same c l d plain rest ih =>
    cases newline : isNewline c with
    | true =>
      refine ⟨[], c :: l, c :: d, rfl, rfl, nofun, .same plain rest, ?_, ?_⟩
      · rintro _ ⟨⟩
        exact newline
      · rintro _ ⟨⟩
        exact newline
    | false =>
      obtain ⟨x, t, u, rfl, rfl, oneLine, related, ends⟩ := ih
      exact ⟨c :: x, t, u, rfl, rfl, List.forall_mem_cons.2 ⟨newline, oneLine⟩, related, ends⟩
  | @feed l d rest =>
    refine ⟨[], '\n' :: l, '\r' :: '\n' :: d, rfl, rfl, nofun, .feed rest, ?_, ?_⟩
    · rintro _ ⟨⟩
      rfl
    · rintro _ ⟨⟩
      rfl

theorem takeLine (returns : Returns l d) :
    ReturnsPair (Definition.takeLine l) (Definition.takeLine d) := by
  induction returns with
  | nil => exact ⟨.nil, .nil⟩
  | @same c l d plain rest ih =>
    rw [Definition.takeLine, Definition.takeLine]
    split
    · exact ⟨.same plain .nil, rest⟩
    · exact ⟨.same plain ih.1, ih.2⟩
  | feed rest => exact ⟨.feed .nil, rest⟩

theorem lines (returns : Returns l d) :
    List.Forall₂ Returns (Definition.lines l) (Definition.lines d) := by
  induction size : l.length using Nat.strongRecOn generalizing l d with
  | _ n ih =>
    subst size
    have line := returns.takeLine
    have further {c : Char} {cs : List Char} (first : l = c :: cs) : List.Forall₂ Returns
        (Definition.lines (Definition.takeLine l).2) (Definition.lines (Definition.takeLine d).2) :=
      ih _ (by rw [first]; exact takeLine_rest_length c cs) line.2 rfl
    cases returns with
    | nil => rw [Definition.lines]; exact .nil
    | same =>
      rw [Definition.lines, Definition.lines]
      exact .cons line.1 (further rfl)
    | feed =>
      rw [Definition.lines, Definition.lines]
      exact .cons line.1 (further rfl)

theorem takeQuestionId? (returns : Returns l d) :
    Option.Rel ReadsSame (Questionnaire.takeQuestionId? l) (Questionnaire.takeQuestionId? d) := by
  cases returns with
  | nil => exact .none
  | @same c l d plain rest =>
    rw [Questionnaire.takeQuestionId?, Questionnaire.takeQuestionId?]
    split
    · obtain ⟨taken, left⟩ := rest.takeRun (p := isQuestionIdChar) rfl rfl
      exact .some ⟨congrArg (c :: ·) taken, left⟩
    · exact .none
  | feed => exact .none

end Returns

end Questionnaire.Definition
