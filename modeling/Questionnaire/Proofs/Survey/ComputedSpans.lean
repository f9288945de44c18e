import Questionnaire.Proofs.Survey.StartTags

/-! The computed spans of markup. The spans that a reader of the written markup finds are the
expressions of the record in the order of the text, each under its number. -/
namespace Questionnaire

namespace Markup

/-- A computed span by its identifier and its expression. -/
structure ComputedSpan where
  id : Option String
  expression : Option String
deriving DecidableEq

namespace ComputedSpan

def map (f : String → String) (span : ComputedSpan) : ComputedSpan :=
  ⟨span.id.map f, span.expression.map f⟩

/-- The spans of expressions, the first of them with the number behind this one. -/
def numbered (question : String) (number : Nat) (expressions : List String) : List ComputedSpan :=
  expressions.mapIdx fun i expression =>
    ⟨some (computedId question (number + i + 1)), some expression⟩

theorem numbered_append (question : String) (number : Nat) (first later : List String) :
    numbered question number (first ++ later) =
      numbered question number first ++ numbered question (number + first.length) later := by
  simp only [numbered, List.mapIdx_append]
  congr 2
  funext i expression
  rw [Nat.add_comm i, ← Nat.add_assoc number, Nat.add_assoc]

end ComputedSpan

/-- A span of the class of computed spans. -/
def computedSpan? (tag : String) (attributes : List Attribute) : Option ComputedSpan :=
  if tag = "span" ∧ Attribute.find? "class" attributes = some "computed" then
    some ⟨Attribute.find? "id" attributes, Attribute.find? "data-expr" attributes⟩
  else none

/-- The computed spans of a document from front to back. -/
def Document.computedSpans (d : Document) : List ComputedSpan := d.starts computedSpan?

theorem computedSpan?_of_ne {tag : String} (other : tag ≠ "span") (attributes : List Attribute) :
    computedSpan? tag attributes = none := if_neg fun span => other span.1

theorem computedSpan?_escape (tag : String) (attributes : List Attribute) :
    computedSpan? tag (attributes.map (Attribute.map escape)) =
      (computedSpan? tag attributes).map (.map escape) := by
  have kept : (Attribute.find? "class" attributes).map escape = some "computed" ↔
      Attribute.find? "class" attributes = some "computed" := by
    have same : escape "computed" = "computed" := by decide
    cases Attribute.find? "class" attributes with
    | none => simp
    | some value =>
      rw [Option.map_some, Option.some_inj, Option.some_inj, ← same]
      exact ⟨escape_injective, congrArg escape⟩
  simp only [computedSpan?, Attribute.find?_map, kept]
  split <;> rfl

end Markup

namespace Rendering

open Markup

variable (question : String) (context : Context)

theorem spans_field (f : Field) : Starts computedSpan? [field question f] [] := by
  unfold field
  dsimp only
  split
  · exact .element_none (computedSpan?_of_ne (by decide) _) .nil
  · exact .void_none (computedSpan?_of_ne (by decide) _)
  · exact .void_none (computedSpan?_of_ne (by decide) _)

theorem spans_inlines (parts : List Inline) (computed : Nat) :
    Starts computedSpan? (inlines question context computed parts)
      (ComputedSpan.numbered question computed (parts.filterMap Inline.computed?)) := by
  induction parts generalizing computed with
  | nil => exact .nil
  | cons part more ih =>
    cases part with
    | text s => exact (Starts.text s).cons (ih computed)
    | context name => exact (Starts.ofOption (context.get? name)).append (ih computed)
    | computed expression =>
      have here : Starts computedSpan? [computedSpan question (computed + 1) expression]
          (ComputedSpan.numbered question computed [expression]) := fun _ => rfl
      have split : (Inline.computed expression :: more).filterMap Inline.computed? =
          [expression] ++ more.filterMap Inline.computed? := rfl
      rw [split, ComputedSpan.numbered_append]
      exact here.cons (ih (computed + 1))
    | field f => exact (spans_field question f).cons (ih computed)

theorem spans_line (l : BodyLine) (computed : Nat) :
    Starts computedSpan? [line question context computed l]
      (ComputedSpan.numbered question computed (l.inlines.filterMap Inline.computed?)) := by
  have inside := spans_inlines question context l.inlines computed
  cases l with
  | text parts => exact .element_none (computedSpan?_of_ne (by decide) []) inside
  | choice c =>
    have input : Starts computedSpan? [optionInput question c] [] :=
      .void_none (computedSpan?_of_ne (by decide) _)
    refine .element_none (computedSpan?_of_ne (by decide) _) (input.cons ?_)
    exact .element_none (computedSpan?_of_ne (by decide) _) inside

theorem spans_body (ls : List BodyLine) (computed : Nat) :
    Starts computedSpan? (body question context computed ls) (ComputedSpan.numbered question computed
      (ls.flatMap fun l => l.inlines.filterMap Inline.computed?)) := by
  induction ls generalizing computed with
  | nil => exact .nil
  | cons l ls ih =>
    rw [List.flatMap_cons, ComputedSpan.numbered_append]
    exact (spans_line question context l computed).cons (ih _)

end Rendering

namespace Record

open Markup Rendering

/-- The computed spans of a record that is read are its expressions, numbered within it. -/
theorem computedSpans_markupText {r : Record} {lines : List BodyLine}
    (body : r.content = .body lines) (context : Context) :
    ∃ d, Markup.read (r.markupText context) = some d ∧ d.computedSpans =
      (ComputedSpan.numbered r.id 0 r.computedExpressions).map (.map escape) := by
  have spans : Starts computedSpan? (r.markup context)
      (ComputedSpan.numbered r.id 0 r.computedExpressions) := by
    rw [Record.markup, body, computedExpressions, Record.lines, body]
    exact r.starts_questionSection (computedSpan?_of_ne (by decide))
      (computedSpan?_of_ne (by decide)) (spans_body r.id context lines 0)
  exact spans.read (r.readable_markup context) computedSpan?_escape

end Record

end Questionnaire
