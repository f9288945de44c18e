import Questionnaire.Proofs.Definition.Table
import Questionnaire.Proofs.Session.Sitting
import Questionnaire.Proofs.Survey.ComputedSpans
import Questionnaire.Report.Prompt

/-! Computed spans in step. The markup of a question, the computed values of a session and a prompt
go through the text of the question each for itself. All of them meet its expressions in one order,
so each span has the number, the expression and the value of its place. -/
namespace Questionnaire

namespace Report

open Rendering

variable {variableText : String → String}

/-- What stands in front of a line at a terminal. -/
def lineMark : BodyLine → String
  | .text _ => ""
  | .choice c => "  (" ++ c.value ++ ") "

/-- The parts of a line at a terminal. -/
def lineParts (l : BodyLine) : List Inline := .text (lineMark l) :: (l.inlines ++ [.text "\n"])

def bodyParts (lines : List BodyLine) : List Inline := lines.flatMap lineParts

/-- A part at a terminal. A computed span shows the value, the others have their own text. -/
def partText (variableText : String → String) (value : Option Value) : Inline → String
  | .text s => s
  | .context name => variableText name
  | .field f => "[" ++ f.key ++ "]"
  | .computed _ => (value.map Value.display).getD "?"

/-- The value for the computed span behind some parts: as many values are in front of it as there
are computed spans among the parts. -/
def valueBehind (values : List (Option Value)) (parts : List Inline) : Option Value :=
  values[countComputed parts]?.join

/-- Parts in a row, each computed span with the value that has its number. -/
def partsText (variableText : String → String) (values : List (Option Value))
    (parts : List Inline) : String :=
  String.join (parts.mapIdx fun i part =>
    partText variableText (valueBehind values (parts.take i)) part)

theorem countComputed_append (parts more : List Inline) :
    countComputed (parts ++ more) = countComputed parts + countComputed more := by
  rw [countComputed, List.filterMap_append, List.length_append]
  rfl

theorem countComputed_cons (part : Inline) (parts : List Inline) :
    countComputed (part :: parts) = countComputed [part] + countComputed parts :=
  countComputed_append [part] parts

theorem valueBehind_append (values : List (Option Value)) (parts more : List Inline) :
    valueBehind values (parts ++ more) =
      valueBehind (values.drop (countComputed parts)) more := by
  rw [valueBehind, valueBehind, countComputed_append, List.getElem?_drop]

theorem partsText_cons (values : List (Option Value)) (part : Inline) (parts : List Inline) :
    partsText variableText values (part :: parts) =
      partText variableText values.head?.join part ++
        partsText variableText (values.drop (countComputed [part])) parts := by
  have later (i : Nat) : valueBehind values ((part :: parts).take (i + 1)) =
      valueBehind (values.drop (countComputed [part])) (parts.take i) :=
    valueBehind_append values [part] (parts.take i)
  have first : valueBehind values ((part :: parts).take 0) = values.head?.join := by
    rw [List.head?_eq_getElem?]
    rfl
  simp only [partsText, List.mapIdx_cons, String.join_cons, first, later]

theorem partsText_append (values : List (Option Value)) (parts more : List Inline) :
    partsText variableText values (parts ++ more) = partsText variableText values parts ++
      partsText variableText (values.drop (countComputed parts)) more := by
  induction parts generalizing values with
  | nil => exact (String.empty_append).symm
  | cons part parts ih =>
    rw [List.cons_append, partsText_cons, partsText_cons, ih, String.append_assoc, List.drop_drop,
      countComputed_cons part parts]

/-- A terminal takes a value from the front at every computed span. -/
theorem inlineText_eq (values : List (Option Value)) (parts : List Inline) :
    inlineText variableText values parts =
      (partsText variableText values parts, values.drop (countComputed parts)) := by
  induction parts generalizing values with
  | nil => rfl
  | cons part parts ih =>
    rw [partsText_cons, countComputed_cons part parts, ← List.drop_drop]
    cases part with
    | text | context | field =>
      rw [inlineText, ih]
      rfl
    | computed =>
      rw [inlineText, ih, ← List.drop_one]
      rfl

theorem bodyParts_cons (l : BodyLine) (lines : List BodyLine) :
    bodyParts (l :: lines) = .text (lineMark l) :: (l.inlines ++ .text "\n" :: bodyParts lines) := by
  rw [bodyParts, List.flatMap_cons, lineParts, List.cons_append, List.append_assoc,
    List.singleton_append]
  rfl

theorem linesText_cons (values : List (Option Value)) (l : BodyLine) (lines : List BodyLine) :
    linesText variableText values (l :: lines) =
      lineMark l ++ partsText variableText values l.inlines ++ "\n" ++
        linesText variableText (values.drop (countComputed l.inlines)) lines := by
  cases l <;> rw [linesText.eq_def] <;> simp only [inlineText_eq] <;> rfl

theorem linesText_eq (values : List (Option Value)) (lines : List BodyLine) :
    linesText variableText values lines = partsText variableText values (bodyParts lines) := by
  induction lines generalizing values with
  | nil => rfl
  | cons l lines ih =>
    rw [linesText_cons, ih, bodyParts_cons, partsText_cons, partsText_append, partsText_cons,
      String.append_assoc, String.append_assoc]
    rfl

theorem bodyParts_computed (lines : List BodyLine) :
    (bodyParts lines).filterMap Inline.computed? =
      lines.flatMap fun l => l.inlines.filterMap Inline.computed? := by
  induction lines with
  | nil => rfl
  | cons l lines ih =>
    rw [bodyParts_cons, List.filterMap_cons_none rfl, List.filterMap_append,
      List.filterMap_cons_none rfl, ih, List.flatMap_cons]

/-- Given the values of the expressions in order, each computed span shows its own. -/
theorem partsText_own (value : String → Option Value) (parts : List Inline) :
    partsText variableText ((parts.filterMap Inline.computed?).map value) parts =
      String.join (parts.map fun part =>
        partText variableText (part.computed?.bind value) part) := by
  induction parts with
  | nil => rfl
  | cons part parts ih =>
    rw [partsText_cons, List.map_cons, String.join_cons, ← ih]
    cases part <;> rfl

end Report

namespace Session
variable {s : Session} {question : String} {r : Record} {lines : List BodyLine}

theorem computedValues_values (found : s.survey.get? question = some r) :
    (s.computedValues question).map ComputedValue.value =
      r.computedExpressions.map fun expression => (s.evaluate expression).toOption := by
  rw [computedValues, found]
  exact List.ext_getElem (by simp) (by simp)

/-- The spans of a question, in its markup, among the computed values and in a prompt, are in step.
Under each number stands the expression that the text has there, and the prompt shows for it the
value with this number, whatever the values are; with those of the session, each span shows the
value of its own expression, or a question mark if it has failed. -/
theorem computed_in_step (found : s.survey.get? question = some r)
    (body : r.content = .body lines) :
    (∃ text d, s.markup? question = some text ∧ Markup.read text = some d ∧
      d.computedSpans = r.computedExpressions.mapIdx fun i expression =>
        ⟨some (Markup.escape (computedId question (i + 1))), some (Markup.escape expression)⟩) ∧
    (s.computedValues question = r.computedExpressions.mapIdx fun i expression =>
      ⟨computedId question (i + 1), expression, (s.evaluate expression).toOption⟩) ∧
    (Report.bodyParts lines).filterMap Inline.computed? = r.computedExpressions ∧
    ∀ variableText, (∀ values, Report.prompt r values variableText =
        Text.trim (Report.partsText variableText values (Report.bodyParts lines))) ∧
      Report.prompt r ((s.computedValues question).map ComputedValue.value) variableText =
        Text.trim (String.join ((Report.bodyParts lines).map fun part =>
          Report.partText variableText
            (part.computed?.bind fun expression => (s.evaluate expression).toOption) part)) := by
  have own : (Report.bodyParts lines).filterMap Inline.computed? = r.computedExpressions := by
    rw [Report.bodyParts_computed, Record.computedExpressions, Record.lines, body]
  have prompt (variableText : String → String) (values : List (Option Value)) :
      Report.prompt r values variableText =
        Text.trim (Report.partsText variableText values (Report.bodyParts lines)) := by
    rw [Report.prompt, body]
    exact congrArg Text.trim (Report.linesText_eq values lines)
  refine ⟨?_, ?_, own, fun variableText => ⟨prompt variableText, ?_⟩⟩
  · obtain ⟨d, read, spans⟩ := Record.computedSpans_markupText body s.context
    refine ⟨_, d, congrArg (Option.map _) found, read, spans.trans ?_⟩
    rw [get?_id found, Markup.ComputedSpan.numbered]
    exact List.ext_getElem (by simp) (by simp [Markup.ComputedSpan.map])
  · rw [computedValues, found]
  · rw [prompt, computedValues_values found, ← own, Report.partsText_own]

/-- Spans in a line and in the labels of options, among a field and a variable. -/
def spansText : String :=
  "[A]\nSum \x7b#1 + 1\x7d of \x7btext\x7d\n(1) is \x7b#1 < 2\x7d and \x7b@user\x7d\n" ++
    "(2) \x7b#A.text\x7d\x7b#3\x7d\n[END]"

/-- Four spans, the second without a value and the last behind all values. -/
theorem computed_in_step_spansText : ∃ s r lines, compile {} none "" spansText = .ok s ∧
    s.survey.get? "A" = some r ∧ r.content = .body lines ∧
    (∃ text d, s.markup? "A" = some text ∧ Markup.read text = some d ∧ d.computedSpans =
      [⟨some "A_computed_1", some "1 + 1"⟩, ⟨some "A_computed_2", some "1 &lt; 2"⟩,
        ⟨some "A_computed_3", some "A.text"⟩, ⟨some "A_computed_4", some "3"⟩]) ∧
    (s.computedValues "A" = ["1 + 1", "1 < 2", "A.text", "3"].mapIdx fun i expression =>
      ⟨computedId "A" (i + 1), expression, (s.evaluate expression).toOption⟩) ∧
    Text.trim (Report.partsText (fun _ => "who") [some (.text "x"), none, some (.text "y")]
      (Report.bodyParts lines)) = "Sum x of [text]\n  (1) is ? and who\n  (2) y?" := by
  have evaluated : ((compile {} none "" spansText).toOption.map fun s =>
      (s.survey.get? "A").map fun r => (r.computedExpressions,
        Report.prompt r [some (.text "x"), none, some (.text "y")] fun _ => "who")) =
      some (some (["1 + 1", "1 < 2", "A.text", "3"],
        "Sum x of [text]\n  (1) is ? and who\n  (2) y?")) := by
    decide +kernel
  obtain ⟨s, accepted, known⟩ := exists_ok_of_map evaluated
  obtain ⟨r, found, facts⟩ := Option.map_eq_some_iff.1 known
  obtain ⟨expressions, shown⟩ := Prod.mk.inj facts
  obtain ⟨lines, body⟩ : ∃ lines, r.content = .body lines := by
    cases content : r.content with
    | body lines => exact ⟨lines, rfl⟩
    | grid | gridRow | marker =>
      simp [Record.computedExpressions, Record.lines, content] at expressions
  obtain ⟨⟨text, d, markup, read, spans⟩, values, -, prompt⟩ := computed_in_step found body
  rw [expressions] at spans values
  refine ⟨s, r, lines, accepted, found, body, ⟨text, d, markup, read, spans.trans ?_⟩, values, ?_⟩
  · decide
  · rw [← (prompt _).1, shown]

end Session

end Questionnaire
