import Questionnaire.Survey.Context
import Questionnaire.Survey.Markup
import Questionnaire.Survey.Record

/-! The markup of a record. Every element identifier begins with the question it
belongs to, and the name of an input is the question and the key of its field. A
computed span is empty and holds its expression, numbered within the question. -/
namespace Questionnaire

/-- The identifier of a computed span, counted from one. -/
def computedId (question : String) (number : Nat) : String :=
  question ++ "_computed_" ++ toString number

def FieldKind.inputType : FieldKind → String
  | number => "number"
  | date => "date"
  | month => "month"
  | text | textArea | other => "text"

namespace Rendering

open Markup

def fieldAttributes (question : String) (f : Field) : List Attribute :=
  let name := question ++ "_" ++ f.key
  [.of "id" name, .of "name" name] ++
    Attribute.ofOption "data-min-expr" f.minimum ++
    Attribute.ofOption "data-max-expr" f.maximum ++
    Attribute.ofOption "data-displayif" f.displayIf ++
    Attribute.ofOption "data-xor" f.exclusiveGroup ++
    if f.disabled then [⟨"disabled", none⟩] else []

def field (question : String) (f : Field) : Markup :=
  let attributes := fieldAttributes question f
  match f.kind with
  | .textArea => element "textarea" attributes []
  | .other => void "input" ([.of "type" "text", .of "class" "other"] ++ attributes)
  | kind => void "input" (.of "type" kind.inputType :: attributes)

def computedSpan (question : String) (number : Nat) (expression : String) : Markup :=
  element "span" [.of "class" "computed", .of "id" (computedId question number),
    .of "data-expr" expression] []

/-- The markup of inline parts, given how many computed spans stand before them. A
variable that the context does not know leaves nothing. -/
def inlines (question : String) (context : Context) (computed : Nat) :
    List Inline → List Markup
  | [] => []
  | .text s :: more => text s :: inlines question context computed more
  | .context name :: more =>
    ((context.get? name).map text).toList ++ inlines question context computed more
  | .computed expression :: more =>
    computedSpan question (computed + 1) expression ::
      inlines question context (computed + 1) more
  | .field f :: more => field question f :: inlines question context computed more

def optionInput (question : String) (c : Choice) : Markup :=
  let key := c.kind.group.key
  let inputType := match c.kind with
    | .exclusive => "radio"
    | .inclusive | .sole => "checkbox"
  void "input" (
    [.of "type" inputType, .of "id" (question ++ "_" ++ key ++ "_" ++ c.value),
      .of "name" (question ++ "_" ++ key), .of "value" c.value] ++
    (if c.kind = .sole then [.of "data-exclusive" "true"] else []) ++
    if c.skips.isEmpty then []
    else [.of "data-skip" (" ".intercalate (c.skips.map SkipDirective.target))])

def line (question : String) (context : Context) (computed : Nat) : BodyLine → Markup
  | .text parts => element "p" [] (inlines question context computed parts)
  | .choice c =>
    element "div" [.of "class" "option"] [optionInput question c,
      element "label" [.of "for" (question ++ "_" ++ c.kind.group.key ++ "_" ++ c.value)]
        (inlines question context computed c.label)]

def countComputed (parts : List Inline) : Nat := (parts.filterMap Inline.computed?).length

def body (question : String) (context : Context) (computed : Nat) :
    List BodyLine → List Markup
  | [] => []
  | l :: more =>
    line question context computed l ::
      body question context (computed + countComputed l.inlines) more

def cell (id : String) (row : GridRow) (column : GridColumn) : Markup :=
  match column.kind with
  | .text =>
    let name := id ++ "_" ++ cellKey row.id column.value
    element "td" [] [void "input" [.of "type" "text", .of "id" name, .of "name" name]]
  | kind =>
    element "td" [] [void "input" [.of "type" kind.name,
      .of "id" (id ++ "_" ++ row.id ++ "_" ++ column.value),
      .of "name" (id ++ "_" ++ row.id), .of "value" column.value]]

def tableRow (id : String) (columns : List GridColumn) (r : GridRow) : Markup :=
  element "tr" [.of "id" (id ++ "_" ++ r.id ++ "_row")]
    (element "th" [] [text r.prompt] :: columns.map (cell id r))

def grid (t : GridTable) : List Markup :=
  let shared := Text.trim t.sharedText
  let head := element "thead" [] [element "tr" []
    (element "th" [] [] :: t.columns.map fun column => element "th" [] [text column.label])]
  let rows := element "tbody" [] (t.rows.map (tableRow t.id t.columns))
  (if shared.isEmpty then [] else [element "p" [] [text shared]]) ++
    [element "table" [.of "class" "grid", .of "id" (t.id ++ "_table")] [head, rows]]

def mandateMark : Mandate → List Attribute
  | .hard => [.of "data-mandate" "hard"]
  | .soft => [.of "data-mandate" "soft"]
  | .optional => []

def submitButton : Markup :=
  element "button" [.of "type" "submit", .of "id" (terminalId ++ "_submit"),
    .of "name" (terminalId ++ "_submit")] [text "Submit"]

def questionSection (r : Record) (children : List Markup) : Markup :=
  element "section" ([.of "class" "question", .of "id" r.id] ++ mandateMark r.directives.mandate)
    (children ++ if r.isTerminal then [submitButton] else [])

end Rendering

namespace Record

open Rendering

/-- The markup of the record; a marker has none. -/
def markup (r : Record) (context : Context) : List Markup :=
  match r.content with
  | .marker _ => []
  | .body ls => [questionSection r (body r.id context 0 ls)]
  | .grid t => [questionSection r (grid t)]
  | .gridRow gridRow columns =>
    let id := (r.membership.map Membership.grid).getD r.id
    [.element "table" [.of "class" "grid"] [.element "tbody" [] [tableRow id columns gridRow]]]

def markupText (r : Record) (context : Context) : String := Markup.render (r.markup context)

end Record

/-- Texts of markup by record, each rendered at the first request for it. -/
structure MarkupCache where
  rendered : Dict String := ∅

namespace MarkupCache

def isRendered (cache : MarkupCache) (id : String) : Bool := cache.rendered.contains id

def request (cache : MarkupCache) (context : Context) (r : Record) : String × MarkupCache :=
  match cache.rendered.get? r.id with
  | some text => (text, cache)
  | none =>
    let text := r.markupText context
    (text, ⟨cache.rendered.insert r.id text⟩)

end MarkupCache

end Questionnaire
