import Mathlib.Data.Finset.Card
import Questionnaire.Proofs.Survey.Identity
import Questionnaire.Proofs.Survey.RenderedControls

/-! The number of fields that is read from the markup of a record is the number of its field keys,
whatever the texts of the record and the variables of the context are. -/
namespace Questionnaire

theorem nodup_eraseDups (xs : List String) : xs.eraseDups.Nodup := by
  induction length : xs.length using Nat.strongRecOn generalizing xs with
  | ind n ih =>
    subst length
    cases xs with
    | nil => exact List.nodup_nil
    | cons x xs =>
      have shorter : (xs.filter fun y => !y == x).length < (x :: xs).length :=
        Nat.lt_succ_of_le (List.length_filter_le _ xs)
      rw [List.eraseDups_cons, List.nodup_cons, List.mem_eraseDups]
      exact ⟨by simp, ih _ shorter _ rfl⟩

theorem eraseDups_length (xs : List String) : xs.eraseDups.length = xs.toFinset.card := by
  have same : xs.eraseDups.toFinset = xs.toFinset := by
    ext x
    simp
  rw [← same, List.toFinset_card_of_nodup (nodup_eraseDups xs)]

theorem card_map {f : String → String} (injective : Function.Injective f) (xs : List String) :
    (xs.map f).toFinset.card = xs.toFinset.card := by
  have image : (xs.map f).toFinset = xs.toFinset.image f := by
    ext y
    simp
  rw [image, Finset.card_image_of_injective _ injective]

/-- Controls with names are counted by their names. -/
theorem Markup.Offers.countFields {nodes : List Markup} {names : List String}
    (offers : Markup.Offers nodes names) :
    countFields (Markup.render nodes) = names.toFinset.card := by
  have keys {controls : List (List Attribute)} {names : List String}
      (answers : List.Forall₂ Markup.Answers controls names) :
      (controls.map (·.flatMap Attribute.chars)).filterMap FieldCount.controlKey? =
        names.map Markup.escape := by
    induction answers with
    | nil => rfl
    | cons answers later ih => rw [List.map_cons, List.filterMap_cons, answers, ih]; rfl
  rw [Questionnaire.countFields, FieldCount.controls_render offers.plain, keys offers.answers,
    eraseDups_length, card_map fun a b => Markup.escape_injective]

namespace Record

open Rendering Markup

/-- Whose name the controls of a record begin with. -/
def controlOwner (r : Record) : String :=
  match r.content with
  | .grid table => table.id
  | .gridRow .. => (r.membership.map Membership.grid).getD r.id
  | .body _ | .marker _ => r.id

/-- The keys of the controls of a record, one for each control. -/
def controlKeys (r : Record) : List String :=
  match r.content with
  | .body lines => lines.flatMap lineKeys
  | .grid table => table.rows.flatMap fun row => table.columns.map (cellControlKey row)
  | .gridRow row columns => columns.map (cellControlKey row)
  | .marker _ => []

/-- Names and values of a record hold no sign of equality. -/
structure Writable (r : Record) : Prop where
  owner : Unassigning r.controlOwner
  lines : ∀ l ∈ r.lines, l.Keyed
  grid : ∀ table, r.content = .grid table →
    (∀ row ∈ table.rows, Unassigning row.id) ∧ ∀ column ∈ table.columns, Unassigning column.value
  row : ∀ row columns, r.content = .gridRow row columns →
    Unassigning row.id ∧ ∀ column ∈ columns, Unassigning column.value

theorem offers_questionSection {r : Record} {nodes : List Markup} {names : List String}
    (offers : Offers nodes names) : Offers [questionSection r nodes] names := by
  have button : Offers (if r.isTerminal then [submitButton] else []) [] := by
    split
    · exact .element (by decide) (by simp [Attribute.of, knownNames]) (.text _)
    · exact .nil
  have known : ∀ a ∈ [.of "class" "question", .of "id" r.id] ++ mandateMark r.directives.mandate,
      a.name ∈ knownNames := by
    cases r.directives.mandate <;> simp [mandateMark, Attribute.of, knownNames]
  have whole := offers.append button
  rw [List.append_nil] at whole
  exact .element (by decide) known whole

theorem offers_grid {table : GridTable} (owner : Unassigning table.id)
    (rows : ∀ row ∈ table.rows, Unassigning row.id)
    (values : ∀ column ∈ table.columns, Unassigning column.value) :
    Offers (Rendering.grid table) ((table.rows.flatMap fun row =>
      table.columns.map (cellControlKey row)).map (table.id ++ "_" ++ ·)) := by
  have shared : Offers (if (Text.trim table.sharedText).isEmpty then []
      else [.element "p" [] [.text (Text.trim table.sharedText)]]) [] := by
    split
    · exact .nil
    · exact .bare (by decide) (.text _)
  have head : Offers [.element "thead" [] [.element "tr" [] (.element "th" [] [] ::
      table.columns.map fun column => .element "th" [] [.text column.label])]] [] := by
    have labels := Offers.map (f := fun column : GridColumn => Markup.element "th" [] [.text column.label])
      (g := fun _ => [])
      fun column (_ : column ∈ table.columns) =>
        .bare (by decide) (.text column.label)
    have corner : Offers [.element "th" [] []] [] :=
      .bare (by decide) .nil
    have nothing : table.columns.flatMap (fun _ => ([] : List String)) = [] := by simp
    rw [nothing] at labels
    exact .bare (by decide)
      (.bare (by decide) (corner.cons labels))
  have body : Offers [.element "tbody" [] (table.rows.map (tableRow table.id table.columns))]
      ((table.rows.flatMap fun row => table.columns.map (cellControlKey row)).map
        (table.id ++ "_" ++ ·)) := by
    refine .bare (by decide) ?_
    rw [List.map_flatMap]
    refine Offers.map fun row member => ?_
    rw [List.map_map]
    exact offers_tableRow owner (rows row member) values
  exact shared.append (.element (by decide) (by simp [Attribute.of, knownNames])
    (head.cons body))

theorem offers_markup {r : Record} (writable : r.Writable) (context : Context) :
    Offers (r.markup context) (r.controlKeys.map (r.controlOwner ++ "_" ++ ·)) := by
  have owner := writable.owner
  unfold markup controlKeys
  unfold controlOwner at owner ⊢
  cases content : r.content with
  | marker => exact .nil
  | body lines =>
    have keyed := writable.lines
    simp only [Record.lines, content] at keyed owner
    exact offers_questionSection (offers_body owner keyed 0)
  | grid table =>
    obtain ⟨rows, values⟩ := writable.grid table content
    simp only [content] at owner
    exact offers_questionSection (offers_grid owner rows values)
  | gridRow row columns =>
    obtain ⟨rowPlain, values⟩ := writable.row row columns content
    simp only [content] at owner
    have line := offers_tableRow owner rowPlain values
    dsimp only
    rw [List.map_map]
    exact .element (by decide) (by simp [Attribute.of, knownNames])
      (.bare (by decide) line)

end Record

/-! ### Keys of fields -/

/-- Every group of options is a field once, every other field is one where it stands. -/
theorem mem_lineFields (ls : List BodyLine) (seen : List AnswerField) (key : String) :
    (key ∈ (lineFields seen ls).map AnswerField.key ∨ key ∈ seen.map AnswerField.key) ↔
      (key ∈ ls.flatMap Rendering.lineKeys ∨ key ∈ seen.map AnswerField.key) := by
  have inline (parts : List Inline) : (inlineFields parts).map AnswerField.key = inlineKeys parts := by
    rw [inlineFields, inlineKeys, List.map_map]
    rfl
  induction ls generalizing seen with
  | nil => rfl
  | cons l ls ih =>
    cases l with
    | text parts =>
      simp only [lineFields, List.map_append, List.mem_append, List.flatMap_cons, inline,
        Rendering.lineKeys, or_assoc, ih seen]
    | choice c =>
      simp only [lineFields]
      split
      · next known =>
        have group : c.kind.group.key ∈ seen.map AnswerField.key :=
          List.mem_map_of_mem (List.contains_iff_mem.1 known)
        simp only [List.map_append, List.mem_append, List.flatMap_cons, inline, Rendering.lineKeys,
          List.mem_cons, or_assoc, ih seen]
        grind
      · have later := ih (c.kind.group :: seen)
        simp only [List.map_cons, List.map_append, List.mem_append, List.flatMap_cons, inline,
          Rendering.lineKeys, List.mem_cons] at later ⊢
        grind

/-- The columns of a row that are no texts are one field together. -/
theorem mem_rowFields (row : GridRow) (columns : List GridColumn) (chosen : Bool) (key : String) :
    (key ∈ (rowFields row chosen columns).map AnswerField.key ∨ chosen = true ∧ key = row.id) ↔
      (key ∈ columns.map (Rendering.cellControlKey row) ∨ chosen = true ∧ key = row.id) := by
  induction columns generalizing chosen with
  | nil => rfl
  | cons column columns ih =>
    have same := ih chosen
    have once := ih true
    cases kind : column.kind <;> cases chosen <;>
      simp_all [rowFields, Rendering.cellControlKey] <;> grind

namespace Record

theorem mem_fields (r : Record) (key : String) :
    key ∈ r.fields.map AnswerField.key ↔ key ∈ r.controlKeys := by
  have row (row : GridRow) (columns : List GridColumn) :
      key ∈ (rowFields row false columns).map AnswerField.key ↔
        key ∈ columns.map (Rendering.cellControlKey row) := by
    have keys := mem_rowFields row columns false key
    simpa using keys
  unfold fields controlKeys
  cases r.content with
  | marker => rfl
  | body lines => simpa using mem_lineFields lines [] key
  | grid table =>
    rw [List.map_flatMap, List.mem_flatMap, List.mem_flatMap]
    simp only [row]
  | gridRow cell columns => exact row cell columns

/-- In the markup of a record whose names can be written, the fields are counted as they are. -/
theorem countFields_markup {r : Record} (writable : r.Writable) (context : Context) :
    countFields (r.markupText context) = (r.fields.map AnswerField.key).toFinset.card := by
  have injective : Function.Injective (r.controlOwner ++ "_" ++ ·) := by
    intro a b same
    have chars := congrArg String.toList same
    simp only [String.toList_append] at chars
    exact String.toList_injective (List.append_cancel_left chars)
  have same : r.controlKeys.toFinset = (r.fields.map AnswerField.key).toFinset := by
    ext key
    rw [List.mem_toFinset, List.mem_toFinset, mem_fields]
  rw [markupText, (offers_markup writable context).countFields, card_map injective, same]

theorem unassigning_of_questionId {id : String} (shaped : IsQuestionId id) : Unassigning id :=
  unassigning_of_all (p := isQuestionIdChar) (by decide) shaped.chars

theorem unassigning_of_identifier {id : String} (named : isIdentifier id = true) : Unassigning id := by
  intro member
  unfold isIdentifier at named
  split at named
  · next c cs chars =>
    rw [chars, List.mem_cons] at member
    rw [Bool.and_eq_true, List.all_eq_true] at named
    rcases member with rfl | inside
    · have start := named.1
      revert start
      decide
    · have char := named.2 _ inside
      revert char
      decide
  · cases named

end Record

namespace Survey
variable {s : Survey} {r : Record}

theorem Compiled.writable (compiled : s.Compiled) : ∀ r ∈ s.records ++ s.rows, r.Writable := by
  refine compiled.forall (P := Record.Writable) ?_ ?_
  · intro q shaped
    have owner := Record.unassigning_of_questionId shaped
    unfold Record.ofQuestion
    split
    · refine ⟨owner, ?_, ?_, ?_⟩ <;> intros <;> contradiction
    · refine ⟨owner, Definition.readBody_keyed q.body, ?_, ?_⟩ <;> intros <;> contradiction
  · intro q table shaped named sound
    have owner := Record.unassigning_of_questionId shaped
    rw [← named] at owner
    have rowPlain : ∀ row ∈ table.rows, Unassigning row.id :=
      fun row member => Record.unassigning_of_identifier (sound.rowId row member).1
    constructor
    · refine ⟨owner, ?_, ?_, ?_⟩
      · intros
        contradiction
      · rintro other same
        cases same
        exact ⟨rowPlain, sound.value⟩
      · intros
        contradiction
    · intro index row found
      refine ⟨owner, ?_, ?_, ?_⟩
      · intros
        contradiction
      · intros
        contradiction
      · rintro other columns same
        cases same
        exact ⟨rowPlain row (List.mem_of_getElem? found), sound.value⟩

/-- However the texts of a survey read and whatever the variables of the context hold, the field
count read from the markup of a record, or of the row of a grid, is the number of its field keys. -/
theorem countFields_eq (compiled : s.Compiled) (member : r ∈ s.records ++ s.rows)
    (context : Context) :
    countFields (r.markupText context) = (r.fields.map AnswerField.key).toFinset.card :=
  Record.countFields_markup (compiled.writable r member) context

/-- A question whose texts look like tags and attributes, with a variable that does so as well,
and a grid. -/
def hostileText : String :=
  "[A]\n(1)<input\x7btextarea:n min=type= max=1\x7d\x7b@who\x7d\n|grid G|||R=r|1=c;text:T=t|"

def hostileContext : Context := Context.add {} "who" "<select id=\"B\">"

theorem countFields_hostile : ∃ s : Survey, s.Compiled ∧
    (∃ r, s.get? "A" = some r ∧ r.fields.map AnswerField.key = ["choice", "n"] ∧
      countFields (r.markupText hostileContext) = 2) ∧
    ∃ r, s.get? "R" = some r ∧ r.fields.map AnswerField.key = ["R", "R_T"] ∧
      countFields (r.markupText hostileContext) = 2 := by
  have evaluated : ((compile {} "s" hostileText).toOption.map fun s =>
      ((s.get? "A").map fun r => r.fields.map AnswerField.key,
        (s.get? "R").map fun r => r.fields.map AnswerField.key)) =
      some (some ["choice", "n"], some ["R", "R_T"]) := by
    decide +kernel
  obtain ⟨s, accepted, evaluated⟩ := Option.map_eq_some_iff.1 evaluated
  have compiled := compiled_of_toOption accepted
  simp only [Prod.mk.injEq, Option.map_eq_some_iff] at evaluated
  obtain ⟨⟨question, found, fields⟩, row, foundRow, cells⟩ := evaluated
  refine ⟨s, compiled, ⟨question, found, fields, ?_⟩, row, foundRow, cells, ?_⟩
  · rw [countFields_eq compiled (denoted_of_get? found).1, fields]
    decide
  · rw [countFields_eq compiled (denoted_of_get? foundRow).1, cells]
    decide

end Survey

end Questionnaire
