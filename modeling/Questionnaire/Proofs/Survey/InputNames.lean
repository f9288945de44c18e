import Questionnaire.Proofs.Definition.Table
import Questionnaire.Proofs.Survey.FieldCount
import Questionnaire.Proofs.Survey.StartTags

/-! The names of inputs. An input is named by its question and the key of its field, with an
underscore between them, and underscores stand within identifiers and keys as well. So two inputs
share a name if the identifier of one question goes on with the beginning of a key of the other, and
in no other case. -/
namespace Questionnaire

namespace Markup

def inputTags : List String := ["input", "textarea", "select"]

/-- What an input is named, if it has a name. -/
def inputName? (tag : String) (attributes : List Attribute) : Option (Option String) :=
  if tag ∈ inputTags then some (Attribute.find? "name" attributes) else none

/-- The names of the inputs of a document from front to back. -/
def Document.inputNames (d : Document) : List (Option String) := d.starts inputName?

theorem inputName?_escape (tag : String) (attributes : List Attribute) :
    inputName? tag (attributes.map (Attribute.map escape)) =
      (inputName? tag attributes).map (Option.map escape) := by
  rw [inputName?, inputName?, Attribute.find?_map]
  split <;> rfl

/-- An element that is no input has the names of its children. -/
theorem names_element {tag : String} (other : tag ∉ inputTags) {attributes : List Attribute}
    {nodes : List Markup} {names : List (Option String)} (children : Starts inputName? nodes names) :
    Starts inputName? [.element tag attributes nodes] names :=
  .element_none (if_neg other) children

end Markup

namespace Rendering

open Markup

variable (question : String) (context : Context)

/-- The names of inputs with these keys. -/
def inputNames (question : String) (keys : List String) : List (Option String) :=
  keys.map fun key => some (question ++ "_" ++ key)

theorem inputNames_append (first later : List String) : inputNames question (first ++ later) =
    inputNames question first ++ inputNames question later := List.map_append ..

theorem inputNames_flatMap {α : Type} (keys : α → List String) (xs : List α) :
    inputNames question (xs.flatMap keys) = xs.flatMap fun x => inputNames question (keys x) :=
  List.map_flatMap

theorem names_field (f : Field) :
    Starts inputName? [field question f] (inputNames question [f.key]) := by
  have named : Attribute.find? "name" (fieldAttributes question f) =
      some (question ++ "_" ++ f.key) := by
    rw [fieldAttributes_eq]
    rfl
  unfold field
  dsimp only
  split
  · exact .element (congrArg some named) .nil
  · exact .void (congrArg some named)
  · exact .void (congrArg some named)

theorem names_inlines (parts : List Inline) (computed : Nat) :
    Starts inputName? (inlines question context computed parts)
      (inputNames question (inlineKeys parts)) := by
  induction parts generalizing computed with
  | nil => exact .nil
  | cons part more ih =>
    cases part with
    | text s => exact (Starts.text s).cons (ih computed)
    | context name => exact (Starts.ofOption (context.get? name)).append (ih computed)
    | computed expression =>
      have span : Starts inputName? [computedSpan question (computed + 1) expression] [] :=
        names_element (by decide) .nil
      exact span.cons (ih (computed + 1))
    | field f => exact (names_field question f).cons (ih computed)

theorem names_line (l : BodyLine) (computed : Nat) :
    Starts inputName? [line question context computed l] (inputNames question (lineKeys l)) := by
  cases l with
  | text parts =>
    exact names_element (by decide)
      (names_inlines question context parts computed)
  | choice c =>
    have input : Starts inputName? [optionInput question c]
        (inputNames question [c.kind.group.key]) := .void rfl
    refine names_element (by decide) (input.cons ?_)
    exact names_element (by decide)
      (names_inlines question context c.label computed)

theorem names_body (ls : List BodyLine) (computed : Nat) :
    Starts inputName? (body question context computed ls)
      (inputNames question (ls.flatMap lineKeys)) := by
  induction ls generalizing computed with
  | nil => exact .nil
  | cons l ls ih =>
    rw [List.flatMap_cons, inputNames_append]
    exact (names_line question context l computed).cons (ih _)

theorem names_cell (row : GridRow) (column : GridColumn) :
    Starts inputName? [cell question row column]
      (inputNames question [cellControlKey row column]) := by
  unfold cell cellControlKey
  cases column.kind with
  | text => exact names_element (by decide) (.void rfl)
  | radio => exact names_element (by decide) (.void rfl)
  | checkbox => exact names_element (by decide) (.void rfl)

theorem names_tableRow (row : GridRow) (columns : List GridColumn) :
    Starts inputName? [tableRow question columns row]
      (inputNames question (columns.map (cellControlKey row))) := by
  have prompt : Starts inputName? [.element "th" [] [.text row.prompt]] [] :=
    names_element (by decide) (.text _)
  have cells := Starts.map (names_cell question row) columns
  rw [← inputNames_flatMap, ← List.map_eq_flatMap] at cells
  exact names_element (by decide) (prompt.cons cells)

theorem names_grid (table : GridTable) : Starts inputName? (Rendering.grid table)
    (inputNames table.id
      (table.rows.flatMap fun row => table.columns.map (cellControlKey row))) := by
  have shared : Starts inputName? (if (Text.trim table.sharedText).isEmpty then []
      else [.element "p" [] [.text (Text.trim table.sharedText)]]) [] := by
    split
    · exact .nil
    · exact names_element (by decide) (.text _)
  have label (column : GridColumn) :
      Starts inputName? [.element "th" [] [.text column.label]] [] :=
    names_element (by decide) (.text _)
  have labels := Starts.map label table.columns
  rw [List.flatMap_eq_nil_iff.2 fun _ _ => rfl] at labels
  have corner : Starts inputName? [.element "th" [] []] [] := names_element (by decide) .nil
  have head : Starts inputName? [.element "thead" [] [.element "tr" [] (.element "th" [] [] ::
      table.columns.map fun column => .element "th" [] [.text column.label])]] [] :=
    names_element (by decide) (names_element (by decide) (corner.cons labels))
  have rows := Starts.map (fun row => names_tableRow table.id row table.columns) table.rows
  rw [← inputNames_flatMap] at rows
  exact shared.append (names_element (by decide) (head.cons (names_element (by decide) rows)))

end Rendering

namespace Record

open Markup Rendering

/-- The inputs of a record are named by its owner and by their keys, one after the other. -/
theorem names_markup (r : Record) (context : Context) :
    Starts inputName? (r.markup context) (inputNames r.controlOwner r.controlKeys) := by
  unfold markup controlOwner controlKeys
  cases r.content with
  | marker => exact .nil
  | body lines =>
    exact r.starts_questionSection (fun _ => rfl) (fun _ => rfl) (names_body r.id context lines 0)
  | grid table =>
    exact r.starts_questionSection (fun _ => rfl) (fun _ => rfl) (names_grid table)
  | gridRow row columns =>
    exact names_element (by decide) (names_element (by decide) (names_tableRow _ row columns))

theorem inputNames_markupText (r : Record) (context : Context) :
    ∃ d, Markup.read (r.markupText context) = some d ∧
      d.inputNames = r.controlKeys.map fun key => some (escape (r.controlOwner ++ "_" ++ key)) := by
  obtain ⟨d, read, names⟩ :=
    (r.names_markup context).read (r.readable_markup context) inputName?_escape
  refine ⟨d, read, names.trans ?_⟩
  rw [inputNames, List.map_map]
  rfl

/-- How an input for a field of the record is named. -/
def inputName (r : Record) (key : String) : String := escape (r.id ++ "_" ++ key)

/-- Two names are equal if they are made for one key of one identifier, or if one identifier goes on
and the other has the rest of it in front of the key. -/
theorem inputName_eq_iff {r r' : Record} {key key' : String} :
    r.inputName key = r'.inputName key' ↔ r.id = r'.id ∧ key = key' ∨
      (∃ part, r'.id = r.id ++ "_" ++ part ∧ key = part ++ "_" ++ key') ∨
      ∃ part, r.id = r'.id ++ "_" ++ part ∧ key' = part ++ "_" ++ key := by
  have within {id id' key key' : String} {w : List Char} (longer : id'.toList = id.toList ++ w)
      (rest : '_' :: key.toList = w ++ '_' :: key'.toList) :
      id = id' ∧ key = key' ∨ ∃ part, id' = id ++ "_" ++ part ∧ key = part ++ "_" ++ key' := by
    cases w with
    | nil =>
      rw [List.append_nil] at longer
      exact .inl ⟨String.toList_injective longer.symm,
        String.toList_injective (List.cons.inj rest).2⟩
    | cons c w =>
      obtain rfl : '_' = c := (List.cons.inj rest).1
      have behind : key.toList = w ++ '_' :: key'.toList := (List.cons.inj rest).2
      exact .inr ⟨String.ofList w, String.toList_injective (by simp [longer]),
        String.toList_injective (by simp [behind])⟩
  constructor
  · intro same
    have chars := congrArg String.toList (escape_injective same)
    rw [String.append_assoc, String.append_assoc] at chars
    simp only [String.toList_append] at chars
    rcases List.append_eq_append_iff.1 chars with ⟨w, longer, rest⟩ | ⟨w, longer, rest⟩
    · exact (within longer rest).imp_right .inl
    · refine (within longer rest).imp ?_ .inr
      exact fun ⟨id, key⟩ => ⟨id.symm, key.symm⟩
  · rintro (⟨id, rfl⟩ | ⟨part, longer, rfl⟩ | ⟨part, longer, rfl⟩)
    · rw [inputName, inputName, id]
    · simp only [inputName, longer, String.append_assoc]
    · simp only [inputName, longer, String.append_assoc]

end Record

namespace Survey
variable {s : Survey}

theorem Compiled.controlOwner_eq (compiled : s.Compiled) :
    ∀ r ∈ s.records, r.controlOwner = r.id := by
  intro r member
  have alone : r.membership = none := by
    obtain ⟨q, -, rfl | ⟨table, rfl⟩⟩ := compiled.origin member
    · unfold Record.ofQuestion
      split <;> rfl
    · rfl
  refine compiled.forall (P := fun r => r.membership = none → r.controlOwner = r.id) ?_ ?_ r
    (List.mem_append_left _ member) alone
  · intro q _ _
    unfold Record.ofQuestion
    split <;> rfl
  · intro q table _ named _
    refine ⟨fun _ => named, fun index row _ placed => ?_⟩
    cases placed

/-- An input's name tells the question and the key of its field. -/
def NamesFields (s : Survey) : Prop :=
  ∀ r ∈ s.records, ∀ r' ∈ s.records, ∀ key ∈ r.controlKeys, ∀ key' ∈ r'.controlKeys,
    r.inputName key = r'.inputName key' → r = r' ∧ key = key'

/-- The inputs of a question that can be visited are named by the identifier of the question and
the keys of its fields. Two of them share a name if they are for one field, or if one key reads like
the rest of a longer identifier with the other key behind it. So a name tells its field exactly if
there is no such key. -/
theorem names_fields_iff (compiled : s.Compiled) :
    (∀ r ∈ s.records, ∀ context, ∃ d, Markup.read (r.markupText context) = some d ∧
      d.inputNames = r.controlKeys.map fun key => some (r.inputName key)) ∧
    (∀ r ∈ s.records, ∀ key, key ∈ r.controlKeys ↔ key ∈ r.fields.map AnswerField.key) ∧
    (∀ r ∈ s.records, ∀ r' ∈ s.records, ∀ key key', r.inputName key = r'.inputName key' ↔
      r = r' ∧ key = key' ∨ (∃ part, r'.id = r.id ++ "_" ++ part ∧ key = part ++ "_" ++ key') ∨
        ∃ part, r.id = r'.id ++ "_" ++ part ∧ key' = part ++ "_" ++ key) ∧
    (s.NamesFields ↔ ∀ r ∈ s.records, ∀ r' ∈ s.records, ∀ part, r'.id = r.id ++ "_" ++ part →
      ∀ key ∈ r'.controlKeys, part ++ "_" ++ key ∉ r.controlKeys) := by
  have pairs : ∀ r ∈ s.records, ∀ r' ∈ s.records, ∀ key key', r.inputName key = r'.inputName key' ↔
      r = r' ∧ key = key' ∨ (∃ part, r'.id = r.id ++ "_" ++ part ∧ key = part ++ "_" ++ key') ∨
        ∃ part, r.id = r'.id ++ "_" ++ part ∧ key' = part ++ "_" ++ key := by
    intro r member r' member' key key'
    have identified : r.id = r'.id ↔ r = r' :=
      ⟨List.inj_on_of_nodup_map compiled.distinct member member', congrArg Record.id⟩
    rw [Record.inputName_eq_iff, identified]
  refine ⟨fun r member context => ?_, fun r _ key => (r.mem_fields key).symm, pairs, ?_, ?_⟩
  · have named := r.inputNames_markupText context
    rwa [compiled.controlOwner_eq r member] at named
  · intro apart r member r' member' part longer key listed inside
    have same : r.inputName (part ++ "_" ++ key) = r'.inputName key :=
      (pairs r member r' member' _ _).2 (.inr (.inl ⟨part, longer, rfl⟩))
    obtain ⟨-, shorter⟩ := apart r member r' member' _ inside key listed same
    have lengths := congrArg String.length shorter
    simp at lengths
  · intro apart r member r' member' key listed key' listed' same
    rcases (pairs r member r' member' key key').1 same with
      field | ⟨part, longer, rfl⟩ | ⟨part, longer, rfl⟩
    · exact field
    · exact absurd listed (apart r member r' member' part longer key' listed')
    · exact absurd listed' (apart r' member' r member part longer key listed)

/-- Two identifiers go on from a third, but no key of that one reads like the rest of them. -/
def continuedText : String :=
  "[A]\n(1) x \x7bother\x7d\n\x7btext:B\x7d\n[A_B]\n\x7btext:x\x7d\n" ++
    "|grid A_C||x|R=r|1=c;text:T=t|\n[END]"

theorem names_fields_continued : ∃ s, compile {} "s" continuedText = .ok s ∧
    s.records.map (fun r => (r.id, r.controlKeys)) = [("A", ["choice", "other_1", "B"]),
      ("A_B", ["x"]), ("A_C", ["R", "R_T"]), ("END", [])] ∧ s.NamesFields := by
  have evaluated : ((compile {} "s" continuedText).toOption.map fun s =>
      s.records.map fun r => (r.id, r.controlKeys)) = some [("A", ["choice", "other_1", "B"]),
        ("A_B", ["x"]), ("A_C", ["R", "R_T"]), ("END", [])] := by
    decide +kernel
  obtain ⟨s, accepted, keyed⟩ := exists_ok_of_map evaluated
  have apart : ∀ p ∈ s.records.map fun r => (r.id, r.controlKeys),
      ∀ q ∈ s.records.map fun r => (r.id, r.controlKeys), ∀ k ∈ p.2, ∀ key ∈ q.2,
        p.1 ++ "_" ++ k = q.1 ++ "_" ++ key → p.1 = q.1 := by
    rw [keyed]
    decide
  refine ⟨s, accepted, keyed, (names_fields_iff ⟨_, _, _, accepted⟩).2.2.2.2 ?_⟩
  intro r member r' member' part longer key listed inside
  have same := apart _ (List.mem_map_of_mem member) _ (List.mem_map_of_mem member') _ inside key
    listed (by simp only [longer, String.append_assoc])
  have lengths := congrArg String.length (same.trans longer)
  have underscore : "_".length = 1 := rfl
  rw [String.length_append, String.length_append, underscore] at lengths
  change r.id.length = _ at lengths
  omega

/-- A key that reads like the rest of the longer identifier with a key of that question. -/
def sameNameText : String := "[A]\n\x7btext:B_x\x7d\n[A_B]\n\x7btext:x\x7d\n[END]"

/-- Two questions have one input each, and both inputs have one name. -/
theorem input_name_shared : ∃ s, compile {} "s" sameNameText = .ok s ∧
    (s.records.map fun r => (r.id, r.fields.map AnswerField.key,
      (Markup.read (r.markupText {})).map Markup.Document.inputNames)) =
      [("A", ["B_x"], some [some "A_B_x"]), ("A_B", ["x"], some [some "A_B_x"]),
        ("END", [], some [])] ∧ ¬s.NamesFields := by
  have evaluated : ((compile {} "s" sameNameText).toOption.map fun s =>
      s.records.map fun r => (r.id, r.fields.map AnswerField.key,
        (Markup.read (r.markupText {})).map Markup.Document.inputNames)) =
      some [("A", ["B_x"], some [some "A_B_x"]), ("A_B", ["x"], some [some "A_B_x"]),
        ("END", [], some [])] := by
    decide +kernel
  obtain ⟨s, accepted, facts⟩ := exists_ok_of_map evaluated
  refine ⟨s, accepted, facts, fun tells => ?_⟩
  obtain ⟨a, rest, records, first, more⟩ := List.map_eq_cons_iff.1 facts
  obtain ⟨b, others, rfl, second, -⟩ := List.map_eq_cons_iff.1 more
  simp only [Prod.mk.injEq] at first second
  have own : "B_x" ∈ a.controlKeys := (a.mem_fields "B_x").1 (first.2.1 ▸ List.mem_cons_self)
  have other : "x" ∈ b.controlKeys := (b.mem_fields "x").1 (second.2.1 ▸ List.mem_cons_self)
  have same : a.inputName "B_x" = b.inputName "x" := by
    rw [Record.inputName, Record.inputName, first.1, second.1]
    decide
  obtain ⟨-, keys⟩ := tells a (by simp [records]) b (by simp [records]) _ own _ other same
  exact absurd keys (by decide)

end Survey

end Questionnaire
