import Questionnaire.Proofs.Definition.FieldKeys
import Questionnaire.Proofs.Survey.ControlKey

/-! The controls that the markup of a record offers. Each part of a record writes one control for
each answer that can be given there, under the name of its question and the key of its field. -/
namespace Questionnaire

namespace Markup
variable {nodes more : List Markup} {names others : List String} {tag name : String}
  {attributes : List Attribute}

/-- A control with these attributes is counted under a name. -/
def Answers (attributes : List Attribute) (name : String) : Prop :=
  FieldCount.controlKey? (attributes.flatMap Attribute.chars) = some (escape name)

/-- Markup that can be read back, with controls of these names. -/
structure Offers (nodes : List Markup) (names : List String) : Prop where
  plain : PlainAll nodes
  answers : List.Forall₂ Answers (controlsAll nodes) names

/-- The tags of elements that are no controls. -/
def elementTags : List String :=
  ["p", "div", "label", "span", "section", "button", "table", "thead", "tbody", "tr", "th", "td"]

/-- The tags of controls that are written. -/
def writtenControls : List String := ["input", "textarea"]

def knownNames : List String :=
  ["type", "class", "id", "name", "value", "for", "data-expr", "data-min-expr", "data-max-expr",
    "data-displayif", "data-xor", "disabled", "data-exclusive", "data-skip", "data-mandate"]

theorem of_name_mem {names : List String} (listed : name ∈ names) (value : String) :
    (Attribute.of name value).name ∈ names := listed

theorem isStart_of_known (known : tag ∈ elementTags ++ writtenControls)
    (named : ∀ a ∈ attributes, a.name ∈ knownNames) : IsStart tag attributes where
  letters := by
    have letters : ∀ tag ∈ elementTags ++ writtenControls,
        tag.toList.all Char.isLower = true := by
      decide
    exact List.all_eq_true.1 (letters tag known)
  named a member c inside := by
    have free : ∀ name ∈ knownNames,
        '<' ∉ name.toList ∧ '>' ∉ name.toList ∧ '"' ∉ name.toList := by
      decide
    obtain ⟨opens, closes, quote⟩ := free a.name (named a member)
    rintro (rfl | rfl | rfl)
    · exact opens inside
    · exact closes inside
    · exact quote inside

theorem plainAll_append (nodes more : List Markup) :
    PlainAll (nodes ++ more) ↔ PlainAll nodes ∧ PlainAll more := by
  induction nodes with
  | nil => simp [PlainAll]
  | cons node nodes ih => simp [PlainAll, ih, and_assoc]

theorem controlsAll_append (nodes more : List Markup) :
    controlsAll (nodes ++ more) = controlsAll nodes ++ controlsAll more := by
  induction nodes with
  | nil => rfl
  | cons node nodes ih => rw [List.cons_append, controlsAll, controlsAll, ih, List.append_assoc]

namespace Offers

theorem nil : Offers [] [] := ⟨trivial, .nil⟩

theorem append (first : Offers nodes names) (second : Offers more others) :
    Offers (nodes ++ more) (names ++ others) where
  plain := (plainAll_append nodes more).2 ⟨first.plain, second.plain⟩
  answers := by
    rw [controlsAll_append]
    exact List.rel_append first.answers second.answers

theorem cons {node : Markup} (first : Offers [node] names) (second : Offers more others) :
    Offers (node :: more) (names ++ others) := first.append second

theorem text (s : String) : Offers [.text s] [] := ⟨⟨trivial, trivial⟩, .nil⟩

/-- An element that is no control offers what its children offer. -/
theorem element (known : tag ∈ elementTags) (named : ∀ a ∈ attributes, a.name ∈ knownNames)
    (children : Offers nodes names) : Offers [.element tag attributes nodes] names where
  plain := ⟨⟨isStart_of_known (List.mem_append_left _ known) named, children.plain⟩, trivial⟩
  answers := by
    have others : ∀ tag ∈ elementTags, tag.toList ∉ FieldCount.controlNames := by decide
    simp only [controlsAll, controls, controlOf, if_neg (others tag known), List.nil_append,
      List.append_nil]
    exact children.answers

theorem bare (known : tag ∈ elementTags) (children : Offers nodes names) :
    Offers [.element tag [] nodes] names :=
  element known (List.forall_mem_nil _) children

theorem control_written (written : tag ∈ writtenControls) :
    tag.toList ∈ FieldCount.controlNames := by
  have all : ∀ tag ∈ writtenControls, tag.toList ∈ FieldCount.controlNames := by decide
  exact all tag written

theorem input (named : ∀ a ∈ attributes, a.name ∈ knownNames) (answers : Answers attributes name) :
    Offers [.void "input" attributes] [name] where
  plain := ⟨isStart_of_known (by decide) named, trivial⟩
  answers := by
    have control : "input".toList ∈ FieldCount.controlNames := control_written (by decide)
    simp only [controlsAll, controls, controlOf, if_pos control, List.append_nil]
    exact .cons answers .nil

theorem textArea (named : ∀ a ∈ attributes, a.name ∈ knownNames) (answers : Answers attributes name) :
    Offers [.element "textarea" attributes []] [name] where
  plain := ⟨⟨isStart_of_known (by decide) named, trivial⟩, trivial⟩
  answers := by
    have control : "textarea".toList ∈ FieldCount.controlNames := control_written (by decide)
    simp only [controlsAll, controls, controlOf, if_pos control, List.append_nil]
    exact .cons answers .nil

theorem map {α : Type} {f : α → Markup} {g : α → List String} {xs : List α}
    (each : ∀ x ∈ xs, Offers [f x] (g x)) : Offers (xs.map f) (xs.flatMap g) := by
  induction xs with
  | nil => exact .nil
  | cons x xs ih =>
    obtain ⟨first, later⟩ := List.forall_mem_cons.1 each
    exact first.cons (ih later)

end Offers

end Markup

namespace Rendering

open Markup FieldCount

variable {question : String} {context : Context}

/-- The attributes of a field behind its name. -/
def fieldDetails (f : Field) : List Attribute :=
  Attribute.ofOption "data-min-expr" f.minimum ++ Attribute.ofOption "data-max-expr" f.maximum ++
    Attribute.ofOption "data-displayif" f.displayIf ++
    Attribute.ofOption "data-xor" f.exclusiveGroup ++ if f.disabled then [⟨"disabled", none⟩] else []

theorem fieldAttributes_eq (question : String) (f : Field) : fieldAttributes question f =
    .of "id" (question ++ "_" ++ f.key) :: .of "name" (question ++ "_" ++ f.key) :: fieldDetails f := by
  simp [fieldAttributes, fieldDetails]

theorem fieldDetails_named (f : Field) : ∀ a ∈ fieldDetails f, a.name ∈ untypedNames := by
  intro a member
  have option {name : String} {value : Option String} (inside : a ∈ Attribute.ofOption name value) :
      a.name = name := by
    obtain ⟨v, -, rfl⟩ := List.mem_map.1 inside
    rfl
  simp only [fieldDetails, List.mem_append] at member
  rcases member with (((least | greatest) | shown) | group) | disabled
  · rw [option least]; decide
  · rw [option greatest]; decide
  · rw [option shown]; decide
  · rw [option group]; decide
  · split at disabled
    · rw [List.mem_singleton.1 disabled]; decide
    · cases disabled

theorem known_of_untyped {name : String} (untyped : name ∈ untypedNames) : name ∈ knownNames := by
  have listed : ∀ name ∈ untypedNames, name ∈ knownNames := by decide
  exact listed name untyped

theorem leads_of (plain : Unassigning question) (name : String) (known : name ∈ ["type", "class", "id"]) :
    Leads (.of name question) :=
  ⟨known, question, rfl, plain⟩

/-- The types of inputs, none of which goes without an answer. -/
def inputTypes : List String := ["text", "number", "date", "month", "radio", "checkbox"]

theorem inputTypes_answered : ∀ type ∈ inputTypes,
    String.ofList ((escaped type).map Char.toLower) ∉ unansweredTypes ∧ Unassigning type := by
  unfold Unassigning
  decide

/-- An input that begins with its type is counted under its name. -/
theorem offers_input {type id name : String} {classes more : List Attribute}
    (listed : type ∈ inputTypes) (idPlain : Unassigning id) (leads : ∀ a ∈ classes, Leads a)
    (known : ∀ a ∈ more, a.name ∈ knownNames) :
    Offers [.void "input" (.of "type" type :: (classes ++ .of "id" id :: .of "name" name :: more))]
      [name] := by
  obtain ⟨answered, typePlain⟩ := inputTypes_answered type listed
  apply Offers.input
  · intro a member
    simp only [List.mem_cons, List.mem_append] at member
    rcases member with rfl | lead | rfl | rfl | behind
    · exact of_name_mem (by decide) _
    · have shown : ∀ name ∈ ["type", "class", "id"], name ∈ knownNames := by decide
      exact shown _ (leads a lead).name
    · exact of_name_mem (by decide) _
    · exact of_name_mem (by decide) _
    · exact known a behind
  · have all : ∀ a ∈ classes ++ [.of "id" id], Leads a := by
      intro a member
      rcases List.mem_append.1 member with lead | last
      · exact leads a lead
      · rw [List.mem_singleton.1 last]
        exact leads_of idPlain "id" (by decide)
    have keyed : Answers (.of "type" type :: (classes ++ [.of "id" id]) ++ .of "name" name :: more)
      name := controlKey?_typed answered all typePlain
    simpa using keyed

theorem inputType_listed (kind : FieldKind) :
    kind.inputType ∈ inputTypes := by
  cases kind <;> decide

theorem offers_field (plain : Unassigning question) {f : Field} (keyed : Unassigning f.key) :
    Offers [field question f] [question ++ "_" ++ f.key] := by
  have namePlain := (plain.append unassigning_underscore).append keyed
  have details : ∀ a ∈ fieldDetails f, a.name ∈ knownNames :=
    fun a member => known_of_untyped (fieldDetails_named f a member)
  have typed (classes : List Attribute) (leads : ∀ a ∈ classes, Leads a) (type : String)
      (listed : type ∈ inputTypes) :
      Offers [.void "input" (.of "type" type :: (classes ++ fieldAttributes question f))]
        [question ++ "_" ++ f.key] := by
    rw [fieldAttributes_eq]
    exact offers_input listed namePlain leads details
  unfold field
  dsimp only
  split
  · rw [fieldAttributes_eq]
    have untyped : ∀ a ∈ [Attribute.of "id" (question ++ "_" ++ f.key)] ++
        .of "name" (question ++ "_" ++ f.key) :: fieldDetails f, a.name ∈ untypedNames := by
      intro a member
      simp only [List.singleton_append, List.mem_cons] at member
      rcases member with rfl | rfl | behind
      · exact of_name_mem (by decide) _
      · exact of_name_mem (by decide) _
      · exact fieldDetails_named f a behind
    apply Offers.textArea
    · exact fun a member => known_of_untyped (untyped a member)
    · refine controlKey?_untyped untyped (List.forall_mem_singleton.2 ?_)
      exact leads_of namePlain "id" (by decide)
  · refine typed [.of "class" "other"] (List.forall_mem_singleton.2 ?_) "text" (by decide)
    exact leads_of (by unfold Unassigning; decide) "class" (by decide)
  · exact typed [] (List.forall_mem_nil _) _ (inputType_listed _)

theorem offers_inlines (plain : Unassigning question) {parts : List Inline}
    (keyed : ∀ key ∈ inlineKeys parts, Unassigning key) (computed : Nat) :
    Offers (inlines question context computed parts)
      ((inlineKeys parts).map (question ++ "_" ++ ·)) := by
  induction parts generalizing computed with
  | nil => exact .nil
  | cons part more ih =>
    cases part with
    | text s => exact (Offers.text s).cons (ih keyed computed)
    | context name =>
      have known : Offers ((context.get? name).map Markup.text).toList [] := by
        cases context.get? name with
        | none => exact .nil
        | some s => exact .text s
      exact known.append (ih keyed computed)
    | computed expression =>
      have span : Offers [computedSpan question (computed + 1) expression] [] := by
        exact .element (by decide) (by simp [Attribute.of, knownNames]) .nil
      exact span.cons (ih keyed (computed + 1))
    | field f =>
      obtain ⟨own, keyed⟩ := List.forall_mem_cons.1 keyed
      exact (offers_field plain own).cons (ih keyed computed)

/-- The keys that the controls of a line are written under. -/
def lineKeys : BodyLine → List String
  | .text parts => inlineKeys parts
  | .choice c => c.kind.group.key :: inlineKeys c.label

theorem offers_optionInput (plain : Unassigning question) {c : Choice} (value : Unassigning c.value) :
    Offers [optionInput question c] [question ++ "_" ++ c.kind.group.key] := by
  have key : Unassigning c.kind.group.key := by
    have keys : Unassigning radioKey ∧ Unassigning checkboxKey := by
      unfold Unassigning
      decide
    cases c.kind with
    | exclusive => exact keys.1
    | inclusive => exact keys.2
    | sole => exact keys.2
  have named := (plain.append unassigning_underscore).append key
  have idPlain := (named.append unassigning_underscore).append value
  refine offers_input (by cases c.kind <;> decide) idPlain (List.forall_mem_nil Leads) ?_
  intro a member
  rcases List.mem_cons.1 member with rfl | behind
  · exact of_name_mem (by decide) _
  · rcases List.mem_append.1 behind with exclusive | skip
    · split at exclusive
      · rw [List.mem_singleton.1 exclusive]
        exact of_name_mem (by decide) _
      · cases exclusive
    · split at skip
      · cases skip
      · rw [List.mem_singleton.1 skip]
        exact of_name_mem (by decide) _

theorem offers_line (plain : Unassigning question) {l : BodyLine} (keyed : l.Keyed) (computed : Nat) :
    Offers [line question context computed l] ((lineKeys l).map (question ++ "_" ++ ·)) := by
  cases l with
  | text parts =>
    refine .bare (by decide) ?_
    exact offers_inlines plain keyed.keys computed
  | choice c =>
    refine .element (by decide) (by simp [Attribute.of, knownNames]) ?_
    refine (offers_optionInput plain (keyed.value c rfl)).cons ?_
    refine .element (by decide) (by simp [Attribute.of, knownNames]) ?_
    exact offers_inlines plain keyed.keys computed

theorem offers_body (plain : Unassigning question) {ls : List BodyLine} (keyed : ∀ l ∈ ls, l.Keyed)
    (computed : Nat) : Offers (body question context computed ls)
      ((ls.flatMap lineKeys).map (question ++ "_" ++ ·)) := by
  induction ls generalizing computed with
  | nil => exact .nil
  | cons l ls ih =>
    obtain ⟨first, later⟩ := List.forall_mem_cons.1 keyed
    rw [List.flatMap_cons, List.map_append]
    exact (offers_line plain first computed).cons (ih later _)

/-! ### Grids -/

/-- The key that the control of a cell is written under. -/
def cellControlKey (row : GridRow) (column : GridColumn) : String :=
  match column.kind with
  | .text => cellKey row.id column.value
  | .radio | .checkbox => row.id

theorem offers_cell {id : String} {row : GridRow} {column : GridColumn} (idPlain : Unassigning id)
    (rowPlain : Unassigning row.id) (value : Unassigning column.value) :
    Offers [cell id row column] [id ++ "_" ++ cellControlKey row column] := by
  have typed (type : String) (listed : type ∈ inputTypes) {elementId name : String}
      (plain : Unassigning elementId) {more : List Attribute}
      (known : ∀ a ∈ more, a.name ∈ knownNames) :
      Offers [.element "td" [] [.void "input" (.of "type" type :: ([] ++ .of "id" elementId ::
        .of "name" name :: more))]] [name] :=
    .bare (by decide) (offers_input listed plain (List.forall_mem_nil _) known)
  have prefixed := idPlain.append unassigning_underscore
  have behind := ((prefixed.append rowPlain).append unassigning_underscore).append value
  unfold cell cellControlKey
  cases column.kind with
  | text =>
    refine typed "text" (by decide) (prefixed.append ?_) (List.forall_mem_nil _)
    exact (rowPlain.append unassigning_underscore).append value
  | radio => exact typed "radio" (by decide) behind (by simp [Attribute.of, knownNames])
  | checkbox => exact typed "checkbox" (by decide) behind (by simp [Attribute.of, knownNames])

theorem offers_tableRow {id : String} {row : GridRow} {columns : List GridColumn}
    (idPlain : Unassigning id) (rowPlain : Unassigning row.id)
    (values : ∀ column ∈ columns, Unassigning column.value) :
    Offers [tableRow id columns row] (columns.map fun column => id ++ "_" ++ cellControlKey row column) := by
  refine .element (by decide) (by simp [Attribute.of, knownNames]) ?_
  have prompt : Offers [.element "th" [] [.text row.prompt]] [] :=
    .bare (by decide) (.text row.prompt)
  have cells := Offers.map (f := cell id row)
    (g := fun column => [id ++ "_" ++ cellControlKey row column])
    fun column member => offers_cell idPlain rowPlain (values column member)
  rw [← List.map_eq_flatMap] at cells
  exact prompt.cons cells

end Rendering

end Questionnaire
