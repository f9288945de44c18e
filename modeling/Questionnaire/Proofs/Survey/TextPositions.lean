import Questionnaire.Proofs.Survey.AlikeMarkup

/-! Texts of a record never change the tags of its markup. Two records that differ in their texts
only are written with the same tags, and reading the markup gives every text back where it
belongs. -/
namespace Questionnaire

/-! ### Records that differ in texts -/

/-- The same field, but for its expressions. -/
structure Field.SameButTexts (f f' : Field) : Prop where
  kind : f.kind = f'.kind
  key : f.key = f'.key
  disabled : f.disabled = f'.disabled
  exclusiveGroup : f.exclusiveGroup = f'.exclusiveGroup
  minimum : f.minimum.isSome = f'.minimum.isSome
  maximum : f.maximum.isSome = f'.maximum.isSome
  displayIf : f.displayIf.isSome = f'.displayIf.isSome

/-- The same part of a line in two contexts, but for texts, expressions and values of variables
that both contexts know. -/
inductive Inline.SameButTexts (context context' : Context) : Inline → Inline → Prop
  | text (s s' : String) : SameButTexts context context' (.text s) (.text s')
  | computed (expression expression' : String) :
    SameButTexts context context' (.computed expression) (.computed expression')
  | context {name : String} (known : (context.get? name).isSome = (context'.get? name).isSome) :
    SameButTexts context context' (.context name) (.context name)
  | field {f f' : Field} (same : f.SameButTexts f') :
    SameButTexts context context' (.field f) (.field f')

/-- The same option, but for the texts of its label. -/
structure Choice.SameButTexts (context context' : Context) (c c' : Choice) : Prop where
  kind : c.kind = c'.kind
  value : c.value = c'.value
  targets : c.skips.map SkipDirective.target = c'.skips.map SkipDirective.target
  label : List.Forall₂ (Inline.SameButTexts context context') c.label c'.label

inductive BodyLine.SameButTexts (context context' : Context) : BodyLine → BodyLine → Prop
  | text {parts parts' : List Inline}
    (same : List.Forall₂ (Inline.SameButTexts context context') parts parts') :
    SameButTexts context context' (.text parts) (.text parts')
  | choice {c c' : Choice} (same : c.SameButTexts context context' c') :
    SameButTexts context context' (.choice c) (.choice c')

/-- The same column, but for its label. -/
structure GridColumn.SameButTexts (column column' : GridColumn) : Prop where
  value : column.value = column'.value
  kind : column.kind = column'.kind

/-- The same row, but for its prompt. -/
def GridRow.SameButTexts (row row' : GridRow) : Prop := row.id = row'.id

/-- The same table, but for labels, prompts and a shared text that is not blank. -/
structure GridTable.SameButTexts (t t' : GridTable) : Prop where
  id : t.id = t'.id
  shared : (Text.trim t.sharedText).isEmpty = (Text.trim t'.sharedText).isEmpty
  rows : List.Forall₂ GridRow.SameButTexts t.rows t'.rows
  columns : List.Forall₂ GridColumn.SameButTexts t.columns t'.columns

inductive Content.SameButTexts (context context' : Context) : Content → Content → Prop
  | body {lines lines' : List BodyLine}
    (same : List.Forall₂ (BodyLine.SameButTexts context context') lines lines') :
    SameButTexts context context' (.body lines) (.body lines')
  | grid {t t' : GridTable} (same : t.SameButTexts t') :
    SameButTexts context context' (.grid t) (.grid t')
  | gridRow {row row' : GridRow} {columns columns' : List GridColumn}
    (same : row.SameButTexts row') (each : List.Forall₂ GridColumn.SameButTexts columns columns') :
    SameButTexts context context' (.gridRow row columns) (.gridRow row' columns')
  | marker (m m' : LoopMarker) : SameButTexts context context' (.marker m) (.marker m')

/-- Two records in their contexts that differ in texts only. -/
structure Record.SameButTexts (context context' : Context) (r r' : Record) : Prop where
  id : r.id = r'.id
  mandate : r.directives.mandate = r'.directives.mandate
  terminal : r.isTerminal = r'.isTerminal
  grid : r.membership.map Membership.grid = r'.membership.map Membership.grid
  content : r.content.SameButTexts context context' r'.content

/-! ### Texts of records -/

/-- The expressions of a field. -/
def Field.expressions (f : Field) : List String :=
  f.minimum.toList ++ f.maximum.toList ++ f.displayIf.toList

/-- The texts of a line, given the text that stands in front of it. Texts and values of variables
that follow each other are one text. -/
def inlineTexts (context : Context) (front : String) : List Inline → List String
  | [] => [front]
  | .text s :: more => inlineTexts context (front ++ s) more
  | .context name :: more => inlineTexts context (front ++ (context.get? name).getD "") more
  | .computed expression :: more => front :: expression :: inlineTexts context "" more
  | .field f :: more => front :: f.expressions ++ inlineTexts context "" more

/-- The texts of a record in the order in which they are shown, without the empty ones. -/
def Record.texts (r : Record) (context : Context) : List String :=
  let submit := if r.isTerminal then ["Submit"] else []
  Markup.nonempty <| match r.content with
    | .body lines => lines.flatMap (fun l => inlineTexts context "" l.inlines) ++ submit
    | .grid t => Text.trim t.sharedText :: t.columns.map GridColumn.label ++
        t.rows.map GridRow.prompt ++ submit
    | .gridRow row _ => [row.prompt]
    | .marker _ => []

namespace Rendering

open Markup

variable {context context' : Context} {question : String}

/-! ### Fields -/

theorem ofOption_outline {name : String} (listed : name ∈ expressionNames) {v v' : Option String}
    (same : v.isSome = v'.isSome) : (Attribute.ofOption name v).map Attribute.outline =
      (Attribute.ofOption name v').map Attribute.outline := by
  have outlined (value : String) : (Attribute.of name value).outline = .of name "" := by
    rw [Attribute.outline, if_pos (of_name_mem listed value)]
    rfl
  cases v <;> cases v' <;> simp_all [Attribute.ofOption]

theorem fieldAttributes_outline {f f' : Field} (same : f.SameButTexts f') :
    (fieldAttributes question f).map Attribute.outline =
      (fieldAttributes question f').map Attribute.outline := by
  simp only [fieldAttributes, same.key, same.disabled, same.exclusiveGroup, List.map_append]
  rw [ofOption_outline (by decide) same.minimum, ofOption_outline (by decide) same.maximum,
    ofOption_outline (by decide) same.displayIf]

theorem fieldAttributes_named (f : Field) :
    ∀ a ∈ fieldAttributes question f, a.name ∈ knownNames := by
  rw [fieldAttributes_eq]
  intro a member
  rcases List.mem_cons.1 member with rfl | behind
  · exact of_name_mem (by decide) _
  · rcases List.mem_cons.1 behind with rfl | detail
    · exact of_name_mem (by decide) _
    · exact known_of_untyped (fieldDetails_named f a detail)

theorem alike_field {f f' : Field} (same : f.SameButTexts f') :
    Alike [field question f] [field question f'] := by
  have input (more : List Attribute) (named : ∀ a ∈ more, a.name ∈ knownNames) :
      Alike [.void "input" (more ++ fieldAttributes question f)]
        [.void "input" (more ++ fieldAttributes question f')] := by
    refine .void ⟨by decide, List.forall_mem_append.2 ⟨named, fieldAttributes_named f⟩, ?_⟩ .nil
    rw [List.map_append, List.map_append, fieldAttributes_outline same]
  unfold field
  rw [same.kind]
  dsimp only
  split
  · exact .element ⟨by decide, fieldAttributes_named f, fieldAttributes_outline same⟩ .nil .nil
  · exact input _ (by simp [Attribute.of, knownNames])
  · exact input [_] (by simp [Attribute.of, knownNames])

/-! ### Outlines of the parts -/

theorem alike_inlines {parts parts' : List Inline}
    (same : List.Forall₂ (Inline.SameButTexts context context') parts parts') (computed : Nat) :
    Alike (inlines question context computed parts) (inlines question context' computed parts') := by
  induction same generalizing computed with
  | nil => exact .nil
  | cons first _ ih =>
    cases first with
    | text s s' => exact .text s s' (ih computed)
    | computed expression expression' =>
      refine .element ⟨by decide, by simp [Attribute.of, knownNames], ?_⟩ .nil (ih (computed + 1))
      rfl
    | @context name known =>
      rw [inlines, inlines]
      refine .append ?_ (ih computed)
      cases here : context.get? name <;> cases there : context'.get? name
      · exact .nil
      · simp [here, there] at known
      · simp [here, there] at known
      · exact .text _ _ .nil
    | field same => exact (alike_field same).cons (ih computed)

theorem countComputed_same {parts parts' : List Inline}
    (same : List.Forall₂ (Inline.SameButTexts context context') parts parts') :
    countComputed parts = countComputed parts' := by
  unfold countComputed
  induction same with
  | nil => rfl
  | cons first _ ih =>
    cases first with
    | text | context | field => exact ih
    | computed => exact congrArg (· + 1) ih

theorem alike_optionInput {c c' : Choice} (same : c.SameButTexts context context' c') :
    Alike [optionInput question c] [optionInput question c'] := by
  have skips : c.skips.isEmpty = c'.skips.isEmpty := by
    rw [← List.isEmpty_map, same.targets, List.isEmpty_map]
  have equal : optionInput question c = optionInput question c' := by
    simp only [optionInput, same.kind, same.value, same.targets, skips]
  rw [equal]
  refine .void (.refl (by decide) ?_) .nil
  refine List.forall_mem_append.2 ⟨List.forall_mem_append.2 ⟨?_, ?_⟩, ?_⟩
  · simp [Attribute.of, knownNames]
  · split <;> simp [Attribute.of, knownNames]
  · split <;> simp [Attribute.of, knownNames]

theorem alike_line {l l' : BodyLine} (same : l.SameButTexts context context' l') (computed : Nat) :
    Alike [line question context computed l] [line question context' computed l'] := by
  cases same with
  | text same => exact .element (.bare (by decide)) (alike_inlines same computed) .nil
  | @choice c c' same =>
    have label : Attribute.of "for" (question ++ "_" ++ c.kind.group.key ++ "_" ++ c.value) =
        .of "for" (question ++ "_" ++ c'.kind.group.key ++ "_" ++ c'.value) := by
      rw [same.kind, same.value]
    rw [line, line, label]
    refine .element (.refl (by decide) (by simp [Attribute.of, knownNames])) ?_ .nil
    refine (alike_optionInput same).cons (.element (.refl (by decide) ?_) ?_ .nil)
    · simp [Attribute.of, knownNames]
    · exact alike_inlines same.label computed

theorem alike_body {ls ls' : List BodyLine}
    (same : List.Forall₂ (BodyLine.SameButTexts context context') ls ls') (computed : Nat) :
    Alike (body question context computed ls) (body question context' computed ls') := by
  induction same generalizing computed with
  | nil => exact .nil
  | @cons l l' _ _ first _ ih =>
    have count : countComputed l.inlines = countComputed l'.inlines := by
      cases first with
      | text same => exact countComputed_same same
      | choice same => exact countComputed_same same.label
    rw [body, body, count]
    exact (alike_line first computed).cons (ih _)

theorem alike_cell {id : String} {row row' : GridRow} (rows : row.SameButTexts row')
    {column column' : GridColumn} (same : column.SameButTexts column') :
    Alike [cell id row column] [cell id row' column'] := by
  have equal : cell id row column = cell id row' column' := by
    simp only [cell, same.kind, same.value, show row.id = row'.id from rows]
  rw [equal]
  unfold cell
  split
  · refine .element (.bare (by decide)) (.void (.refl (by decide) ?_) .nil) .nil
    simp [Attribute.of, knownNames]
  · refine .element (.bare (by decide)) (.void (.refl (by decide) ?_) .nil) .nil
    simp [Attribute.of, knownNames]

theorem alike_tableRow {id : String} {columns columns' : List GridColumn}
    (each : List.Forall₂ GridColumn.SameButTexts columns columns') {row row' : GridRow}
    (same : row.SameButTexts row') :
    Alike [tableRow id columns row] [tableRow id columns' row'] := by
  have id : Attribute.of "id" (id ++ "_" ++ row.id ++ "_row") =
      .of "id" (id ++ "_" ++ row'.id ++ "_row") := by
    rw [show row.id = row'.id from same]
  rw [tableRow, tableRow, id]
  refine .element (.refl (by decide) (by simp [Attribute.of, knownNames])) ?_ .nil
  refine .element (.bare (by decide)) (.text row.prompt row'.prompt .nil) ?_
  exact .map each fun _ _ column => alike_cell same column

theorem alike_grid {t t' : GridTable} (same : t.SameButTexts t') :
    Alike (Rendering.grid t) (Rendering.grid t') := by
  rw [Rendering.grid, Rendering.grid]
  rw [same.shared, same.id]
  refine .append ?_ (.element (.refl (by decide) (by simp [Attribute.of, knownNames])) ?_ .nil)
  · split
    · exact .nil
    · exact .element (.bare (by decide)) (.text _ _ .nil) .nil
  · refine .element (.bare (by decide)) (.element (.bare (by decide)) ?_ .nil) ?_
    · refine .element (.bare (by decide)) .nil (.map same.columns fun column column' _ => ?_)
      exact .element (.bare (by decide)) (.text column.label column'.label .nil) .nil
    · refine .element (.bare (by decide)) (.map same.rows fun _ _ row => ?_) .nil
      exact alike_tableRow same.columns row

theorem alike_questionSection {r r' : Record} (same : r.SameButTexts context context' r')
    {nodes nodes' : List Markup} (alike : Alike nodes nodes') :
    Alike [questionSection r nodes] [questionSection r' nodes'] := by
  rw [questionSection, questionSection, same.id, same.mandate, same.terminal]
  refine .element (.refl (by decide) ?_) (alike.append ?_) .nil
  · cases r'.directives.mandate <;> simp [mandateMark, Attribute.of, knownNames]
  · split
    · refine .element (.refl (by decide) ?_) (.text _ _ .nil) .nil
      simp [Attribute.of, knownNames]
    · exact .nil

theorem alike_markup {r r' : Record} (same : r.SameButTexts context context' r') :
    Alike (r.markup context) (r'.markup context') := by
  have content := same.content
  unfold Record.markup
  cases here : r.content <;> cases there : r'.content <;> rw [here, there] at content <;>
    cases content
  case body.body.body lines =>
    rw [same.id]
    exact alike_questionSection same (alike_body lines 0)
  case grid.grid.grid table => exact alike_questionSection same (alike_grid table)
  case gridRow.gridRow.gridRow row columns =>
    dsimp only
    rw [same.grid, same.id]
    refine .element (.refl (by decide) (by simp [Attribute.of, knownNames])) ?_ .nil
    exact .element (.bare (by decide)) (alike_tableRow columns row) .nil
  case marker.marker => exact .nil

/-! ### Texts of the parts -/

theorem expression?_of_plain {name : String} (plain : name ∉ expressionNames) (value : String) :
    (Attribute.of name value).expression? = none := if_neg plain

theorem ofOption_expressions {name : String} (listed : name ∈ expressionNames) (v : Option String) :
    (Attribute.ofOption name v).filterMap Attribute.expression? = v.toList := by
  have held (value : String) : (Attribute.of name value).expression? = some value := if_pos listed
  cases v <;> simp [Attribute.ofOption, held]

theorem ofOption_plain {name : String} (plain : name ∉ expressionNames) (v : Option String) :
    (Attribute.ofOption name v).filterMap Attribute.expression? = [] := by
  cases v <;> simp [Attribute.ofOption, expression?_of_plain plain]

theorem fieldAttributes_expressions (f : Field) :
    (fieldAttributes question f).filterMap Attribute.expression? = f.expressions := by
  have disabled : (if f.disabled then [(⟨"disabled", none⟩ : Attribute)] else []).filterMap
      Attribute.expression? = [] := by
    split <;> rfl
  simp only [fieldAttributes, List.filterMap_append, List.filterMap_cons, List.filterMap_nil,
    disabled, Field.expressions]
  rw [expression?_of_plain (by decide), expression?_of_plain (by decide),
    ofOption_expressions (by decide), ofOption_expressions (by decide),
    ofOption_expressions (by decide), ofOption_plain (by decide), List.append_nil, List.append_nil]
  rfl

theorem field_encloses (f : Field) : Encloses [field question f] f.expressions ∧
    ∀ d, (place d (field question f)).front = "" := by
  have input (more : List Attribute) (plain : more.filterMap Attribute.expression? = []) :
      Encloses [.void "input" (more ++ fieldAttributes question f)] f.expressions := by
    have void := Encloses.void "input" (more ++ fieldAttributes question f)
    rwa [List.filterMap_append, plain, fieldAttributes_expressions, List.nil_append] at void
  unfold field
  dsimp only
  split
  · have area := Encloses.nil.nested "textarea" (fieldAttributes question f)
    rw [fieldAttributes_expressions, List.append_nil] at area
    exact ⟨area, fun _ => rfl⟩
  · exact ⟨input _ rfl, fun _ => rfl⟩
  · exact ⟨input [_] rfl, fun _ => rfl⟩

theorem inlines_show (front : String) (parts : List Inline) (computed : Nat) :
    Shows (.text front :: inlines question context computed parts)
      (inlineTexts context front parts) := by
  induction parts generalizing front computed with
  | nil => exact .text front
  | cons part more ih =>
    cases part with
    | text s => exact .join (ih _ computed)
    | context name =>
      rw [inlines, inlineTexts]
      cases context.get? name with
      | none =>
        rw [Option.getD_none, String.append_empty]
        exact ih front computed
      | some s => exact .join (ih _ computed)
    | computed expression =>
      have span : Encloses [computedSpan question (computed + 1) expression] [expression] :=
        .nested "span" _ .nil
      exact .followed front span (fun _ => rfl) (ih "" (computed + 1))
    | field f => exact .followed front (field_encloses f).1 (field_encloses f).2 (ih "" computed)

/-- A line shows the texts among its parts. -/
theorem line_encloses (l : BodyLine) (computed : Nat) :
    Encloses [line question context computed l] (inlineTexts context "" l.inlines) := by
  have inside : Shows (inlines question context computed l.inlines)
      (inlineTexts context "" l.inlines) := (inlines_show "" l.inlines computed).bare
  cases l with
  | text parts => exact .element "p" [] inside
  | choice c =>
    have input : Encloses [optionInput question c] [] := by
      have values : Encloses [optionInput question c] _ := .void "input" _
      have exclusive : (if c.kind = .sole then [Attribute.of "data-exclusive" "true"] else
          []).filterMap Attribute.expression? = [] := by
        split <;> rfl
      have targets : (if c.skips.isEmpty then [] else [Attribute.of "data-skip"
          (" ".intercalate (c.skips.map SkipDirective.target))]).filterMap Attribute.expression? =
            [] := by
        split <;> rfl
      rw [List.filterMap_append, List.filterMap_append, exclusive, targets] at values
      exact values
    exact .nested "div" _ (input.cons (.element "label" _ inside))

theorem body_encloses (ls : List BodyLine) (computed : Nat) :
    Encloses (body question context computed ls)
      (ls.flatMap fun l => inlineTexts context "" l.inlines) := by
  induction ls generalizing computed with
  | nil => exact .nil
  | cons l ls ih => exact (line_encloses l computed).cons (ih _)

theorem cell_encloses (id : String) (row : GridRow) (column : GridColumn) :
    Encloses [cell id row column] [] := by
  unfold cell
  split
  · exact .nested "td" [] (.void "input" _)
  · exact .nested "td" [] (.void "input" _)

theorem tableRow_encloses (id : String) (columns : List GridColumn) (row : GridRow) :
    Encloses [tableRow id columns row] [row.prompt] := by
  have prompt : Encloses [.element "th" [] [.text row.prompt]] [row.prompt] :=
    .element "th" [] (.text row.prompt)
  have cells := Encloses.map (cell_encloses id row) columns
  have nothing : columns.flatMap (fun _ => ([] : List String)) = [] := by simp
  rw [nothing] at cells
  exact .nested "tr" _ (prompt.cons cells)

theorem grid_encloses (t : GridTable) : Encloses (Rendering.grid t)
    (Text.trim t.sharedText :: t.columns.map GridColumn.label ++ t.rows.map GridRow.prompt) := by
  have labels := Encloses.map (f := fun column : GridColumn => .element "th" [] [.text column.label])
    (g := fun column => [column.label]) (fun column => .element "th" [] (.text column.label)) t.columns
  have rows := Encloses.map (tableRow_encloses t.id t.columns) t.rows
  rw [← List.map_eq_flatMap] at labels rows
  have table : Encloses [.element "table" [.of "class" "grid", .of "id" (t.id ++ "_table")]
      [.element "thead" [] [.element "tr" [] (.element "th" [] [] ::
        t.columns.map fun column => .element "th" [] [.text column.label])],
        .element "tbody" [] (t.rows.map (tableRow t.id t.columns))]]
      (t.columns.map GridColumn.label ++ t.rows.map GridRow.prompt) := by
    refine .nested "table" _ (.cons (.nested "thead" [] (.nested "tr" [] ?_)) ?_)
    · exact .cons (.nested "th" [] .nil) labels
    · exact .nested "tbody" [] rows
  have shared : Encloses (if (Text.trim t.sharedText).isEmpty then []
      else [.element "p" [] [.text (Text.trim t.sharedText)]]) [Text.trim t.sharedText] := by
    split
    · next blank =>
      rw [String.isEmpty_iff.1 blank]
      exact ⟨fun _ => rfl, fun _ front => front⟩
    · exact .element "p" [] (.text _)
  exact shared.append table

end Rendering

namespace Record

open Markup Rendering

theorem questionSection_encloses (r : Record) {nodes : List Markup} {texts : List String}
    (children : Encloses nodes texts) : Encloses [questionSection r nodes]
      (texts ++ if r.isTerminal then ["Submit"] else []) := by
  have button : Encloses (if r.isTerminal then [submitButton] else [])
      (if r.isTerminal then ["Submit"] else []) := by
    split
    · exact .element "button" _ (.text "Submit")
    · exact .nil
  have marks : (mandateMark r.directives.mandate).filterMap Attribute.expression? = [] := by
    cases r.directives.mandate <;> rfl
  have whole : Encloses [questionSection r nodes] _ := .nested "section" _ (children.append button)
  rw [List.filterMap_append, marks] at whole
  exact whole

/-- The markup of a record shows the texts of the record and no others. -/
theorem texts_markup (r : Record) (context : Context) :
    (document (r.markup context)).texts = r.texts context := by
  unfold Record.markup Record.texts
  cases r.content with
  | body lines => exact (questionSection_encloses r (body_encloses lines 0)).document
  | grid t => exact (questionSection_encloses r (grid_encloses t)).document
  | gridRow row columns =>
    exact (Encloses.nested "table" [.of "class" "grid"]
      (.nested "tbody" [] (tableRow_encloses _ columns row))).document
  | marker m => rfl

/-- The markup of the record is read as this document, with the values and texts of the record. -/
structure ReadAs (r : Record) (context : Context) (d : Document) : Prop where
  read : Markup.read (r.markupText context) = some d
  original : d.map unescape = document (r.markup context)
  texts : (d.map unescape).texts = r.texts context

theorem readAs_document {r : Record} {context : Context}
    (readable : ReadableAll (r.markup context)) :
    r.ReadAs context ((document (r.markup context)).map escape) where
  read := read_render readable
  original := Document.unescape_escape _
  texts := by rw [Document.unescape_escape, texts_markup]

/-- A text is written without any character that tags are made of and is got back by un-escaping.
Hence records that differ in texts only are read with the same tags, attributes and values but for
the expressions, and the texts that are read are those of the record. -/
theorem texts_keep_structure : (∀ t, WrittenAs t (escape t)) ∧
    ∀ (context context' : Context) (r r' : Record), r.SameButTexts context context' r' →
      ∃ d d', r.ReadAs context d ∧ r'.ReadAs context' d' ∧ d.outline = d'.outline := by
  refine ⟨escape_writtenAs, fun context context' r r' same => ?_⟩
  have alike := alike_markup same
  refine ⟨_, _, readAs_document alike.readable, readAs_document alike.symm.readable, ?_⟩
  rw [Document.outline_map_escape, Document.outline_map_escape, alike.outline]

/-- A question that shows a label, a variable and expressions. -/
def labelled (label expression : String) : Record where
  id := "A"
  content := .body [
    .text [.text label, .context "user", .computed expression,
      .field { kind := .number, key := "n", maximum := some expression }],
    .choice { kind := .sole, value := "1", label := [.text label], skips := [] }]
  span := {}

theorem labelled_same (user user' label label' expression expression' : String) :
    (labelled label expression).SameButTexts (.ofUser (some user)) (.ofUser (some user'))
      (labelled label' expression') := by
  have known : ((Context.ofUser (some user)).get? "user").isSome =
      ((Context.ofUser (some user')).get? "user").isSome := rfl
  have field : Field.SameButTexts { kind := .number, key := "n", maximum := some expression }
      { kind := .number, key := "n", maximum := some expression' } :=
    ⟨rfl, rfl, rfl, rfl, rfl, rfl, rfl⟩
  refine ⟨rfl, rfl, rfl, rfl, .body (.cons (.text ?_) (.cons (.choice ⟨rfl, rfl, rfl, ?_⟩) .nil))⟩
  · exact .cons (.text _ _) (.cons (.context known) (.cons (.computed _ _)
      (.cons (.field field) .nil)))
  · exact .cons (.text _ _) .nil

/-- Texts made of tags, quotes and entities beside texts of letters. -/
theorem tagged_texts_keep_structure :
    (labelled "</p><p id=\"A\">" "a > \"b\"").SameButTexts (.ofUser (some "&lt;i>"))
      (.ofUser (some "Ada")) (labelled "a" "b") ∧
    (labelled "</p><p id=\"A\">" "a > \"b\"").texts (.ofUser (some "&lt;i>")) =
      ["</p><p id=\"A\">&lt;i>", "a > \"b\"", "a > \"b\"", "</p><p id=\"A\">"] ∧
    ∃ d d', (labelled "</p><p id=\"A\">" "a > \"b\"").ReadAs (.ofUser (some "&lt;i>")) d ∧
      (labelled "a" "b").ReadAs (.ofUser (some "Ada")) d' ∧ d.outline = d'.outline := by
  have same := labelled_same "&lt;i>" "Ada" "</p><p id=\"A\">" "a" "a > \"b\"" "b"
  exact ⟨same, by decide, texts_keep_structure.2 _ _ _ _ same⟩

end Record

end Questionnaire
