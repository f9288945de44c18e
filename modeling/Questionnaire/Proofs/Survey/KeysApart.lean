import Mathlib.Data.List.Pairwise
import Mathlib.Data.List.Perm.Basic
import Questionnaire.Proofs.Definition.KeySources
import Questionnaire.Proofs.Survey.Identity

/-! Whether the fields of a record have different keys. Keys that are counted, keys of groups and
keys of free texts never get in each other's way; but a key that is written down may be called
like one of them, an option may have two free texts, and the cells of a grid may be called like
each other or like a row. -/
namespace Questionnaire

/-! ### Bodies -/

/-- The group that a line belongs to, if it is an option. -/
def BodyLine.group? : BodyLine → Option AnswerField
  | text _ => none
  | choice c => some c.kind.group

def choiceGroups : List AnswerField := [ChoiceKind.exclusive.group, ChoiceKind.inclusive.group]

/-- The groups that the options of lines belong to, but for those whose field stands further up
already. -/
def groupsIn (seen : List AnswerField) (lines : List BodyLine) : List AnswerField :=
  choiceGroups.filter fun group => !seen.contains group && lines.any (·.group? == some group)

/-- What keeps the keys of a body apart: none is written down twice or called like one that is
handed out, and no option has two free texts. -/
structure OriginsApart (groups : List String) (os : List Definition.KeyOrigin) : Prop where
  own : (Definition.ownKeys os).Nodup
  free : (Definition.freeValues os).Nodup
  unshared : ∀ key ∈ Definition.ownKeys os, key ∉ groups ++ Definition.handedKeys os

theorem inlineFields_keys (parts : List Inline) :
    (inlineFields parts).map AnswerField.key = inlineKeys parts := by
  rw [inlineFields, inlineKeys, List.map_map]
  rfl

/-- A group whose field stands further up is not met again. -/
theorem groupsIn_choice_seen {seen : List AnswerField} {c : Choice} (lines : List BodyLine)
    (known : seen.contains c.kind.group = true) :
    groupsIn seen (.choice c :: lines) = groupsIn seen lines := by
  refine List.filter_congr fun group _ => ?_
  rw [List.any_cons]
  by_cases same : c.kind.group = group
  · rw [← same, known]
    rfl
  · have other : ((BodyLine.choice c).group? == some group) = false := by
      simpa [BodyLine.group?] using same
    rw [other, Bool.false_or]

theorem mem_choiceGroups (kind : ChoiceKind) : kind.group ∈ choiceGroups := by
  cases kind <;> decide

theorem nodup_groupsIn (seen : List AnswerField) (lines : List BodyLine) :
    (groupsIn seen lines).Nodup := by
  have distinct : choiceGroups.Nodup := by decide
  exact distinct.filter _

theorem mem_groupsIn {seen : List AnswerField} {lines : List BodyLine} {group : AnswerField} :
    group ∈ groupsIn seen lines ↔ group ∈ choiceGroups ∧ group ∉ seen ∧
      ∃ line ∈ lines, line.group? = some group := by
  simp [groupsIn]

/-- A group that is new has its field at its first option. -/
theorem groupsIn_choice_new {seen : List AnswerField} {c : Choice} (lines : List BodyLine)
    (new : c.kind.group ∉ seen) :
    (groupsIn seen (.choice c :: lines)).Perm
      (c.kind.group :: groupsIn (c.kind.group :: seen) lines) := by
  have apart : c.kind.group ∉ groupsIn (c.kind.group :: seen) lines := by
    rw [mem_groupsIn]
    rintro ⟨-, unseen, -⟩
    exact unseen List.mem_cons_self
  refine (List.perm_ext_iff_of_nodup (nodup_groupsIn _ _)
    (List.nodup_cons.2 ⟨apart, nodup_groupsIn _ _⟩)).2 fun group => ?_
  have own := mem_choiceGroups c.kind
  rw [List.mem_cons, mem_groupsIn, mem_groupsIn, List.exists_mem_cons_iff, List.mem_cons, not_or]
  by_cases same : group = c.kind.group
  · subst same
    simp [BodyLine.group?, own, new]
  · simp [BodyLine.group?, same, Ne.symm same]

/-- Every group has its field once, beside the fields among the lines. -/
theorem lineFields_perm (seen : List AnswerField) (lines : List BodyLine) :
    (lineFields seen lines).Perm
      (groupsIn seen lines ++ lines.flatMap fun line => inlineFields line.inlines) := by
  induction lines generalizing seen with
  | nil => simp [lineFields, groupsIn]
  | cons line lines ih =>
    rw [List.flatMap_cons]
    cases line with
    | text inlines =>
      have same : groupsIn seen (.text inlines :: lines) = groupsIn seen lines := rfl
      rw [lineFields, same]
      exact ((ih seen).append_left _).trans (List.perm_append_comm_assoc ..)
    | choice c =>
      rw [lineFields]
      split
      · next known =>
        rw [groupsIn_choice_seen lines known]
        exact ((ih seen).append_left _).trans (List.perm_append_comm_assoc ..)
      · next unknown =>
        have new : c.kind.group ∉ seen := fun member => unknown (List.contains_iff_mem.2 member)
        have groups := groupsIn_choice_new lines new
        refine .trans ?_ (groups.append_right _).symm
        refine .cons _ ?_
        exact ((ih (c.kind.group :: seen)).append_left _).trans (List.perm_append_comm_assoc ..)

/-- The keys of a body: those of its groups, those written down and those handed out. -/
theorem bodyKeys_perm (content : String) :
    ((lineFields [] (Definition.readBody content)).map AnswerField.key).Perm
      (Definition.ownKeys (Definition.bodyOrigins content) ++
        ((groupsIn [] (Definition.readBody content)).map AnswerField.key ++
          Definition.handedKeys (Definition.bodyOrigins content))) := by
  have keys : ((Definition.readBody content).flatMap fun line => inlineFields line.inlines).map
      AnswerField.key = Definition.keysOf (fun _ => 0) (Definition.bodyOrigins content) := by
    rw [List.map_flatMap, ← Definition.readBody_origins]
    simp only [inlineFields_keys]
  have fields := (lineFields_perm [] (Definition.readBody content)).map AnswerField.key
  rw [List.map_append, keys] at fields
  exact (fields.trans ((Definition.keysOf_perm _ _).append_left _)).trans
    (List.perm_append_comm_assoc ..)

theorem groupKeys_nodup (seen : List AnswerField) (lines : List BodyLine) :
    ((groupsIn seen lines).map AnswerField.key).Nodup := by
  refine List.Nodup.map_on ?_ (nodup_groupsIn seen lines)
  have keys : ∀ group ∈ choiceGroups, ∀ other ∈ choiceGroups, group.key = other.key →
      group = other := by
    decide
  intro group member other member' same
  exact keys group (mem_groupsIn.1 member).1 other (mem_groupsIn.1 member').1 same

theorem groupKey_cases {seen : List AnswerField} {lines : List BodyLine} {key : String}
    (member : key ∈ (groupsIn seen lines).map AnswerField.key) :
    key = radioKey ∨ key = checkboxKey := by
  obtain ⟨group, inside, rfl⟩ := List.mem_map.1 member
  have keys : ∀ group ∈ choiceGroups, group.key = radioKey ∨ group.key = checkboxKey := by
    decide
  exact keys group (mem_groupsIn.1 inside).1

/-- Keys that are handed out never repeat each other, unless an option has two free texts. -/
theorem nodup_handed_iff (lines : List BodyLine) (os : List Definition.KeyOrigin) :
    ((groupsIn [] lines).map AnswerField.key ++ Definition.handedKeys os).Nodup ↔
      (Definition.freeValues os).Nodup := by
  have disjoint : List.Disjoint ((groupsIn [] lines).map AnswerField.key)
      (Definition.handedKeys os) := by
    intro key group handed
    rcases List.mem_append.1 handed with free | counted
    · obtain ⟨value, -, rfl⟩ := List.mem_map.1 free
      exact Definition.freeKey_ne_group value (groupKey_cases group)
    · exact Definition.group_notMem_countedKeys (groupKey_cases group) counted
  rw [List.nodup_append', Definition.nodup_handedKeys_iff]
  exact ⟨fun parts => parts.2.1, fun free => ⟨groupKeys_nodup _ _, free, disjoint⟩⟩

/-- The fields of a body have different keys exactly if the origins of its keys are apart. -/
theorem nodup_bodyKeys_iff (content : String) :
    ((lineFields [] (Definition.readBody content)).map AnswerField.key).Nodup ↔
      OriginsApart ((groupsIn [] (Definition.readBody content)).map AnswerField.key)
        (Definition.bodyOrigins content) := by
  rw [(bodyKeys_perm content).nodup_iff, List.nodup_append', nodup_handed_iff]
  constructor
  · rintro ⟨own, free, disjoint⟩
    exact ⟨own, free, fun key written handed => disjoint written handed⟩
  · intro apart
    exact ⟨apart.own, apart.free, fun key written handed => apart.unshared key written handed⟩

/-! ### Grids -/

/-- The values of the text columns. -/
def textValues (columns : List GridColumn) : List String :=
  (columns.filter (·.kind = .text)).map GridColumn.value

/-- Whether some column is no text, so that every row has a field of its own. -/
def hasChoice (columns : List GridColumn) : Bool := columns.any (·.kind ≠ .text)

/-- What keeps the keys of a table apart: rows and text columns are called differently, and no
cell is called like the cell of another row or like a row that has a field. -/
structure TableApart (rows : List GridRow) (columns : List GridColumn) : Prop where
  rowIds : (rows.map GridRow.id).Nodup
  texts : (textValues columns).Nodup
  cells : ∀ row ∈ rows, ∀ other ∈ rows, row.id ≠ other.id →
    ∀ text ∈ textValues columns, ∀ text' ∈ textValues columns,
      cellKey row.id text ≠ cellKey other.id text'
  choice : hasChoice columns = true → ∀ row ∈ rows, ∀ other ∈ rows,
    ∀ text ∈ textValues columns, cellKey row.id text ≠ other.id

/-- The keys of a row: its own if it has a field for its choice, and those of its texts. -/
def rowKeys (columns : List GridColumn) (row : GridRow) : List String :=
  (if hasChoice columns then [row.id] else []) ++ (textValues columns).map (cellKey row.id)

theorem rowFields_perm (row : GridRow) (chosen : Bool) (columns : List GridColumn) :
    ((rowFields row chosen columns).map AnswerField.key).Perm
      ((if hasChoice columns && !chosen then [row.id] else []) ++
        (textValues columns).map (cellKey row.id)) := by
  induction columns generalizing chosen with
  | nil => exact .refl _
  | cons column columns ih =>
    by_cases text : column.kind = .text
    · have fields : rowFields row chosen (column :: columns) =
          { key := cellKey row.id column.value, shape := .column .text } ::
            rowFields row chosen columns := by
        rw [rowFields, text]
      have values : textValues (column :: columns) = column.value :: textValues columns := by
        simp [textValues, text]
      have choice : hasChoice (column :: columns) = hasChoice columns := by
        simp [hasChoice, text]
      rw [fields, values, choice, List.map_cons, List.map_cons]
      exact ((ih chosen).cons _).trans List.perm_middle.symm
    · have fields : rowFields row chosen (column :: columns) =
          if chosen then rowFields row chosen columns
          else { key := row.id, shape := .column column.kind } :: rowFields row true columns := by
        cases kind : column.kind with
        | text => exact absurd kind text
        | radio | checkbox => rw [rowFields, kind]
      have values : textValues (column :: columns) = textValues columns := by
        simp [textValues, text]
      have choice : hasChoice (column :: columns) = true := by
        simp [hasChoice, text]
      rw [fields, values, choice]
      cases chosen with
      | true => simpa using ih true
      | false =>
        have rest := ih true
        rw [Bool.not_true, Bool.and_false] at rest
        exact rest.cons _

theorem cellKey_ne_row (row text : String) : cellKey row text ≠ row := by
  intro same
  have lengths := congrArg (fun s => s.toList.length) same
  simp only [cellKey, String.toList_append, List.length_append] at lengths
  have underscore : ("_" : String).toList.length = 1 := rfl
  omega

theorem cellKey_injective {row text text' : String} (same : cellKey row text = cellKey row text') :
    text = text' := by
  have chars := congrArg String.toList same
  simp only [cellKey, String.toList_append, List.append_assoc] at chars
  exact String.toList_injective (List.append_cancel_left (List.append_cancel_left chars))

theorem nodup_rowKeys {columns : List GridColumn} {row : GridRow} :
    (rowKeys columns row).Nodup ↔ (textValues columns).Nodup := by
  have injective : Function.Injective (cellKey row.id) := fun _ _ => cellKey_injective
  have apart : List.Disjoint (if hasChoice columns then [row.id] else [])
      ((textValues columns).map (cellKey row.id)) := by
    intro key own cell
    obtain ⟨text, -, rfl⟩ := List.mem_map.1 cell
    split at own
    · exact cellKey_ne_row _ _ (List.mem_singleton.1 own)
    · cases own
  rw [rowKeys, List.nodup_append', List.nodup_map_iff injective]
  have single : (if hasChoice columns then [row.id] else []).Nodup := by
    split
    · exact List.nodup_singleton _
    · exact List.nodup_nil
  exact ⟨fun parts => parts.2.1, fun texts => ⟨single, texts, apart⟩⟩

theorem mem_rowKeys {columns : List GridColumn} {row : GridRow} {key : String} :
    key ∈ rowKeys columns row ↔ hasChoice columns = true ∧ key = row.id ∨
      ∃ text ∈ textValues columns, cellKey row.id text = key := by
  rw [rowKeys, List.mem_append, List.mem_map]
  split <;> simp_all

theorem rowKeys_ne_nil {columns : List GridColumn} (present : columns ≠ []) (row : GridRow) :
    rowKeys columns row ≠ [] := by
  obtain ⟨column, more, rfl⟩ := List.exists_cons_of_ne_nil present
  by_cases text : column.kind = .text
  · simp [rowKeys, textValues, text]
  · simp [rowKeys, hasChoice, text]

/-- Two rows have no key in common exactly if none of their cells is called like the other row or
like a cell of it. -/
theorem disjoint_rowKeys {columns : List GridColumn} {row other : GridRow}
    (ids : row.id ≠ other.id) :
    List.Disjoint (rowKeys columns row) (rowKeys columns other) ↔
      (∀ text ∈ textValues columns, ∀ text' ∈ textValues columns,
        cellKey row.id text ≠ cellKey other.id text') ∧
      (hasChoice columns = true → ∀ text ∈ textValues columns,
        cellKey row.id text ≠ other.id ∧ cellKey other.id text ≠ row.id) := by
  constructor
  · intro apart
    refine ⟨fun text member text' member' same => ?_, fun chosen text member => ⟨?_, ?_⟩⟩
    · exact apart (mem_rowKeys.2 (.inr ⟨text, member, rfl⟩))
        (mem_rowKeys.2 (.inr ⟨text', member', same.symm⟩))
    · intro same
      exact apart (mem_rowKeys.2 (.inr ⟨text, member, rfl⟩)) (mem_rowKeys.2 (.inl ⟨chosen, same⟩))
    · intro same
      exact apart (mem_rowKeys.2 (.inl ⟨chosen, same⟩)) (mem_rowKeys.2 (.inr ⟨text, member, rfl⟩))
  · rintro ⟨cells, choice⟩ key here there
    rcases mem_rowKeys.1 here with ⟨chosen, rfl⟩ | ⟨text, member, rfl⟩
    · rcases mem_rowKeys.1 there with ⟨-, same⟩ | ⟨text', member', same⟩
      · exact ids same
      · exact (choice chosen text' member').2 same
    · rcases mem_rowKeys.1 there with ⟨chosen, same⟩ | ⟨text', member', same⟩
      · exact (choice chosen text member).1 same
      · exact cells text member text' member' same.symm

/-- The keys of a table are distinct exactly if its rows, texts and cells are kept apart. -/
theorem nodup_rowKeys_iff {rows : List GridRow} {columns : List GridColumn} (filled : rows ≠ [])
    (present : columns ≠ []) : (rows.flatMap (rowKeys columns)).Nodup ↔ TableApart rows columns := by
  rw [List.nodup_flatMap]
  constructor
  · rintro ⟨each, disjoint⟩
    have ids : rows.Pairwise fun row other => row.id ≠ other.id := by
      refine disjoint.imp fun {row other} apart same => ?_
      have equal : rowKeys columns row = rowKeys columns other := by
        rw [rowKeys, rowKeys, same]
      obtain ⟨key, keys, first⟩ := List.exists_cons_of_ne_nil (rowKeys_ne_nil present row)
      have member : key ∈ rowKeys columns row := first ▸ List.mem_cons_self
      exact apart member (equal ▸ member)
    have apart : ∀ row ∈ rows, ∀ other ∈ rows, row.id ≠ other.id →
        List.Disjoint (rowKeys columns row) (rowKeys columns other) := by
      intro row member other member' different
      have symmetric : Std.Symm (Function.onFun List.Disjoint (rowKeys columns)) :=
        ⟨fun _ _ apart key here there => apart there here⟩
      exact disjoint.forall member member' fun same => different (congrArg GridRow.id same)
    obtain ⟨row, first⟩ := List.exists_mem_of_ne_nil rows filled
    refine ⟨List.pairwise_map.2 ids, nodup_rowKeys.1 (each row first), ?_, ?_⟩
    · intro row member other member' different
      exact ((disjoint_rowKeys different).1 (apart row member other member' different)).1
    · intro chosen row member other member' text inside
      by_cases same : row.id = other.id
      · rw [same]
        exact cellKey_ne_row _ _
      · exact (((disjoint_rowKeys same).1 (apart row member other member' same)).2 chosen
          text inside).1
  · intro apart
    refine ⟨fun row _ => nodup_rowKeys.2 apart.texts, ?_⟩
    refine (List.pairwise_map.1 apart.rowIds).imp_of_mem fun {row other} member member' ids => ?_
    refine (disjoint_rowKeys ids).2 ⟨apart.cells row member other member' ids, ?_⟩
    intro chosen text inside
    exact ⟨apart.choice chosen row member other member' text inside,
      apart.choice chosen other member' row member text inside⟩

/-! ### Records -/

namespace Record

/-- What keeps the keys of a record apart. -/
def KeysApart (r : Record) : Prop :=
  match r.content with
  | .body lines => OriginsApart ((groupsIn [] lines).map AnswerField.key)
      (Definition.bodyOrigins (r.rawBody.getD ""))
  | .grid table => TableApart table.rows table.columns
  | .gridRow row columns => TableApart [row] columns
  | .marker _ => True

/-- The fields of a table have the keys of its rows. -/
theorem tableKeys_perm (rows : List GridRow) (columns : List GridColumn) :
    ((rows.flatMap fun row => rowFields row false columns).map AnswerField.key).Perm
      (rows.flatMap (rowKeys columns)) := by
  rw [List.map_flatMap]
  refine List.Perm.flatMap_left rows fun row _ => ?_
  have keys := rowFields_perm row false columns
  rwa [Bool.not_false, Bool.and_true] at keys

theorem nodup_tableKeys_iff {rows : List GridRow} {columns : List GridColumn} (filled : rows ≠ [])
    (present : columns ≠ []) :
    ((rows.flatMap fun row => rowFields row false columns).map AnswerField.key).Nodup ↔
      TableApart rows columns := by
  rw [(tableKeys_perm rows columns).nodup_iff]
  exact nodup_rowKeys_iff filled present

theorem ofQuestion_keysApart (q : QuestionText) :
    ((Record.ofQuestion q).fields.map AnswerField.key).Nodup ↔ (Record.ofQuestion q).KeysApart := by
  unfold Record.ofQuestion
  split
  · exact iff_of_true List.nodup_nil trivial
  · exact nodup_bodyKeys_iff q.body

end Record

namespace Survey
variable {s : Survey}

/-- The fields of a record have different keys exactly if no key is written down twice or called
like one that is handed out, no option has two free texts, rows and text columns are called
differently, and no cell is called like a cell of another row or like a row. -/
theorem fields_apart_iff (compiled : s.Compiled) : ∀ r ∈ s.records ++ s.rows,
    (r.fields.map AnswerField.key).Nodup ↔ r.KeysApart := by
  refine compiled.forall (fun q _ => Record.ofQuestion_keysApart q) ?_
  intro q table _ _ sound
  refine ⟨Record.nodup_tableKeys_iff sound.rows sound.columns, fun index row _ => ?_⟩
  have single := Record.nodup_tableKeys_iff (List.cons_ne_nil row []) sound.columns
  rwa [List.flatMap_cons, List.flatMap_nil, List.append_nil] at single

/-- A question with fields of all origins, and a grid with texts and choices. -/
def keyedText : String :=
  "[A]\n(1) \x7bother\x7d\n\x7btext\x7d \x7btext\x7d \x7bdate:d\x7d\n|grid G||x|R=r|1=c;text:T=t|\n[END]"

theorem fields_apart_of_all_origins : ∃ s, compile {} "s" keyedText = .ok s ∧
    (s.records ++ s.rows).map (fun r => r.fields.map AnswerField.key) =
      [["choice", "other_1", "text", "text2", "d"], ["R", "R_T"], [], ["R", "R_T"]] ∧
    ∀ r ∈ s.records ++ s.rows, r.KeysApart := by
  have evaluated : ((compile {} "s" keyedText).toOption.map fun s =>
      (s.records ++ s.rows).map fun r => r.fields.map AnswerField.key) =
      some [["choice", "other_1", "text", "text2", "d"], ["R", "R_T"], [], ["R", "R_T"]] := by
    decide +kernel
  obtain ⟨s, accepted, keys⟩ := exists_ok_of_map evaluated
  have distinct : ∀ keys ∈ (s.records ++ s.rows).map fun r => r.fields.map AnswerField.key,
      keys.Nodup := by
    rw [keys]
    decide
  refine ⟨s, accepted, keys, fun r member => ?_⟩
  apply (fields_apart_iff ⟨_, _, _, accepted⟩ r member).1
  exact distinct _ (List.mem_map_of_mem member)

/-- A text that is called like the second of two texts behind it. -/
def calledText : String := "[A]\n\x7btext:text2\x7d \x7btext\x7d \x7btext\x7d\n[END]"

/-- One key is written down, but two fields have it. -/
theorem counted_key_repeated : ∃ s, compile {} "s" calledText = .ok s ∧
    (s.records.map fun r => Definition.ownKeys (Definition.bodyOrigins (r.rawBody.getD ""))) =
      [["text2"], []] ∧
    (∀ r ∈ s.records, Definition.freeValues (Definition.bodyOrigins (r.rawBody.getD "")) = []) ∧
    s.rows.length = 0 ∧ ∃ r ∈ s.records, r.fields.map AnswerField.key = ["text2", "text", "text2"] ∧
      ¬(r.fields.map AnswerField.key).Nodup := by
  have evaluated : ((compile {} "s" calledText).toOption.map fun s =>
      (s.records.map fun r =>
        let origins := Definition.bodyOrigins (r.rawBody.getD "")
        (r.fields.map AnswerField.key, Definition.ownKeys origins, Definition.freeValues origins),
        s.rows.length)) =
      some ([(["text2", "text", "text2"], ["text2"], []), ([], [], [])], 0) := by
    decide +kernel
  obtain ⟨s, accepted, facts⟩ := exists_ok_of_map evaluated
  obtain ⟨records, rows⟩ := Prod.mk.inj facts
  obtain ⟨a, rest, split, first, ending⟩ := List.map_eq_cons_iff.1 records
  obtain ⟨z, nothing, rfl, last, none⟩ := List.map_eq_cons_iff.1 ending
  obtain rfl := List.map_eq_nil_iff.1 none
  simp only [Prod.mk.injEq] at first last
  refine ⟨s, accepted, ?_, ?_, rows, a, ?_, first.1, ?_⟩
  · rw [split]
    exact congrArg₂ (fun own others => [own, others]) first.2.1 last.2.1
  · rw [split]
    simp [first.2.2, last.2.2]
  · rw [split]
    exact List.mem_cons_self
  · rw [first.1]
    decide

end Survey

end Questionnaire
