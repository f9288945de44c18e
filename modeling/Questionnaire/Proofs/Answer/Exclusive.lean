import Questionnaire.Proofs.Answer.Every
import Questionnaire.Proofs.Survey.FieldCount

/-! Answers that exclude each other. An entry keeps them apart if an option that excludes the
others is selected alone and at most one field of an exclusive group has an answer. What is taken
away leaves them apart, and so does what is recorded once the rivals of its field are cleared. -/
namespace Questionnaire

/-- Fields that belong to one exclusive group. -/
def AnswerField.Rivals (f g : AnswerField) : Prop :=
  ∃ group, f.exclusiveGroup = some group ∧ g.exclusiveGroup = some group

namespace Record
variable {r : Record} {e : Entry} {f g : AnswerField} {v : AnswerValue}

/-- A selection that holds an option that excludes the others holds no other value. -/
def Alone (r : Record) (v : AnswerValue) : Prop :=
  ∀ items, v = .many items → ∀ x ∈ items, x ∈ r.soleValues → ∀ y ∈ items, y = x

structure KeepsApart (r : Record) (e : Entry) : Prop where
  alone : ∀ v, e.field? checkboxKey = some v → r.Alone v
  rivals : ∀ f ∈ r.fields, ∀ g ∈ r.fields, f.Rivals g →
    (e.field? f.key).isSome → (e.field? g.key).isSome → f = g

/-- Options that exclude the others belong to the group of checkboxes. -/
theorem checkboxKey_mem {value : String} (sole : value ∈ r.soleValues) :
    checkboxKey ∈ r.fields.map AnswerField.key := by
  rw [mem_fields]
  unfold soleValues lines at sole
  unfold controlKeys
  cases content : r.content with
  | body lines =>
    simp only [content] at sole
    obtain ⟨line, member, chosen⟩ := List.mem_filterMap.1 sole
    refine List.mem_flatMap.2 ⟨line, member, ?_⟩
    cases line with
    | text => cases chosen
    | choice c =>
      simp only [Option.ite_none_right_eq_some] at chosen
      obtain ⟨kind, -⟩ := chosen
      rw [Rendering.lineKeys, kind]
      exact List.mem_cons_self
  | _ => simp [content] at sole

theorem field_eq_of_key (distinct : (r.fields.map AnswerField.key).Nodup) (field : f ∈ r.fields)
    (other : g ∈ r.fields) (same : f.key = g.key) : f = g :=
  List.inj_on_of_nodup_map distinct field other same

/-- A question with one field has nothing to keep apart but the options of its group. -/
theorem keepsApart_single (distinct : (r.fields.map AnswerField.key).Nodup)
    (few : (r.fields.map AnswerField.key).toFinset.card ≤ 1) (field : f ∈ r.fields)
    (alone : f.key = checkboxKey → r.Alone v) : r.KeepsApart (.single v) := by
  have only {g h : AnswerField} (first : g ∈ r.fields) (second : h ∈ r.fields) : g = h := by
    refine field_eq_of_key distinct first second (Finset.card_le_one.1 few _ ?_ _ ?_)
    · exact List.mem_toFinset.2 (List.mem_map_of_mem first)
    · exact List.mem_toFinset.2 (List.mem_map_of_mem second)
  refine ⟨?_, fun g first h second _ _ _ => only first second⟩
  rintro w held items rfl x member sole
  obtain ⟨g, group, key⟩ := List.mem_map.1 (checkboxKey_mem sole)
  obtain rfl := only group field
  cases held
  exact alone key items rfl x member sole

end Record

namespace Entry
variable {e : Entry} {key other : String} {v w : AnswerValue}

/-- Every answer of an entry is one of another. -/
def Within (e larger : Entry) : Prop :=
  ∀ key v, e.field? key = some v → larger.field? key = some v

theorem Within.refl (e : Entry) : e.Within e := fun _ _ => id

theorem Within.isSome {larger : Entry} (within : e.Within larger)
    (answered : (e.field? key).isSome) : (larger.field? key).isSome := by
  obtain ⟨v, held⟩ := Option.isSome_iff_exists.1 answered
  rw [within key v held]
  rfl

theorem drop_within {left : Entry} (dropped : e.drop key = some left) :
    left.Within e ∧ left.field? key = none := by
  cases e with
  | single => cases dropped
  | keyed answers =>
    simp only [drop, Option.ite_none_left_eq_some, Option.some.injEq] at dropped
    obtain ⟨-, rfl⟩ := dropped
    refine ⟨fun name v held => ?_, by simp [field?]⟩
    simp only [field?, Dict.get?_erase, Option.ite_none_left_eq_some] at held
    exact held.2

theorem put_other {e : Option Entry} (apart : other ≠ key)
    (held : (put e key v).field? other = some w) :
    ∃ earlier, e = some earlier ∧ earlier.field? other = some w := by
  unfold put at held
  split at held
  · next answers =>
    simp only [field?, Dict.get?_insert, if_neg apart] at held
    exact ⟨_, rfl, held⟩
  · simp [field?, apart] at held

end Entry

namespace Record
variable {r : Record} {e larger : Entry} {f : AnswerField} {v : AnswerValue}

theorem KeepsApart.mono (kept : r.KeepsApart larger) (within : e.Within larger) :
    r.KeepsApart e where
  alone v held := kept.alone v (within _ v held)
  rivals f field g other group first second :=
    kept.rivals f field g other group (within.isSome first) (within.isSome second)

/-- An answer is kept apart from the others if its rivals have none. -/
theorem keepsApart_put (distinct : (r.fields.map AnswerField.key).Nodup) (field : f ∈ r.fields)
    {e : Option Entry} (kept : ∀ earlier, e = some earlier → r.KeepsApart earlier)
    (cleared : ∀ earlier, e = some earlier → ∀ g ∈ r.fields, g.key ≠ f.key → f.Rivals g →
      earlier.field? g.key = none)
    (alone : f.key = checkboxKey → r.Alone v) : r.KeepsApart (.put e f.key v) := by
  -- Besides the new answer only earlier ones are left, none of them a rival's.
  have earlier {g : AnswerField} (apart : g.key ≠ f.key)
      (answered : ((Entry.put e f.key v).field? g.key).isSome) :
      ∃ old, e = some old ∧ (old.field? g.key).isSome := by
    obtain ⟨w, held⟩ := Option.isSome_iff_exists.1 answered
    obtain ⟨old, same, held⟩ := Entry.put_other apart held
    exact ⟨old, same, by rw [held]; rfl⟩
  have rival {g : AnswerField} (member : g ∈ r.fields) (group : f.Rivals g)
      (answered : ((Entry.put e f.key v).field? g.key).isSome) : f = g := by
    by_contra other
    have apart : g.key ≠ f.key := fun same =>
      other (field_eq_of_key distinct field member same.symm)
    obtain ⟨old, same, held⟩ := earlier apart answered
    rw [cleared old same g member apart group] at held
    cases held
  constructor
  · intro w held
    by_cases same : checkboxKey = f.key
    · rw [same, Entry.put_field?] at held
      cases held
      exact alone same.symm
    · obtain ⟨old, present, held⟩ := Entry.put_other same held
      exact (kept old present).alone w held
  · intro g member h other group first second
    by_cases left : g.key = f.key
    · obtain rfl := field_eq_of_key distinct member field left
      exact rival other group second
    by_cases right : h.key = f.key
    · obtain rfl := field_eq_of_key distinct other field right
      obtain ⟨name, one, two⟩ := group
      exact (rival member ⟨name, two, one⟩ first).symm
    · obtain ⟨old, present, one⟩ := earlier left first
      obtain ⟨again, same, two⟩ := earlier right second
      cases present.symm.trans same
      exact (kept old present).rivals g member h other group one two

end Record

namespace Survey
variable {s : Survey} {id : String}

theorem Compiled.pointless (compiled : s.Compiled) :
    ∀ r ∈ s.records ++ s.rows, '.' ∉ r.id.toList := by
  refine compiled.forall (P := fun r => '.' ∉ r.id.toList) ?_ ?_
  · intro q shaped
    rw [(Draft.Origin.id_eq (.inl rfl) : (Record.ofQuestion q).id = q.id)]
    exact shaped.pointless
  · intro q table shaped named sound
    exact ⟨shaped.pointless, fun index row found => (sound.rowId row (List.mem_of_getElem? found)).2⟩

theorem mem_rows_of_rowOwners {grid : String} (owned : s.rowOwners.get? id = some grid) :
    ∃ row ∈ s.rows, row.id = id := by
  obtain ⟨row, member, entry⟩ := List.mem_filterMap.1 (Dict.mem_ofList (Dict.mem_entries.2 owned))
  obtain ⟨m, -, same⟩ := Option.map_eq_some_iff.1 entry
  exact ⟨row, member, congrArg Prod.fst same⟩

/-- An entry of a question that keeps its answers apart. -/
def KeepsApart (s : Survey) (q : String) (e : Entry) : Prop :=
  ∃ r, s.record? q = some r ∧ r.KeepsApart e

end Survey

namespace Store
variable {survey : Survey} {s : Store} {q key : String} {e : Entry} {r : Record} {f : AnswerField}
  {v : AnswerValue}

/-- A store whose entries, pending ones included, keep their answers apart, and that has counted
the fields of questions as they are. -/
structure KeepsApart (survey : Survey) (s : Store) : Prop where
  counts : ∀ r ∈ survey.records, ∀ count, s.fieldCounts.get? r.id = some count →
    count = (r.fields.map AnswerField.key).toFinset.card
  committed : ∀ q e, s.committed.get? q = some e → survey.KeepsApart q e
  pending : ∀ q e, s.pending.get? q = some (some e) → survey.KeepsApart q e

theorem KeepsApart.every (kept : s.KeepsApart survey) : s.Every survey.KeepsApart :=
  ⟨kept.committed, kept.pending⟩

theorem KeepsApart.present (kept : s.KeepsApart survey) (held : s.entry? q = some e) :
    survey.KeepsApart q e := kept.every.present held

theorem KeepsApart.forget (kept : s.KeepsApart survey) : s.forget.KeepsApart survey :=
  ⟨kept.counts, kept.committed, kept.pending⟩

theorem KeepsApart.merge (kept : s.KeepsApart survey) : s.merge.KeepsApart survey where
  counts := kept.counts
  committed := kept.every.merge.committed
  pending := kept.every.merge.pending

theorem KeepsApart.edit (kept : s.KeepsApart survey) {new : Option Entry}
    (apart : ∀ e, new = some e → survey.KeepsApart q e) : (s.edit q new).KeepsApart survey where
  counts := kept.counts
  committed := kept.committed
  pending := (kept.every.edit apart).pending

theorem KeepsApart.clear (kept : s.KeepsApart survey) (q key : String) :
    (s.clear q key).KeepsApart survey := by
  unfold Store.clear
  split
  · exact kept
  · next e held =>
    split
    · refine kept.edit fun left dropped => ?_
      obtain ⟨r, found, apart⟩ := kept.present held
      exact ⟨r, found, apart.mono (Entry.drop_within dropped).1⟩
    · exact kept

theorem KeepsApart.foldl_clear (kept : s.KeepsApart survey) (fields : List AnswerField) :
    (fields.foldl (fun store f => store.clear q f.key) s).KeepsApart survey := by
  induction fields generalizing s with
  | nil => exact kept
  | cons f fields ih => exact ih (kept.clear q f.key)

theorem clear_left {left : Entry} (held : Store.entry? (s.clear q key) q = some left) :
    (∃ e, s.entry? q = some e ∧ left.Within e) ∧ left.field? key = none := by
  unfold clear at held
  split at held
  · next none =>
    rw [none] at held
    cases held
  · next e present =>
    split at held
    · rw [entry?_edit] at held
      obtain ⟨within, gone⟩ := Entry.drop_within held
      exact ⟨⟨e, present, within⟩, gone⟩
    · next absent =>
      rw [Option.some.inj (held.symm.trans present)]
      refine ⟨⟨e, present, .refl e⟩, ?_⟩
      cases e with
      | single => exact absurd rfl absent
      | keyed answers => simpa [Entry.holds, Dict.contains, Entry.field?] using absent

/-- What is cleared has no answer any more. -/
theorem foldl_clear_left {fields : List AnswerField} {left : Entry}
    (held : Store.entry? (fields.foldl (fun store f => store.clear q f.key) s) q = some left) :
    (∃ e, s.entry? q = some e ∧ left.Within e) ∧ ∀ f ∈ fields, left.field? f.key = none := by
  induction fields generalizing s with
  | nil => exact ⟨⟨left, held, .refl left⟩, by simp⟩
  | cons f fields ih =>
    obtain ⟨⟨middle, present, within⟩, gone⟩ := ih held
    obtain ⟨⟨e, earlier, wider⟩, first⟩ := clear_left present
    refine ⟨⟨e, earlier, fun key v held => wider key v (within key v held)⟩, ?_⟩
    refine List.forall_mem_cons.2 ⟨?_, gone⟩
    by_contra answered
    have answered := within.isSome (Option.isSome_iff_ne_none.2 answered)
    rw [first] at answered
    cases answered

theorem KeepsApart.fieldCount (kept : s.KeepsApart survey) (compiled : survey.Compiled)
    (member : r ∈ survey.records) (context : Context) :
    (s.fieldCount r.id (r.markupText context)).1 = (r.fields.map AnswerField.key).toFinset.card ∧
      (s.fieldCount r.id (r.markupText context)).2.KeepsApart survey := by
  unfold Store.fieldCount
  split
  · next count counted => exact ⟨kept.counts r member count counted, kept⟩
  · have counted := Record.countFields_markup
      (compiled.writable r (List.mem_append_left _ member)) context
    refine ⟨counted, ⟨?_, kept.committed, kept.pending⟩⟩
    intro other among count held
    rw [Dict.get?_insert] at held
    split at held
    · next same =>
      cases held
      rw [List.inj_on_of_nodup_map compiled.distinct among member same]
      exact counted
    · exact kept.counts other among count held

/-- An answer whose rivals have none is kept apart from the others. -/
theorem KeepsApart.set (kept : s.KeepsApart survey) (found : survey.record? q = some r)
    (distinct : (r.fields.map AnswerField.key).Nodup) (field : f ∈ r.fields)
    (cleared : v.isEmpty = false → ∀ e, s.entry? q = some e → ∀ g ∈ r.fields, g.key ≠ f.key →
      f.Rivals g → e.field? g.key = none)
    (alone : f.key = checkboxKey → r.Alone v) :
    (s.set q f.key (r.fields.map AnswerField.key).toFinset.card v).KeepsApart survey := by
  unfold Store.set
  split
  · exact kept.clear q f.key
  · next answered =>
    split
    · next few =>
      refine kept.edit fun e new => ?_
      cases new
      exact ⟨r, found, Record.keepsApart_single distinct few field alone⟩
    · refine kept.edit fun e new => ?_
      cases new
      refine ⟨r, found, Record.keepsApart_put distinct field ?_ ?_ alone⟩
      · intro earlier held
        obtain ⟨other, same, apart⟩ := kept.present held
        cases found.symm.trans same
        exact apart
      · exact cleared (Bool.eq_false_iff.2 answered)

/-! What is live -/

/-- Unless a row is called like a question, what is live under a field of the question stands in
its entry; a field that is called like the question itself stands for all of them. -/
theorem KeepsApart.live (kept : s.KeepsApart survey) (compiled : survey.Compiled)
    (owners : s.rowOwners = survey.rowOwners)
    (unshared : ∀ row ∈ survey.rows, row.id ≠ r.id) (apart : compoundName key r.id ≠ r.id)
    (live : s.liveValue? key r.id = some v) :
    ∃ e, s.entry? r.id = some e ∧ e.field? key = some v := by
  have unowned {name : String} (free : ∀ row ∈ survey.rows, row.id ≠ name) :
      s.ownerEntry? name = none := by
    unfold ownerEntry?
    rw [owners, Option.bind_eq_none_iff]
    intro grid owned
    obtain ⟨row, among, same⟩ := Survey.mem_rows_of_rowOwners owned
    exact absurd same (free row among)
  rw [liveValue?, compoundName_of_ne apart] at live
  by_cases pointed : '.' ∈ key.toList
  · -- A name is cut at its first point, and what follows the point here denotes nothing.
    obtain ⟨before, after, text, plain⟩ := List.eq_append_cons_of_mem pointed
    have cut : key ++ "." ++ r.id =
        String.ofList before ++ "." ++ (String.ofList after ++ "." ++ r.id) := by
      apply String.toList_injective
      simp [String.toList_append, text]
    have point : '.' ∈ (String.ofList after ++ "." ++ r.id).toList := by
      simp [String.toList_append]
    rw [cut, live?_field s (by simpa using plain), liveField?] at live
    split at live
    · next e held =>
      obtain ⟨other, found, -⟩ := kept.present held
      obtain ⟨among, same⟩ := Survey.mem_of_record? found
      exact absurd (same ▸ point) (compiled.pointless other (List.mem_append_left _ among))
    · rw [unowned fun row among same =>
        compiled.pointless row (List.mem_append_right _ among) (same ▸ point)] at live
      cases live
  · rw [live?_field s pointed, liveField?] at live
    split at live
    · next e held => exact ⟨e, held, live⟩
    · rw [unowned unshared] at live
      cases live

end Store

end Questionnaire
