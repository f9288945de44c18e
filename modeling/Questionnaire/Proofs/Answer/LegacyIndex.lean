import Questionnaire.Proofs.Answer.Lookup

/-! What an index over a stored tree finds, and what lookups get from it. It finds nothing
under a name exactly if no leaf of the tree has that name, at whatever depth of objects.
It lies behind all answers, so a question that has lost its entry is looked up there. -/
namespace Questionnaire

namespace LegacyIndex
variable {name : String} {value : Json}

/-- A value under a key that names it, in an object or in objects inside it. -/
inductive Named (name : String) (value : Json) : Json → Prop
  | here {key : String} {fields : List (String × Json)} (member : (key, value) ∈ fields)
      (called : name ∈ names key) : Named name value (.object fields)
  | within {key : String} {inner : Json} {fields : List (String × Json)}
      (member : (key, inner) ∈ fields) (named : Named name value inner) :
      Named name value (.object fields)

theorem named_cons {key : String} {first : Json} {fields : List (String × Json)} :
    Named name value (.object ((key, first) :: fields)) ↔
      (name ∈ names key ∧ value = first) ∨ Named name value first ∨
        Named name value (.object fields) := by
  constructor
  · rintro (⟨member, called⟩ | ⟨member, named⟩)
    · rcases List.mem_cons.1 member with same | member
      · cases same
        exact .inl ⟨called, rfl⟩
      · exact .inr (.inr (.here member called))
    · rcases List.mem_cons.1 member with same | member
      · cases same
        exact .inr (.inl named)
      · exact .inr (.inr (.within member named))
  · rintro (⟨called, rfl⟩ | named | ⟨member, called⟩ | ⟨member, named⟩)
    · exact .here List.mem_cons_self called
    · exact .within List.mem_cons_self named
    · exact .here (List.mem_cons_of_mem _ member) called
    · exact .within (List.mem_cons_of_mem _ member) named

mutual

theorem mem_collect (tree : Json) : (name, value) ∈ collect tree ↔ Named name value tree := by
  match tree with
  | .object fields =>
    rw [collect]
    exact mem_collectFields fields
  | .null | .bool _ | .number _ | .text _ | .array _ =>
    constructor
    · intro member
      cases member
    · intro named
      cases named

theorem mem_collectFields (fields : List (String × Json)) :
    (name, value) ∈ collectFields fields ↔ Named name value (.object fields) := by
  match fields with
  | [] =>
    constructor
    · intro member
      cases member
    · rintro (⟨member, -⟩ | ⟨member, -⟩) <;> cases member
  | (key, first) :: fields =>
    have own : (name, value) ∈ (names key).map (·, first) ↔ name ∈ names key ∧ value = first := by
      rw [List.mem_map]
      constructor
      · rintro ⟨_, called, same⟩
        cases same
        exact ⟨called, rfl⟩
      · rintro ⟨called, rfl⟩
        exact ⟨name, called, rfl⟩
    rw [collectFields, named_cons, List.mem_append, List.mem_append, own, mem_collect first,
      mem_collectFields fields, or_assoc]

end

theorem find?_eq_none_iff (index : LegacyIndex) (name : String) : index.find? name = none ↔
    ∀ value, (name, value) ∈ index.entries → AnswerValue.ofLeaf? value = none := by
  simp only [find?, List.findSome?_eq_none_iff, List.mem_filter, List.mem_reverse, beq_iff_eq]
  constructor
  · intro unanswered value member
    exact unanswered (name, value) ⟨member, rfl⟩
  · rintro unanswered ⟨_, value⟩ ⟨member, rfl⟩
    exact unanswered value member

/-- Nothing is found under a name that no leaf of the tree has. -/
theorem find?_ofJson_eq_none_iff (tree : Json) (name : String) :
    (ofJson tree).find? name = none ↔
      ∀ value, Named name value tree → AnswerValue.ofLeaf? value = none := by
  simp only [find?_eq_none_iff, ofJson, mem_collect]

end LegacyIndex

namespace Store
variable {s : Store} {question field name : String} {e : Entry}

/-- The store as it is in a session that has never resumed. -/
def withoutIndex (s : Store) : Store := { s with legacy := {} }

theorem answer?_index (s : Store) (name : String) :
    s.answer? name = (s.withoutIndex.answer? name).or (s.legacy.find? name) := by
  have behind : s.find? name = (s.withoutIndex.find? name).or (s.legacy.find? name) :=
    congrArg (Option.or · (s.legacy.find? name)) Option.or_none.symm
  rw [answer?, behind, ← Option.or_assoc]
  rfl

theorem coherent_of_forgotten (forgotten : s.resolved = ∅) : s.Coherent := by
  intro name v remembered
  rw [forgotten] at remembered
  cases remembered

/-- A name is seen as in a session that has never resumed if the index knows nothing of it. -/
theorem source_withoutIndex (forgotten : s.resolved = ∅) (unknown : s.legacy.find? name = none) :
    s.source name = s.withoutIndex.source name := by
  have coherent : s.withoutIndex.Coherent := coherent_of_forgotten forgotten
  rw [source, source, ((coherent_of_forgotten forgotten).lookup name).1,
    (coherent.lookup name).1, answer?_index, unknown, Option.or_none]

theorem livePrimary?_eq_none (lost : s.entry? name = none)
    (unowned : ∀ e, s.ownerEntry? name = some e → e.field? name = none) :
    s.livePrimary? name = none := by
  rw [livePrimary?, lost]
  cases owned : s.ownerEntry? name with
  | none => rfl
  | some e => exact unowned e owned

/-- An edit that takes an entry away forgets what lookups have found. -/
theorem clear_forgets (held : s.entry? question = some e)
    (lost : Store.entry? (s.clear question field) question = none) :
    (s.clear question field).resolved = ∅ := by
  unfold clear at lost ⊢
  rw [held] at lost ⊢
  simp only at lost ⊢
  split
  · rfl
  · next kept =>
    rw [if_neg kept, held] at lost
    cases lost

end Store

end Questionnaire
