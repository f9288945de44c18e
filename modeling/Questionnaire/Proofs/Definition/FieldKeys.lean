import Mathlib.Data.List.TakeWhile
import Questionnaire.Definition.BodyReader
import Questionnaire.Proofs.Definition.Annotation
import Questionnaire.Survey.Record

/-! Keys of fields and values of options as a body may hold them. Whether a key is written down
or given out, it holds no sign of equality, and neither does the value of an option. -/
namespace Questionnaire

/-- A name that can stand in an attribute without being taken for one. -/
def Unassigning (s : String) : Prop := '=' ∉ s.toList

theorem Unassigning.append {s t : String} (first : Unassigning s) (second : Unassigning t) :
    Unassigning (s ++ t) := by
  unfold Unassigning
  rw [String.toList_append, List.mem_append, not_or]
  exact ⟨first, second⟩

theorem unassigning_of_all {s : String} {p : Char → Bool} (other : p '=' = false)
    (chars : ∀ c ∈ s.toList, p c = true) : Unassigning s := by
  intro member
  rw [chars _ member] at other
  cases other

theorem unassigning_underscore : Unassigning "_" := by
  unfold Unassigning
  decide

/-- The keys of the fields among inline parts. -/
def inlineKeys (parts : List Inline) : List String := (parts.filterMap Inline.field?).map Field.key

/-- Every field of a line has a key of this kind, and so has an option its value. -/
structure BodyLine.Keyed (line : BodyLine) : Prop where
  keys : ∀ key ∈ inlineKeys line.inlines, Unassigning key
  value : ∀ c, line = .choice c → Unassigning c.value

namespace Definition

open Text

def InlineMarker.Keyed (marker : InlineMarker) : Prop :=
  ∀ m key, marker = .field m → m.key = some key → Unassigning key

def LineMarker.Keyed : LineMarker → Prop
  | .text markers => ∀ marker ∈ markers, marker.Keyed
  | .choice _ value label _ => Unassigning value ∧ ∀ marker ∈ label, marker.Keyed

theorem takeKey?_keyed {cs key rest : List Char} (taken : takeKey? cs = some (key, rest)) :
    Unassigning (String.ofList key) := by
  unfold takeKey? at taken
  split at taken
  · cases taken
  · cases taken
    refine unassigning_of_all (p := isKeyChar) (by decide) ?_
    rw [String.toList_ofList]
    exact fun c member => List.mem_takeWhile_imp member

theorem takeField?_keyed {cs rest : List Char} {m : FieldMarker} {key : String}
    (taken : takeField? cs = some (m, rest)) (given : m.key = some key) : Unassigning key := by
  simp only [takeField?, Option.bind_eq_bind, Option.bind_eq_some_iff, Option.pure_def] at taken
  obtain ⟨_, -, kind, -, ⟨found, behind⟩, keyed, ⟨attributes, _⟩, -, same⟩ := taken
  cases same
  obtain rfl : found = some key := given
  unfold takeFieldKey? at keyed
  split at keyed
  · obtain ⟨⟨chars, _⟩, taken, same⟩ := Option.map_eq_some_iff.1 keyed
    cases same
    exact takeKey?_keyed taken
  · cases keyed

theorem takeMarker?_keyed {cs rest : List Char} {marker : InlineMarker}
    (taken : takeMarker? cs = some (marker, rest)) : marker.Keyed := by
  intro m key isField given
  subst isField
  unfold takeMarker? at taken
  split at taken
  · obtain ⟨_, -, same⟩ := Option.map_eq_some_iff.1 taken
    cases same
  · obtain ⟨_, -, same⟩ := Option.map_eq_some_iff.1 taken
    cases same
  · obtain ⟨⟨found, _⟩, field, same⟩ := Option.map_eq_some_iff.1 taken
    cases same
    exact takeField?_keyed field given

theorem pushChar_keyed {c : Char} {markers : List InlineMarker}
    (keyed : ∀ marker ∈ markers, marker.Keyed) : ∀ marker ∈ pushChar c markers, marker.Keyed := by
  have text (cs : List Char) : (InlineMarker.text cs).Keyed := fun _ _ same => by cases same
  unfold pushChar
  split
  · next cs more =>
    exact List.forall_mem_cons.2 ⟨text _, (List.forall_mem_cons.1 keyed).2⟩
  · exact List.forall_mem_cons.2 ⟨text _, keyed⟩

theorem takeInlines_keyed (label : Bool) (cs : List Char) :
    ∀ marker ∈ (takeInlines label cs).1, marker.Keyed := by
  have steps (pending : Nat) : ∀ marker ∈ (takeInlines.go label pending cs).1, marker.Keyed := by
    fun_induction takeInlines.go label pending cs with
    | case1 => simp
    | case2 pending c cs ih => exact ih
    | case3 c cs opens marker rest taken further ih =>
      exact List.forall_mem_cons.2 ⟨takeMarker?_keyed taken, ih⟩
    | case4 c cs opens taken further ih => exact pushChar_keyed ih
    | case5 => simp
    | case6 c cs _ _ further ih => exact pushChar_keyed ih
  exact steps 0

theorem readLine_keyed (cs : List Char) : (readLine cs).Keyed := by
  unfold readLine
  split
  · next line taken =>
    simp only [takeChoiceLine?, Option.bind_eq_bind, Option.bind_eq_some_iff, Option.pure_def] at taken
    obtain ⟨⟨kind, value, rest⟩, marker, skips, -, same⟩ := taken
    cases same
    refine ⟨?_, takeInlines_keyed true _⟩
    simp only [takeChoiceMarker?, Option.bind_eq_bind, Option.bind_eq_some_iff] at marker
    obtain ⟨_, -, _, -, taken⟩ := marker
    split at taken
    · cases taken
    · cases taken
      refine unassigning_of_all (p := isValueChar) (by decide) ?_
      rw [String.toList_ofList]
      exact fun c member => List.mem_takeWhile_imp member
  · exact takeInlines_keyed false cs

/-! ### Keys that are given out -/

theorem toString_unassigning (n : Nat) : Unassigning (toString n) :=
  unassigning_of_all (by decide) (isDigit_toString n)

theorem fieldKey_keyed {option : Option String} {m : FieldMarker} (counts : KeyCounts)
    (own : ∀ key, m.key = some key → Unassigning key)
    (value : ∀ v, option = some v → Unassigning v) : Unassigning (fieldKey option m counts).1 := by
  have keyword : ∀ kind : FieldKind, Unassigning kind.keyword := by
    unfold Unassigning
    intro kind
    cases kind <;> decide
  unfold fieldKey
  split
  · next key given => exact own key given
  · next v _ _ =>
    have stem : Unassigning "other_" := by
      unfold Unassigning
      decide
    exact stem.append (value v rfl)
  · next kind _ _ =>
    unfold nextKey
    dsimp only
    split
    · exact keyword _
    · exact (keyword _).append (toString_unassigning _)

theorem assignInlines_keyed {option : Option String} {markers : List InlineMarker}
    (keyed : ∀ marker ∈ markers, marker.Keyed) (value : ∀ v, option = some v → Unassigning v)
    (counts : KeyCounts) :
    ∀ key ∈ inlineKeys (assignInlines option counts markers).1, Unassigning key := by
  induction markers generalizing counts with
  | nil => simp [assignInlines, inlineKeys]
  | cons marker more ih =>
    obtain ⟨first, others⟩ := List.forall_mem_cons.1 keyed
    cases marker with
    | text | computed | context => exact ih others counts
    | field m =>
      have own : Unassigning (fieldKey option m counts).1 :=
        fieldKey_keyed counts (fun key given => first m key rfl given) value
      refine List.forall_mem_cons.2 ⟨own, ih others _⟩

theorem trimFirst_fields (parts : List Inline) :
    (trimFirst parts).filterMap Inline.field? = parts.filterMap Inline.field? := by
  unfold trimFirst
  split <;> rfl

theorem trimLast_fields (parts : List Inline) :
    (trimLast parts).filterMap Inline.field? = parts.filterMap Inline.field? := by
  fun_induction trimLast parts with
  | case1 => rfl
  | case2 => rfl
  | case3 part more _ ih => rw [List.filterMap_cons, List.filterMap_cons, ih]

/-- Trimming takes away no fields. -/
theorem trimInlines_keys (parts : List Inline) : inlineKeys (trimInlines parts) = inlineKeys parts := by
  have filtered (parts : List Inline) :
      (parts.filter (· != .text "")).filterMap Inline.field? = parts.filterMap Inline.field? := by
    induction parts with
    | nil => rfl
    | cons part more ih =>
      by_cases empty : part = .text ""
      · subst empty
        rw [List.filter_cons_of_neg (by simp), ih]
        rfl
      · simp [empty, List.filterMap_cons, ih]
  rw [inlineKeys, trimInlines, filtered, trimLast_fields, trimFirst_fields, inlineKeys]

theorem assignLines_keyed {lines : List LineMarker} (keyed : ∀ line ∈ lines, line.Keyed)
    (counts : KeyCounts) : ∀ line ∈ assignLines counts lines, line.Keyed := by
  induction lines generalizing counts with
  | nil => simp [assignLines]
  | cons line more ih =>
    obtain ⟨first, others⟩ := List.forall_mem_cons.1 keyed
    cases line with
    | text markers =>
      have unnamed : ∀ v, (none : Option String) = some v → Unassigning v := fun v same => by cases same
      have keys := assignInlines_keyed first unnamed counts
      rw [← trimInlines_keys] at keys
      simp only [assignLines]
      split
      · exact ih others _
      · refine List.forall_mem_cons.2 ⟨⟨keys, fun c same => by cases same⟩, ih others _⟩
    | choice kind value label skips =>
      obtain ⟨valueFree, label⟩ := first
      have named : ∀ v, some value = some v → Unassigning v := by
        rintro v same
        cases same
        exact valueFree
      have keys := assignInlines_keyed label named counts
      rw [← trimInlines_keys] at keys
      refine List.forall_mem_cons.2 ⟨⟨keys, ?_⟩, ih others _⟩
      rintro c same
      cases same
      exact valueFree

theorem readBody_keyed (content : String) : ∀ line ∈ readBody content, line.Keyed := by
  refine assignLines_keyed (fun line member => ?_) _
  obtain ⟨cs, -, rfl⟩ := List.mem_map.1 member
  exact readLine_keyed cs

end Definition

end Questionnaire
