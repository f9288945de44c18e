import Questionnaire.Proofs.Survey.Controls
import Questionnaire.Survey.Rendering

/-! What a control is counted under. The quoted value of an attribute is searched for in the text
of the tag, and so in the values of other attributes too; but a value only lets the search
through if it holds a sign of equality, and then what is found begins with a blank. -/
namespace Questionnaire.FieldCount

open Text Markup

variable {strip : List Char → Option (List Char)} {b : Option Char} {v rest u : List Char}

/-- A search that passes over no quotes. -/
def Seeks (strip : List Char → Option (List Char)) : Prop :=
  ∀ cs r, strip cs = some r → ∃ w, cs = w ++ r ∧ '"' ∉ w

theorem seeks_leading {literal : List Char} (plain : '"' ∉ literal) :
    Seeks (stripLeading? literal) :=
  fun _ _ stripped => ⟨literal, stripLeading?_eq_some_iff.1 stripped, plain⟩

theorem seeks_name {name : List Char} (small : ∀ c ∈ name, c.isLower = true) :
    Seeks (stripName? name) := by
  induction name with
  | nil =>
    intro cs r stripped
    cases stripped
    exact ⟨[], rfl, List.not_mem_nil⟩
  | cons s name ih =>
    obtain ⟨lower, small⟩ := List.forall_mem_cons.1 small
    intro cs r stripped
    cases cs with
    | nil => cases stripped
    | cons c cs =>
      rw [stripName?] at stripped
      split at stripped
      · next same =>
        obtain ⟨w, rfl, free⟩ := ih small cs r stripped
        refine ⟨c :: w, rfl, ?_⟩
        rw [List.mem_cons, not_or]
        refine ⟨?_, free⟩
        rintro rfl
        have quote : s ≠ '"' := by
          rintro rfl
          revert lower
          decide
        simp only [sameLetter, Bool.or_eq_true, Bool.and_eq_true, beq_iff_eq] at same
        rcases same with same | ⟨-, same⟩
        · exact quote same.symm
        · revert same
          decide
      · cases stripped

theorem takeQuoted?_eq_some {cs : List Char} (taken : takeQuoted? cs = some u) :
    ∃ more, cs = '=' :: '"' :: u ++ '"' :: more := by
  simp only [takeQuoted?, Option.bind_eq_bind, Option.bind_eq_some_iff, Option.pure_def] at taken
  obtain ⟨inner, stripped, ⟨value, more⟩, cut, same⟩ := taken
  cases same
  obtain ⟨c, quote, rfl, -⟩ := cutAtChars?_eq_some cut
  obtain rfl : c = '"' := by simpa using quote
  refine ⟨more, ?_⟩
  rw [stripLeading?_eq_some_iff.1 stripped]
  rfl

theorem cutAtQuote (plain : '"' ∉ v) (rest : List Char) :
    cutAtChars? (· == '"') (v ++ '"' :: rest) = some (v, rest) := by
  refine cutAtChars?_append (fun c member => ?_) rfl rest
  refine beq_eq_false_iff_ne.2 ?_
  rintro rfl
  exact plain member

theorem takeQuoted?_value (plain : '"' ∉ v) : takeQuoted? ('=' :: '"' :: v ++ '"' :: rest) = some v := by
  simp [takeQuoted?, stripLeading?, cutAtQuote plain rest]

/-- A search that begins in a value finds something behind it, and only if the value ends with a
sign of equality. -/
theorem hit_value (seeks : Seeks strip) (plain : '"' ∉ v)
    (hit : (strip (v ++ '"' :: rest)).bind takeQuoted? = some u) :
    '=' ∈ v ∧ ∃ more, rest = u ++ '"' :: more := by
  obtain ⟨r, stripped, taken⟩ := Option.bind_eq_some_iff.1 hit
  obtain ⟨w, split, free⟩ := seeks _ r stripped
  obtain ⟨more, rfl⟩ := takeQuoted?_eq_some taken
  have ends : '"' ∉ w ++ ['='] := by
    rw [List.mem_append, not_or]
    exact ⟨free, by decide⟩
  -- Both sides are cut at their first quote.
  have left := cutAtQuote plain rest
  have right := cutAtQuote ends (u ++ '"' :: more)
  have same : v ++ '"' :: rest = w ++ ['='] ++ '"' :: (u ++ '"' :: more) := by
    rw [split]
    simp
  rw [same, right] at left
  cases left
  exact ⟨List.mem_append_right _ (List.mem_singleton_self _), more, rfl⟩

theorem attribute?_cons (strip : List Char → Option (List Char)) (b : Option Char) (c : Char)
    (cs : List Char) : attribute? strip b (c :: cs) =
      (if b.any isWord then none else (strip (c :: cs)).bind takeQuoted?).or
        (attribute? strip (some c) cs) := by
  rw [attribute?]
  split
  · next found => simp [found]
  · next none => simp [none]

theorem attribute?_skip {c : Char} {cs : List Char} (miss : strip (c :: cs) = none) :
    attribute? strip b (c :: cs) = attribute? strip (some c) cs := by
  rw [attribute?_cons, miss, Option.bind_none, ite_self, Option.none_or]

theorem attribute?_found {cs : List Char} (begins : b.any isWord = false)
    (hit : (strip cs).bind takeQuoted? = some u) (filled : cs ≠ []) :
    attribute? strip b cs = some u := by
  cases cs with
  | nil => contradiction
  | cons c cs => rw [attribute?_cons, begins, hit]; rfl

/-- The search leaves a value behind it, or finds something that begins where the value ends. -/
theorem attribute?_value (seeks : Seeks strip) (plain : '"' ∉ v) :
    attribute? strip b (v ++ '"' :: rest) = attribute? strip (some '"') rest ∨
      '=' ∈ v ∧ ∃ u more, attribute? strip b (v ++ '"' :: rest) = some u ∧ rest = u ++ '"' :: more := by
  induction v generalizing b with
  | nil =>
    refine .inl ?_
    have miss : (strip ('"' :: rest)).bind takeQuoted? = none := by
      cases hit : (strip ('"' :: rest)).bind takeQuoted? with
      | none => rfl
      | some u => cases (hit_value (v := []) seeks plain hit).1
    rw [List.nil_append, attribute?_cons, miss, ite_self, Option.none_or]
  | cons c v ih =>
    have later := ih (b := some c) fun member => plain (List.mem_cons_of_mem c member)
    rw [List.cons_append, attribute?_cons]
    cases hit : (strip (c :: (v ++ '"' :: rest))).bind takeQuoted? with
    | none =>
      rw [ite_self, Option.none_or]
      exact later.imp id fun ⟨equals, found⟩ => ⟨List.mem_cons_of_mem c equals, found⟩
    | some u =>
      split
      · rw [Option.none_or]
        exact later.imp id fun ⟨equals, found⟩ => ⟨List.mem_cons_of_mem c equals, found⟩
      · obtain ⟨equals, more, behind⟩ := hit_value (v := c :: v) seeks plain hit
        exact .inr ⟨equals, u, more, rfl, behind⟩

/-! ### Names -/

def nameWord : List Char := ['n', 'a', 'm', 'e']

/-- The attributes that stand in front of the name of a control. -/
structure Leads (a : Attribute) : Prop where
  name : a.name ∈ ["type", "class", "id"]
  value : ∃ v, a.value = some v ∧ '=' ∉ v.toList

theorem attribute?_leads {a : Attribute} (leads : Leads a) (rest : List Char) :
    attribute? (stripLeading? nameWord) b (a.chars ++ rest) =
      attribute? (stripLeading? nameWord) (some '"') rest := by
  obtain ⟨v, given, plain⟩ := leads.value
  have seeks : Seeks (stripLeading? nameWord) := seeks_leading (by decide)
  have passed : attribute? (stripLeading? nameWord) (some '"') (escaped v ++ '"' :: rest) =
      attribute? (stripLeading? nameWord) (some '"') rest := by
    rcases attribute?_value (b := some '"') seeks (quote_not_mem_escaped v) with passed | ⟨equals, -⟩
    · exact passed
    · exact absurd equals (equals_not_mem_escaped plain)
  obtain ⟨name, value⟩ := a
  cases given
  have named := leads.name
  simp only [List.mem_cons, List.not_mem_nil, or_false] at named
  rcases named with rfl | rfl | rfl <;>
    simp [Attribute.chars, nameWord, attribute?_skip, stripLeading?] <;> exact passed

/-- The name of a control is found behind the attributes that lead to it. -/
theorem attribute?_name {leading : List Attribute} (leads : ∀ a ∈ leading, Leads a) (name : String)
    (more : List Attribute) :
    attribute? (stripLeading? nameWord) b ((leading ++ .of "name" name :: more).flatMap Attribute.chars) =
      some (escaped name) := by
  induction leading generalizing b with
  | nil =>
    have hit : (stripLeading? nameWord (nameWord ++ ('=' :: '"' :: escaped name ++ '"' ::
        more.flatMap Attribute.chars))).bind takeQuoted? = some (escaped name) := by
      rw [stripLeading?_eq_some_iff.2 rfl]
      exact takeQuoted?_value (quote_not_mem_escaped name)
    have written : ([] ++ Attribute.of "name" name :: more).flatMap Attribute.chars =
        ' ' :: (nameWord ++ ('=' :: '"' :: escaped name ++ '"' :: more.flatMap Attribute.chars)) := by
      simp [Attribute.chars, Attribute.of, nameWord]
    rw [written, attribute?_skip (by simp [nameWord, stripLeading?])]
    exact attribute?_found (by decide) hit (by simp [nameWord])
  | cons a leading ih =>
    obtain ⟨first, leads⟩ := List.forall_mem_cons.1 leads
    rw [List.cons_append, List.flatMap_cons, attribute?_leads first, ih leads]

/-! ### Types -/

theorem controlType?_of (type : String) (more : List Attribute) :
    controlType? ((.of "type" type :: more).flatMap Attribute.chars) =
      some (String.ofList ((escaped type).map Char.toLower)) := by
  have hit : (stripName? typeName (typeName ++ ('=' :: '"' :: escaped type ++ '"' ::
      more.flatMap Attribute.chars))).bind takeQuoted? = some (escaped type) := by
    have stripped (rest : List Char) : stripName? typeName (typeName ++ rest) = some rest := by
      simp [typeName, stripName?, sameLetter]
    rw [stripped]
    exact takeQuoted?_value (quote_not_mem_escaped type)
  have written : (Attribute.of "type" type :: more).flatMap Attribute.chars =
      ' ' :: (typeName ++ ('=' :: '"' :: escaped type ++ '"' :: more.flatMap Attribute.chars)) := by
    simp [Attribute.chars, Attribute.of, typeName]
  rw [controlType?, written, attribute?_skip (by simp [typeName, stripName?, sameLetter]),
    attribute?_found (by decide) hit (by simp [typeName]), Option.map_some]

def untypedNames : List String :=
  ["id", "name", "data-min-expr", "data-max-expr", "data-displayif", "data-xor", "disabled"]

/-- Among attributes that name no type, nothing that is found for one begins like a type. -/
theorem attribute?_untyped {attributes : List Attribute}
    (untyped : ∀ a ∈ attributes, a.name ∈ untypedNames)
    (found : attribute? (stripName? typeName) b (attributes.flatMap Attribute.chars) = some u) :
    u.head? = some ' ' := by
  have seeks : Seeks (stripName? typeName) := 
    seeks_name (List.all_eq_true.1 (by decide))
  induction attributes generalizing b with
  | nil => cases found
  | cons a attributes ih =>
    obtain ⟨name, value⟩ := a
    obtain ⟨named, others⟩ := List.forall_mem_cons.1 untyped
    have passed (rest : List Char) : ∃ last, attribute? (stripName? typeName) b
        (' ' :: name.toList ++ rest) = attribute? (stripName? typeName) last rest := by
      simp only [untypedNames, List.mem_cons, List.not_mem_nil, or_false] at named
      rcases named with rfl | rfl | rfl | rfl | rfl | rfl | rfl <;>
        exact ⟨_, by simp [typeName, attribute?_skip, stripName?, sameLetter]; rfl⟩
    cases value with
    | none =>
      obtain ⟨last, passed⟩ := passed (attributes.flatMap Attribute.chars)
      have written : ((⟨name, none⟩ :: attributes : List Attribute).flatMap Attribute.chars) =
          ' ' :: name.toList ++ attributes.flatMap Attribute.chars := by
        simp [Attribute.chars]
      rw [written, passed] at found
      exact ih others found
    | some v =>
      obtain ⟨last, passed⟩ := passed
        ('=' :: '"' :: (escaped v ++ '"' :: attributes.flatMap Attribute.chars))
      have written : ((⟨name, some v⟩ :: attributes : List Attribute).flatMap Attribute.chars) =
          ' ' :: name.toList ++
            '=' :: '"' :: (escaped v ++ '"' :: attributes.flatMap Attribute.chars) := by
        simp [Attribute.chars]
      rw [written, passed, attribute?_skip (by simp [typeName, stripName?, sameLetter]),
        attribute?_skip (by simp [typeName, stripName?, sameLetter])] at found
      rcases attribute?_value (b := some '"') seeks (quote_not_mem_escaped v) with
        same | ⟨-, w, more, same, behind⟩
      · rw [same] at found
        exact ih others found
      · -- What is found begins where the next attribute does.
        rw [same] at found
        cases found
        cases attributes with
        | nil => simp at behind
        | cons next attributes =>
          cases u with
          | nil => cases behind
          | cons c u =>
            rw [List.cons_append] at behind
            exact congrArg some (List.cons.inj behind).1.symm

/-! ### Keys -/

theorem controlKey?_of_type {attributes : List Attribute} {name : String}
    (answered : (controlType? (attributes.flatMap Attribute.chars)).any unansweredTypes.contains = false)
    (named : attribute? (stripLeading? nameWord) none (attributes.flatMap Attribute.chars) =
      some (escaped name)) :
    controlKey? (attributes.flatMap Attribute.chars) = some (escape name) := by
  rw [controlKey?, if_neg (by rw [answered]; exact Bool.false_ne_true)]
  change Option.map _ ((attribute? (stripLeading? nameWord) none _).or _) = _
  rw [named]
  rfl

/-- A control that begins with a type is counted under its name. -/
theorem controlKey?_typed {type name : String} {leading more : List Attribute}
    (answered : String.ofList ((escaped type).map Char.toLower) ∉ unansweredTypes)
    (leads : ∀ a ∈ leading, Leads a) (plain : '=' ∉ type.toList) :
    controlKey? ((.of "type" type :: leading ++ .of "name" name :: more).flatMap Attribute.chars) =
      some (escape name) := by
  have first : Leads (.of "type" type) := ⟨List.mem_cons_self, type, rfl, plain⟩
  apply controlKey?_of_type
  · rw [List.cons_append, controlType?_of, Option.any_some]
    simpa using answered
  · have all : ∀ a ∈ .of "type" type :: leading, Leads a := List.forall_mem_cons.2 ⟨first, leads⟩
    exact attribute?_name all name more

/-- A control without a type is counted under its name as well, whatever its other values say. -/
theorem controlKey?_untyped {name : String} {leading more : List Attribute}
    (untyped : ∀ a ∈ leading ++ .of "name" name :: more, a.name ∈ untypedNames)
    (leads : ∀ a ∈ leading, Leads a) :
    controlKey? ((leading ++ .of "name" name :: more).flatMap Attribute.chars) =
      some (escape name) := by
  apply controlKey?_of_type
  · cases found : attribute? (stripName? typeName) none
      ((leading ++ .of "name" name :: more).flatMap Attribute.chars) with
    | none => rw [controlType?, found]; rfl
    | some u =>
      have blank := attribute?_untyped untyped found
      rw [controlType?, found, Option.map_some, Option.any_some]
      refine Bool.eq_false_iff.2 fun listed => ?_
      cases u with
      | nil => cases blank
      | cons c u =>
        obtain rfl : c = ' ' := Option.some.inj blank
        have begins : ∀ type ∈ unansweredTypes, type.toList.head? ≠ some ' ' := by decide
        refine begins _ (List.contains_iff_mem.1 listed) ?_
        rw [String.toList_ofList]
        rfl
  · exact attribute?_name leads name more

end Questionnaire.FieldCount
