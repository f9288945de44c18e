import Questionnaire.Proofs.Survey.MarkupText
import Questionnaire.Proofs.Text.Cut
import Questionnaire.Proofs.Text.Words
import Questionnaire.Survey.FieldCount

/-! Form controls of written markup. Whatever texts and values hold, reading the tags out of the
text gives the controls of the tree back, each with its own attributes. -/
namespace Questionnaire

namespace Markup

/-- The name of an attribute is written as it is. -/
def Named (a : Attribute) : Prop := ∀ c ∈ a.name.toList, ¬IsReserved c

/-- A tag of small letters with attributes whose names can be written. -/
structure IsStart (tag : String) (attributes : List Attribute) : Prop where
  letters : ∀ c ∈ tag.toList, c.isLower = true
  named : ∀ a ∈ attributes, Named a

mutual

def Plain : Markup → Prop
  | text _ => True
  | void tag attributes => IsStart tag attributes
  | element tag attributes children => IsStart tag attributes ∧ PlainAll children

def PlainAll : List Markup → Prop
  | [] => True
  | node :: nodes => Plain node ∧ PlainAll nodes

end

/-- The attributes of a tag if it is that of a control. -/
def controlOf (tag : String) (attributes : List Attribute) : List (List Attribute) :=
  if tag.toList ∈ FieldCount.controlNames then [attributes] else []

mutual

/-- The controls of a tree in their order, by their attributes. -/
def controls : Markup → List (List Attribute)
  | text _ => []
  | void tag attributes => controlOf tag attributes
  | element tag attributes children => controlOf tag attributes ++ controlsAll children

def controlsAll : List Markup → List (List Attribute)
  | [] => []
  | node :: nodes => controls node ++ controlsAll nodes

end

theorem attributes_free {attributes : List Attribute} (named : ∀ a ∈ attributes, Named a) {c : Char}
    (member : c ∈ attributes.flatMap Attribute.chars) : c ≠ '<' ∧ c ≠ '>' := by
  obtain ⟨a, among, written⟩ := List.mem_flatMap.1 member
  have apart {x : Char} (free : ¬IsReserved x) : x ≠ '<' ∧ x ≠ '>' :=
    ⟨fun same => free (.inl same), fun same => free (.inr (.inl same))⟩
  unfold Attribute.chars at written
  rw [List.cons_append, List.mem_cons, List.mem_append] at written
  rcases written with rfl | name | value
  · decide
  · exact apart (named a among c name)
  · cases given : a.value with
    | none => simp [given] at value
    | some v =>
      simp only [given, Option.elim_some, List.mem_cons, List.mem_append, List.not_mem_nil,
        or_false] at value
      rcases value with (rfl | rfl | inside) | rfl
      · decide
      · decide
      · exact apart (escaped_free inside)
      · decide

end Markup

namespace FieldCount

open Text Markup

theorem controls_append {cs : List Char} (free : '<' ∉ cs) (rest : List Char) :
    controls (cs ++ rest) = controls rest := by
  induction cs with
  | nil => rfl
  | cons c cs ih =>
    rw [List.mem_cons, not_or] at free
    rw [List.cons_append, controls, if_neg (by simpa using Ne.symm free.1), ih free.2]

theorem sameLetter_of_isLower {small c : Char} (lower : c.isLower = true) :
    sameLetter small c = (c == small) := by
  delta Char.isLower at lower
  simp only [Bool.and_eq_true, decide_eq_true_eq, UInt32.le_iff_toNat_le, ge_iff_le] at lower
  obtain ⟨least, most⟩ := lower
  change 97 ≤ c.val.toNat at least
  change c.val.toNat ≤ 122 at most
  have still : c.toLower = c := by
    unfold Char.toLower
    rw [dif_neg]
    rintro ⟨-, upper⟩
    rw [UInt32.le_iff_toNat_le] at upper
    change c.val.toNat ≤ 90 at upper
    omega
  have short : (c == 'ſ') = false := by
    refine beq_eq_false_iff_ne.2 ?_
    rintro rfl
    revert most
    decide
  rw [sameLetter, still, short, Bool.and_false, Bool.or_false]

theorem sameLetter_end {small x : Char} (lower : small.isLower = true) (ends : x = ' ' ∨ x = '>') :
    sameLetter small x = false := by
  have apart : x.toLower ≠ small := by
    rintro rfl
    rcases ends with rfl | rfl <;> revert lower <;> decide
  rcases ends with rfl | rfl <;> simpa [sameLetter] using apart

/-- A name stands in a tag only as the whole of it. -/
theorem stripName?_tag {name tag : List Char} (small : ∀ c ∈ name, c.isLower = true)
    (letters : ∀ c ∈ tag, c.isLower = true) {x : Char} (ends : x = ' ' ∨ x = '>')
    (rest : List Char) : (stripName? name (tag ++ x :: rest)).filter atWordEnd =
      if tag = name then some (x :: rest) else none := by
  induction name generalizing tag with
  | nil =>
    cases tag with
    | nil => rcases ends with rfl | rfl <;> rfl
    | cons c tag =>
      have letter : c.isAlpha = true := by
        delta Char.isAlpha
        rw [letters c List.mem_cons_self, Bool.or_true]
      have word : isWord c = true :=
        isWord_of_ascii (by simp [isAsciiWord, Char.isAlphanum, letter])
      simp [stripName?, atWordEnd, word]
  | cons s name ih =>
    obtain ⟨lower, small⟩ := List.forall_mem_cons.1 small
    cases tag with
    | nil => simp [stripName?, sameLetter_end lower ends]
    | cons c tag =>
      obtain ⟨letter, letters⟩ := List.forall_mem_cons.1 letters
      rw [List.cons_append, stripName?, sameLetter_of_isLower letter]
      by_cases same : c = s
      · simp [same, ih small letters]
      · simp [same]

/-- The tag of a control is read with all its attributes, and no other tag is. -/
theorem takeControl?_start {tag : String} {attributes : List Attribute}
    (start : IsStart tag attributes) (rest : List Char) :
    takeControl? (tag.toList ++ attributes.flatMap Attribute.chars ++ '>' :: rest) =
      if tag.toList ∈ controlNames then some (attributes.flatMap Attribute.chars, rest)
      else none := by
  obtain ⟨x, more, ends, begins⟩ : ∃ x more, (x = ' ' ∨ x = '>') ∧
      attributes.flatMap Attribute.chars ++ '>' :: rest = x :: more := by
    cases attributes with
    | nil => exact ⟨'>', rest, .inr rfl, rfl⟩
    | cons a attributes => exact ⟨' ', _, .inl rfl, rfl⟩
  have cut : cutAtChars? (· == '>') (attributes.flatMap Attribute.chars ++ '>' :: rest) =
      some (attributes.flatMap Attribute.chars, rest) := by
    refine cutAtChars?_append (fun c member => ?_) rfl rest
    exact beq_eq_false_iff_ne.2 (attributes_free start.named member).2
  have each : ∀ name ∈ controlNames, (do
      let rest ← (stripName? name (tag.toList ++ attributes.flatMap Attribute.chars ++
        '>' :: rest)).filter atWordEnd
      cutAtChars? (· == '>') rest) =
        if tag.toList = name then some (attributes.flatMap Attribute.chars, rest) else none := by
    intro name member
    have small : ∀ c ∈ name, c.isLower = true := by
      have lower : ∀ name ∈ controlNames, name.all Char.isLower = true := by decide
      exact List.all_eq_true.1 (lower name member)
    rw [List.append_assoc, begins, stripName?_tag small start.letters ends, ← begins]
    split
    · exact cut
    · rfl
  unfold takeControl?
  simp only [controlNames, List.forall_mem_cons] at each
  obtain ⟨input, textarea, select, -⟩ := each
  simp only [controlNames, List.findSome?_cons, List.findSome?_nil, input, textarea, select,
    List.mem_cons, List.not_mem_nil, or_false]
  by_cases first : tag.toList = ['i', 'n', 'p', 'u', 't']
  · simp [first]
  · by_cases second : tag.toList = ['t', 'e', 'x', 't', 'a', 'r', 'e', 'a']
    · simp [second]
    · by_cases third : tag.toList = ['s', 'e', 'l', 'e', 'c', 't'] <;> simp [first, second, third]

theorem takeControl?_end (rest : List Char) : takeControl? ('/' :: rest) = none := by
  simp [takeControl?, controlNames, stripName?, sameLetter]

theorem controls_start {tag : String} {attributes : List Attribute}
    (start : IsStart tag attributes) (rest : List Char) :
    controls (startChars tag attributes ++ rest) =
      (controlOf tag attributes).map (·.flatMap Attribute.chars) ++ controls rest := by
  have taken := takeControl?_start start rest
  have shape : startChars tag attributes ++ rest =
      '<' :: (tag.toList ++ attributes.flatMap Attribute.chars ++ '>' :: rest) := by
    simp [startChars]
  have letter : ∀ c ∈ tag.toList, c ≠ '<' := by
    rintro c member rfl
    have lower := start.letters _ member
    revert lower
    decide
  rw [shape, controls, if_pos (by rfl)]
  unfold controlOf
  split
  · next further found =>
    rw [taken] at found
    split at found
    · next named =>
      cases found
      rw [if_pos named]
      rfl
    · cases found
  · next found =>
    rw [taken] at found
    split at found
    · cases found
    · next plain =>
      rw [if_neg plain]
      have free : '<' ∉ tag.toList ++ attributes.flatMap Attribute.chars ++ ['>'] := by
        intro member
        rw [List.mem_append, List.mem_append] at member
        rcases member with (tag | written) | last
        · exact letter _ tag rfl
        · exact (attributes_free start.named written).1 rfl
        · exact absurd last (by decide)
      have passed := controls_append free rest
      rw [List.append_assoc] at passed
      exact passed

theorem controls_finish {tag : String} (letters : ∀ c ∈ tag.toList, c.isLower = true)
    (rest : List Char) : controls ('<' :: '/' :: tag.toList ++ ['>'] ++ rest) = controls rest := by
  have free : '<' ∉ '/' :: tag.toList ++ ['>'] := by
    intro member
    rw [List.mem_append, List.mem_cons] at member
    rcases member with (slash | tag) | last
    · cases slash
    · have lower := letters _ tag
      revert lower
      decide
    · exact absurd last (by decide)
  have passed := controls_append free rest
  rw [List.cons_append, List.cons_append, List.cons_append, List.cons_append, controls,
    if_pos (by rfl)]
  split
  · next found =>
    rw [takeControl?_end] at found
    cases found
  · exact passed

mutual

theorem controls_chars : (m : Markup) → Plain m → (rest : List Char) →
    controls (m.chars ++ rest) = m.controls.map (·.flatMap Attribute.chars) ++ controls rest
  | .text s, _, rest => controls_append (fun member => escaped_free member (.inl rfl)) rest
  | .void tag attributes, start, rest => controls_start start rest
  | .element tag attributes children, ⟨start, plain⟩, rest => by
    have parts : Markup.chars (.element tag attributes children) ++ rest =
        startChars tag attributes ++ (charsAll children ++
          ('<' :: '/' :: tag.toList ++ ['>'] ++ rest)) := by
      simp [Markup.chars]
    rw [parts, Markup.controls, controls_start start, controls_charsAll children plain,
      controls_finish start.letters, List.map_append, List.append_assoc]

theorem controls_charsAll : (nodes : List Markup) → PlainAll nodes → (rest : List Char) →
    controls (charsAll nodes ++ rest) =
      (controlsAll nodes).map (·.flatMap Attribute.chars) ++ controls rest
  | [], _, rest => rfl
  | node :: nodes, ⟨first, later⟩, rest => by
    rw [charsAll, controlsAll, List.append_assoc, controls_chars node first,
      controls_charsAll nodes later, List.map_append, List.append_assoc]

end

/-- The controls that are read out of written markup are those of the tree. -/
theorem controls_render {nodes : List Markup} (plain : PlainAll nodes) :
    controls (render nodes).toList = (controlsAll nodes).map (·.flatMap Attribute.chars) := by
  have read := controls_charsAll nodes plain []
  rwa [List.append_nil, controls, List.append_nil, ← render_toList] at read

end FieldCount

end Questionnaire
