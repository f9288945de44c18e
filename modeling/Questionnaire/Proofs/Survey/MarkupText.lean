import Questionnaire.Survey.Markup

/-! The characters of written markup. Texts and values hold none of the characters that tags are
made of, and different values are written differently. -/
namespace Questionnaire

namespace Markup
variable {s t : String}

def escaped (s : String) : List Char := s.toList.flatMap escapeChar

theorem escape_toList (s : String) : (escape s).toList = escaped s := String.toList_ofList

/-- The characters that have a meaning in a tag. -/
def IsReserved (c : Char) : Prop := c = '<' ∨ c = '>' ∨ c = '"'

theorem escapeChar_cases (c : Char) :
    (escapeChar c = [c] ∧ c ≠ '&' ∧ ¬IsReserved c) ∨
      ∃ name, escapeChar c = '&' :: name ∧ ∀ x ∈ name, ¬IsReserved x ∧ x ≠ '=' := by
  unfold escapeChar IsReserved
  split
  · exact .inr ⟨_, rfl, by simp⟩
  · exact .inr ⟨_, rfl, by simp⟩
  · exact .inr ⟨_, rfl, by simp⟩
  · exact .inr ⟨_, rfl, by simp⟩
  · exact .inr ⟨_, rfl, by simp⟩
  · next amp lt gt quote _ => exact .inl ⟨rfl, amp, fun reserved => reserved.elim lt (·.elim gt quote)⟩

theorem escaped_free {x : Char} (member : x ∈ escaped s) : ¬IsReserved x := by
  obtain ⟨c, -, written⟩ := List.mem_flatMap.1 member
  rcases escapeChar_cases c with ⟨plain, -, free⟩ | ⟨name, entity, free⟩
  · rw [plain, List.mem_singleton] at written
    exact written ▸ free
  · rw [entity, List.mem_cons] at written
    rcases written with rfl | inside
    · unfold IsReserved
      decide
    · exact (free x inside).1

theorem quote_not_mem_escaped (s : String) : '"' ∉ escaped s :=
  fun member => escaped_free member (.inr (.inr rfl))

theorem equals_not_mem_escaped (plain : '=' ∉ s.toList) : '=' ∉ escaped s := by
  intro member
  obtain ⟨c, inside, written⟩ := List.mem_flatMap.1 member
  rcases escapeChar_cases c with ⟨same, -⟩ | ⟨name, entity, free⟩
  · rw [same, List.mem_singleton] at written
    exact plain (written ▸ inside)
  · rw [entity, List.mem_cons] at written
    rcases written with other | within
    · cases other
    · exact (free _ within).2 rfl

/-! ### Entities -/

/-- What the characters with a meaning of their own are written as. -/
def entities : List String := ["&amp;", "&lt;", "&gt;", "&quot;", "&#39;"]

def unescapeChars : List Char → List Char
  | '&' :: 'a' :: 'm' :: 'p' :: ';' :: cs => '&' :: unescapeChars cs
  | '&' :: 'l' :: 't' :: ';' :: cs => '<' :: unescapeChars cs
  | '&' :: 'g' :: 't' :: ';' :: cs => '>' :: unescapeChars cs
  | '&' :: 'q' :: 'u' :: 'o' :: 't' :: ';' :: cs => '"' :: unescapeChars cs
  | '&' :: '#' :: '3' :: '9' :: ';' :: cs => '\'' :: unescapeChars cs
  | c :: cs => c :: unescapeChars cs
  | [] => []

/-- Every entity replaced by its character. -/
def unescape (s : String) : String := String.ofList (unescapeChars s.toList)

/-- A character is written as it is or as an entity, which has one ampersand. -/
theorem escapeChar_entity (c : Char) : (escapeChar c = [c] ∧ c ≠ '&' ∧ c ≠ '\'') ∨
    ∃ entity ∈ entities, ∃ name, entity.toList = '&' :: name ∧ escapeChar c = '&' :: name ∧
      '&' ∉ name ∧ '\'' ∉ name := by
  unfold escapeChar
  split
  · exact .inr ⟨"&amp;", by decide, _, rfl, rfl, by decide⟩
  · exact .inr ⟨"&lt;", by decide, _, rfl, rfl, by decide⟩
  · exact .inr ⟨"&gt;", by decide, _, rfl, rfl, by decide⟩
  · exact .inr ⟨"&quot;", by decide, _, rfl, rfl, by decide⟩
  · exact .inr ⟨"&#39;", by decide, _, rfl, rfl, by decide⟩
  · next amp _ _ _ apostrophe => exact .inl ⟨rfl, amp, apostrophe⟩

theorem apostrophe_not_mem_escaped (s : String) : '\'' ∉ escaped s := by
  intro member
  obtain ⟨c, -, written⟩ := List.mem_flatMap.1 member
  rcases escapeChar_entity c with ⟨plain, -, other⟩ | ⟨_, _, name, _, entity, -, free⟩
  · rw [plain, List.mem_singleton] at written
    exact other written.symm
  · rw [entity, List.mem_cons] at written
    rcases written with amp | inside
    · cases amp
    · exact free inside

/-- Every ampersand begins an entity. -/
theorem ampersand_begins_entity {cs before after : List Char}
    (split : cs.flatMap escapeChar = before ++ '&' :: after) :
    ∃ entity ∈ entities, entity.toList <+: '&' :: after := by
  induction cs generalizing before with
  | nil => simp at split
  | cons c cs ih =>
    rw [List.flatMap_cons] at split
    rcases escapeChar_entity c with ⟨plain, amp, -⟩ | ⟨entity, listed, name, written, same, free, -⟩
    · rw [plain, List.singleton_append] at split
      cases before with
      | nil => exact absurd (List.cons.inj split).1 amp
      | cons b before => exact ih (List.cons.inj split).2
    · rw [same, List.cons_append] at split
      cases before with
      | nil =>
        refine ⟨entity, listed, cs.flatMap escapeChar, ?_⟩
        rw [written]
        exact split
      | cons b before =>
        -- the name of the entity holds no ampersand, so this one stands behind it
        rcases List.append_eq_append_iff.1 (List.cons.inj split).2 with
          ⟨behind, -, rest⟩ | ⟨within, inside, rest⟩
        · exact ih rest
        · cases within with
          | nil =>
            rw [List.nil_append] at rest
            exact @ih [] rest.symm
          | cons x within =>
            obtain ⟨rfl, -⟩ := List.cons.inj rest
            exact absurd (inside ▸ List.mem_append_right _ List.mem_cons_self) free

theorem unescapeChars_escapeChar (c : Char) (cs : List Char) :
    unescapeChars (escapeChar c ++ cs) = c :: unescapeChars cs := by
  unfold escapeChar
  split
  · rfl
  · rfl
  · rfl
  · rfl
  · rfl
  · next amp _ _ _ _ =>
    rw [List.singleton_append]
    rw [unescapeChars]
    all_goals exact fun _ begins => absurd begins amp

theorem unescape_escape (s : String) : unescape (escape s) = s := by
  have chars (cs : List Char) : unescapeChars (cs.flatMap escapeChar) = cs := by
    induction cs with
    | nil => rfl
    | cons c cs ih => rw [List.flatMap_cons, unescapeChars_escapeChar, ih]
  rw [unescape, escape_toList, escaped, chars, String.ofList_toList]

theorem escape_append (s t : String) : escape (s ++ t) = escape s ++ escape t := by
  rw [escape, String.toList_append, List.flatMap_append, String.ofList_append]
  rfl

/-- How a text is written without touching the markup around it. -/
structure WrittenAs (text written : String) : Prop where
  plain : ∀ c ∈ written.toList, c ≠ '<' ∧ c ≠ '>' ∧ c ≠ '"' ∧ c ≠ '\''
  entity : ∀ before after, written.toList = before ++ '&' :: after →
    ∃ entity ∈ entities, entity.toList <+: '&' :: after
  back : unescape written = text

theorem escape_writtenAs (t : String) : WrittenAs t (escape t) where
  plain c member := by
    rw [escape_toList] at member
    have free := escaped_free member
    refine ⟨fun same => free (.inl same), fun same => free (.inr (.inl same)),
      fun same => free (.inr (.inr same)), ?_⟩
    rintro rfl
    exact apostrophe_not_mem_escaped t member
  entity before after split := by
    rw [escape_toList] at split
    exact ampersand_begins_entity split
  back := unescape_escape t

theorem escape_injective (same : escape s = escape t) : s = t := by
  rw [← unescape_escape s, same, unescape_escape]

end Markup

/-- The characters that an attribute is written with. -/
def Attribute.chars (a : Attribute) : List Char :=
  ' ' :: a.name.toList ++ (a.value.elim [] fun value => '=' :: '"' :: Markup.escaped value ++ ['"'])

namespace Markup

def startChars (tag : String) (attributes : List Attribute) : List Char :=
  '<' :: tag.toList ++ attributes.flatMap Attribute.chars ++ ['>']

mutual

def chars : Markup → List Char
  | text s => escaped s
  | void tag attributes => startChars tag attributes
  | element tag attributes children =>
    startChars tag attributes ++ charsAll children ++ '<' :: '/' :: tag.toList ++ ['>']

def charsAll : List Markup → List Char
  | [] => []
  | node :: nodes => chars node ++ charsAll nodes

end

theorem writeAttribute_toList (out : String) (a : Attribute) :
    (writeAttribute out a).toList = out.toList ++ a.chars := by
  unfold writeAttribute Attribute.chars
  split
  · next value given => simp [given, escape_toList]
  · next none => simp [none]

theorem writeStart_toList (out tag : String) (attributes : List Attribute) :
    (writeStart out tag attributes).toList = out.toList ++ startChars tag attributes := by
  have folded (start : String) : (attributes.foldl writeAttribute start).toList =
      start.toList ++ attributes.flatMap Attribute.chars := by
    induction attributes generalizing start with
    | nil => simp
    | cons a attributes ih => simp [ih, writeAttribute_toList]
  simp [writeStart, startChars, folded]

mutual

theorem write_toList (out : String) : (m : Markup) → (write out m).toList = out.toList ++ m.chars
  | text s => by simp [write, chars, escape_toList]
  | void tag attributes => by rw [write, chars, writeStart_toList]
  | element tag attributes children => by
    simp [write, chars, writeAll_toList, writeStart_toList]

theorem writeAll_toList (out : String) :
    (nodes : List Markup) → (writeAll out nodes).toList = out.toList ++ charsAll nodes
  | [] => by simp [writeAll, charsAll]
  | node :: nodes => by
    rw [writeAll, charsAll, writeAll_toList, write_toList, List.append_assoc]

end

theorem render_toList (nodes : List Markup) : (render nodes).toList = charsAll nodes := by
  rw [render, writeAll_toList]
  rfl

end Markup

end Questionnaire
