import Questionnaire.Proofs.Survey.MarkupText

/-! Written markup is read back. A reader goes through the characters and keeps apart what stands
in a tag, in the value of an attribute and between tags; it takes values and texts as they are
written. From the text of a tree it gets the tags of the tree, each value and each text in its
place. -/
namespace Questionnaire

def Attribute.map (f : String → String) (a : Attribute) : Attribute :=
  { a with value := a.value.map f }

namespace Markup

inductive Tag where
  | opening (name : String) (attributes : List Attribute)
  | closing (name : String)

def Tag.map (f : String → String) : Tag → Tag
  | opening name attributes => opening name (attributes.map (Attribute.map f))
  | closing name => closing name

/-- Markup by its tags. -/
structure Document where
  /-- The text in front of the first tag. -/
  front : String := ""
  /-- The tags, each with the text behind it. -/
  tags : List (Tag × String) := []

namespace Document

/-- A text in front of a document. -/
def text (s : String) (d : Document) : Document := { d with front := s ++ d.front }

/-- A tag in front of a document. -/
def tag (t : Tag) (d : Document) : Document := { tags := (t, d.front) :: d.tags }

/-- All texts and values replaced. -/
def map (f : String → String) (d : Document) : Document where
  front := f d.front
  tags := d.tags.map fun (t, behind) => (t.map f, f behind)

end Document

/-! ### Reading -/

mutual

/-- Reads on between tags. -/
def readText : List Char → Option Document
  | [] => some {}
  | '<' :: '/' :: cs => (readClosing cs).map fun (name, d) => d.tag (.closing name)
  | '<' :: cs => (readOpening cs).map fun (name, attributes, d) => d.tag (.opening name attributes)
  | c :: cs => (readText cs).map (·.text (String.singleton c))

/-- Reads on in the name of an end tag. -/
def readClosing : List Char → Option (String × Document)
  | '>' :: cs => (readText cs).map fun d => ("", d)
  | c :: cs => (readClosing cs).map fun (name, d) => (String.singleton c ++ name, d)
  | [] => none

/-- Reads on in the name of a start tag. -/
def readOpening : List Char → Option (String × List Attribute × Document)
  | '>' :: cs => (readText cs).map fun d => ("", [], d)
  | ' ' :: cs => (readAttribute cs).map fun (a, more, d) => ("", a :: more, d)
  | c :: cs => (readOpening cs).map fun (name, behind) => (String.singleton c ++ name, behind)
  | [] => none

/-- Reads on in the name of an attribute. -/
def readAttribute : List Char → Option (Attribute × List Attribute × Document)
  | '>' :: cs => (readText cs).map fun d => (⟨"", none⟩, [], d)
  | ' ' :: cs => (readAttribute cs).map fun (a, more, d) => (⟨"", none⟩, a :: more, d)
  | '=' :: '"' :: cs => (readValue cs).map fun (value, behind) => (⟨"", some value⟩, behind)
  | c :: cs => (readAttribute cs).map fun (a, behind) =>
    ({ a with name := String.singleton c ++ a.name }, behind)
  | [] => none

/-- Reads on in the value of an attribute. -/
def readValue : List Char → Option (String × List Attribute × Document)
  | '"' :: '>' :: cs => (readText cs).map fun d => ("", [], d)
  | '"' :: ' ' :: cs => (readAttribute cs).map fun (a, more, d) => ("", a :: more, d)
  | '"' :: _ => none
  | c :: cs => (readValue cs).map fun (value, behind) => (String.singleton c ++ value, behind)
  | [] => none

end

/-- The document that a text is read as. -/
def read (s : String) : Option Document := readText s.toList

theorem ofList_cons (c : Char) (cs : List Char) :
    String.ofList (c :: cs) = String.singleton c ++ String.ofList cs := by
  rw [String.singleton_eq_ofList, ← String.ofList_append]
  rfl

theorem Document.text_empty (d : Document) : d.text "" = d := by
  rw [Document.text, String.empty_append]

theorem Document.text_text (s t : String) (d : Document) : (d.text t).text s = d.text (s ++ t) := by
  rw [Document.text, Document.text, Document.text, String.append_assoc]

section Runs
variable {cs rest : List Char} {d : Document} {attributes : List Attribute}

theorem readText_append (free : '<' ∉ cs) (behind : readText rest = some d) :
    readText (cs ++ rest) = some (d.text (String.ofList cs)) := by
  induction cs with
  | nil =>
    rw [List.nil_append, behind, String.ofList_nil, Document.text_empty]
  | cons c cs ih =>
    rw [List.mem_cons, not_or] at free
    rw [List.cons_append, readText, ih free.2, Option.map_some, Document.text_text, ofList_cons]
    · exact fun _ opens => absurd opens.symm free.1
    · exact fun opens => absurd opens.symm free.1

theorem readClosing_append (free : '>' ∉ cs) (behind : readText rest = some d) :
    readClosing (cs ++ '>' :: rest) = some (String.ofList cs, d) := by
  induction cs with
  | nil =>
    rw [List.nil_append, readClosing, behind, Option.map_some, String.ofList_nil]
  | cons c cs ih =>
    rw [List.mem_cons, not_or] at free
    rw [List.cons_append, readClosing, ih free.2, Option.map_some, ofList_cons]
    exact fun closes => absurd closes.symm free.1

theorem readOpening_append {name : String} (free : '>' ∉ cs ∧ ' ' ∉ cs)
    (behind : readOpening rest = some (name, attributes, d)) :
    readOpening (cs ++ rest) = some (String.ofList cs ++ name, attributes, d) := by
  induction cs with
  | nil =>
    rw [List.nil_append, behind, String.ofList_nil, String.empty_append]
  | cons c cs ih =>
    simp only [List.mem_cons, not_or] at free
    rw [List.cons_append, readOpening, ih ⟨free.1.2, free.2.2⟩, Option.map_some, ofList_cons,
      String.append_assoc]
    · exact fun closes => absurd closes.symm free.1.1
    · exact fun blank => absurd blank.symm free.2.1

theorem readAttribute_append {a : Attribute} (free : '>' ∉ cs ∧ ' ' ∉ cs ∧ '=' ∉ cs)
    (behind : readAttribute rest = some (a, attributes, d)) : readAttribute (cs ++ rest) =
      some ({ a with name := String.ofList cs ++ a.name }, attributes, d) := by
  induction cs with
  | nil =>
    rw [List.nil_append, behind, String.ofList_nil, String.empty_append]
  | cons c cs ih =>
    simp only [List.mem_cons, not_or] at free
    rw [List.cons_append, readAttribute, ih ⟨free.1.2, free.2.1.2, free.2.2.2⟩, Option.map_some,
      ofList_cons, String.append_assoc]
    · exact fun closes => absurd closes.symm free.1.1
    · exact fun blank => absurd blank.symm free.2.1.1
    · exact fun _ assigns => absurd assigns.symm free.2.2.1

theorem readValue_append {value : String} (free : '"' ∉ cs)
    (behind : readValue rest = some (value, attributes, d)) :
    readValue (cs ++ rest) = some (String.ofList cs ++ value, attributes, d) := by
  induction cs with
  | nil =>
    rw [List.nil_append, behind, String.ofList_nil, String.empty_append]
  | cons c cs ih =>
    rw [List.mem_cons, not_or] at free
    rw [List.cons_append, readValue, ih free.2, Option.map_some, ofList_cons, String.append_assoc]
    · exact fun _ quote => absurd quote.symm free.1
    · exact fun _ quote => absurd quote.symm free.1
    · exact fun quote => absurd quote.symm free.1

end Runs

/-! ### Tags -/

/-- A tag and attributes whose names end where the tag or the attribute does. -/
structure IsStartTag (tag : String) (attributes : List Attribute) : Prop where
  letters : ∀ c ∈ tag.toList, c.isLower = true
  names : ∀ a ∈ attributes, ∀ c ∈ a.name.toList, c.isLower = true ∨ c = '-'

section Start
variable {rest : List Char} {d : Document}

/-- An attribute is read as it is written if the tag goes on behind it. -/
theorem readAttribute_chars {a : Attribute} {more : List Attribute}
    (names : ∀ c ∈ a.name.toList, c.isLower = true ∨ c = '-')
    (bare : readAttribute rest = some (⟨"", none⟩, more, d))
    (quoted : readValue ('"' :: rest) = some ("", more, d)) :
    readAttribute (a.chars.tail ++ rest) = some (a.map escape, more, d) := by
  have free : '>' ∉ a.name.toList ∧ ' ' ∉ a.name.toList ∧ '=' ∉ a.name.toList := by
    refine ⟨fun inside => ?_, fun inside => ?_, fun inside => ?_⟩ <;>
      exact absurd (names _ inside) (by decide)
  obtain ⟨name, value⟩ := a
  cases value with
  | none =>
    have written : Attribute.chars ⟨name, none⟩ = ' ' :: name.toList := by
      simp [Attribute.chars]
    rw [written, List.tail_cons, readAttribute_append free bare, String.ofList_toList,
      String.append_empty]
    rfl
  | some v =>
    have written : Attribute.chars ⟨name, some v⟩ =
        ' ' :: (name.toList ++ '=' :: '"' :: (escaped v ++ ['"'])) := by
      simp [Attribute.chars]
    have value := readValue_append (quote_not_mem_escaped v) quoted
    have assigned : readAttribute ('=' :: '"' :: (escaped v ++ '"' :: rest)) =
        some (⟨"", some (escape v)⟩, more, d) := by
      rw [readAttribute, value, Option.map_some, String.append_empty]
      rfl
    rw [written, List.tail_cons, List.append_assoc, List.cons_append, List.cons_append,
      List.append_assoc, List.singleton_append, readAttribute_append free assigned,
      String.ofList_toList, String.append_empty]
    rfl

/-- Attributes are read up to the end of their tag, whatever stands in front of them. -/
theorem read_attributes {attributes : List Attribute}
    (names : ∀ a ∈ attributes, ∀ c ∈ a.name.toList, c.isLower = true ∨ c = '-')
    (behind : readText rest = some d) :
    readAttribute (attributes.flatMap Attribute.chars ++ '>' :: rest) =
        some (⟨"", none⟩, attributes.map (Attribute.map escape), d) ∧
      readValue ('"' :: (attributes.flatMap Attribute.chars ++ '>' :: rest)) =
        some ("", attributes.map (Attribute.map escape), d) ∧
      readOpening (attributes.flatMap Attribute.chars ++ '>' :: rest) =
        some ("", attributes.map (Attribute.map escape), d) := by
  induction attributes with
  | nil =>
    rw [List.flatMap_nil, List.nil_append, readAttribute, readValue, readOpening, behind]
    exact ⟨rfl, rfl, rfl⟩
  | cons a attributes ih =>
    obtain ⟨own, names⟩ := List.forall_mem_cons.1 names
    obtain ⟨bare, quoted, -⟩ := ih names
    have first := readAttribute_chars own bare quoted
    have split : (a :: attributes).flatMap Attribute.chars ++ '>' :: rest =
        ' ' :: (a.chars.tail ++ (attributes.flatMap Attribute.chars ++ '>' :: rest)) := by
      simp [Attribute.chars]
    rw [split, readAttribute, readValue, readOpening, first]
    exact ⟨rfl, rfl, rfl⟩

theorem readText_start {tag : String} {attributes : List Attribute}
    (start : IsStartTag tag attributes) (behind : readText rest = some d) :
    readText (startChars tag attributes ++ rest) =
      some (d.tag (.opening tag (attributes.map (Attribute.map escape)))) := by
  have free : '>' ∉ tag.toList ∧ ' ' ∉ tag.toList := by
    refine ⟨fun inside => ?_, fun inside => ?_⟩ <;>
      exact absurd (start.letters _ inside) (by decide)
  have opening := readOpening_append free (read_attributes start.names behind).2.2
  have split : startChars tag attributes ++ rest =
      '<' :: (tag.toList ++ (attributes.flatMap Attribute.chars ++ '>' :: rest)) := by
    simp [startChars]
  rw [split, readText, opening, Option.map_some, String.ofList_toList, String.append_empty]
  intro _ slash
  cases letters : tag.toList with
  | cons c cs =>
    rw [letters, List.cons_append] at slash
    obtain ⟨rfl, -⟩ := List.cons.inj slash
    exact absurd (start.letters '/' (letters ▸ List.mem_cons_self)) (by decide)
  | nil =>
    rw [letters, List.nil_append] at slash
    cases attributes with
    | nil => cases (List.cons.inj slash).1
    | cons a attributes => cases (List.cons.inj slash).1

theorem readText_end {tag : String} (letters : ∀ c ∈ tag.toList, c.isLower = true)
    (behind : readText rest = some d) :
    readText ('<' :: '/' :: (tag.toList ++ '>' :: rest)) = some (d.tag (.closing tag)) := by
  have free : '>' ∉ tag.toList := fun inside => absurd (letters _ inside) (by decide)
  rw [readText, readClosing_append free behind, Option.map_some, String.ofList_toList]

end Start

/-! ### Trees -/

mutual

/-- Every tag of the tree can be told from its attributes, and they from each other. -/
def Readable : Markup → Prop
  | text _ => True
  | void tag attributes => IsStartTag tag attributes
  | element tag attributes children => IsStartTag tag attributes ∧ ReadableAll children

def ReadableAll : List Markup → Prop
  | [] => True
  | node :: nodes => Readable node ∧ ReadableAll nodes

end

mutual

/-- A tree in front of a document. -/
def place (d : Document) : Markup → Document
  | text s => d.text s
  | void tag attributes => d.tag (.opening tag attributes)
  | element tag attributes children =>
    (placeAll (d.tag (.closing tag)) children).tag (.opening tag attributes)

def placeAll (d : Document) : List Markup → Document
  | [] => d
  | node :: nodes => place (placeAll d nodes) node

end

/-- The document of markup: its tags, with its values and texts as they are. -/
def document (nodes : List Markup) : Document := placeAll {} nodes

theorem Document.map_text (s : String) (d : Document) :
    (d.text s).map escape = (d.map escape).text (escape s) := by
  rw [Document.map, Document.text, Document.text, escape_append]
  rfl

theorem Document.map_closing (tag : String) (d : Document) :
    (d.tag (.closing tag)).map escape = (d.map escape).tag (.closing tag) := rfl

mutual

theorem readText_chars {rest : List Char} {d : Document}
    (behind : readText rest = some (d.map escape)) : (m : Markup) → Readable m →
      readText (m.chars ++ rest) = some ((place d m).map escape)
  | text s, _ => by
    have free : '<' ∉ escaped s := fun inside => escaped_free inside (.inl rfl)
    rw [chars, place, readText_append free behind, Document.map_text]
    rfl
  | void tag attributes, start => by
    rw [chars, place, readText_start start behind]
    rfl
  | element tag attributes children, ⟨start, inside⟩ => by
    have ending := readText_end start.letters behind
    rw [← Document.map_closing] at ending
    have inner := readText_charsAll ending children inside
    have split : (element tag attributes children).chars ++ rest = startChars tag attributes ++
        (charsAll children ++ '<' :: '/' :: (tag.toList ++ '>' :: rest)) := by
      simp [chars]
    rw [split, readText_start start inner]
    rfl

theorem readText_charsAll {rest : List Char} {d : Document}
    (behind : readText rest = some (d.map escape)) :
    (nodes : List Markup) → ReadableAll nodes →
      readText (charsAll nodes ++ rest) = some ((placeAll d nodes).map escape)
  | [], _ => behind
  | node :: nodes, ⟨first, later⟩ => by
    rw [charsAll, placeAll, List.append_assoc]
    exact readText_chars (readText_charsAll behind nodes later) node first

end

/-- Written markup is read as its document, with values and texts as they are written. -/
theorem read_render {nodes : List Markup} (readable : ReadableAll nodes) :
    read (render nodes) = some ((document nodes).map escape) := by
  have whole := @readText_charsAll [] {} rfl nodes readable
  rwa [List.append_nil, ← render_toList] at whole

/-- A bracket within a value ends no tag. -/
example : (read "<p id=\"a>b\">c &lt;</p>").map (fun d => d.tags.map Prod.snd) =
    some ["c &lt;", ""] := by decide

theorem Tag.unescape_escape (t : Tag) : (t.map escape).map unescape = t := by
  have same (a : Attribute) : (a.map escape).map unescape = a := by
    obtain ⟨name, value⟩ := a
    cases value <;> simp [Attribute.map, Markup.unescape_escape]
  cases t with
  | opening name attributes => simp [Tag.map, Function.comp_def, same]
  | closing name => rfl

/-- Un-escaping all values and texts of written markup gives the original ones. -/
theorem Document.unescape_escape (d : Document) : (d.map escape).map unescape = d := by
  simp [Document.map, Function.comp_def, Tag.unescape_escape, Markup.unescape_escape]

end Markup

end Questionnaire
