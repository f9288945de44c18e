import Questionnaire.Proofs.Survey.TextPositions

/-! What is read off the start tags of markup. A reader that looks at one start tag at a time gets
from written markup what it gets from the tree, part by part in the order of the text. -/
namespace Questionnaire

/-- The value of the first attribute with a name. -/
def Attribute.find? (name : String) (attributes : List Attribute) : Option String :=
  (attributes.find? (·.name == name)).bind Attribute.value

theorem Attribute.find?_map (f : String → String) (name : String) (attributes : List Attribute) :
    find? name (attributes.map (Attribute.map f)) = (find? name attributes).map f := by
  rw [find?, find?, List.find?_map]
  change ((attributes.find? (·.name == name)).map _).bind _ = _
  cases attributes.find? (·.name == name) <;> rfl

namespace Markup

section Read
variable {α : Type} {f : String → List Attribute → Option α}

def Tag.start? (f : String → List Attribute → Option α) : Tag → Option α
  | opening name attributes => f name attributes
  | closing _ => none

/-- What is read off the start tags of a document from front to back. -/
def Document.starts (f : String → List Attribute → Option α) (d : Document) : List α :=
  d.tags.filterMap (·.1.start? f)

theorem Document.starts_tag (name : String) (attributes : List Attribute) (d : Document) :
    (d.tag (.opening name attributes)).starts f = (f name attributes).toList ++ d.starts f := by
  change List.filterMap (·.1.start? f) ((Tag.opening name attributes, d.front) :: d.tags) = _
  cases own : f name attributes with
  | none => exact List.filterMap_cons_none own
  | some x => exact List.filterMap_cons_some own

/-- Escaping can be done behind the reading if it keeps what is read of a tag. -/
theorem Document.starts_escape {g : α → α} (kept : ∀ name attributes,
    f name (attributes.map (Attribute.map escape)) = (f name attributes).map g) (d : Document) :
    (d.map escape).starts f = (d.starts f).map g := by
  have tag (t : Tag) : (t.map escape).start? f = (t.start? f).map g := by
    cases t with
    | opening name attributes => exact kept name attributes
    | closing name => rfl
  simp only [starts, map, List.filterMap_map, List.map_filterMap, Function.comp_def, tag]

/-- Markup from whose start tags this is read, in front of what is read behind it. -/
def Starts (f : String → List Attribute → Option α) (nodes : List Markup) (xs : List α) : Prop :=
  ∀ d : Document, (placeAll d nodes).starts f = xs ++ d.starts f

namespace Starts
variable {nodes more : List Markup} {x : α} {xs ys : List α} {tag : String}
  {attributes : List Attribute}

theorem nil : Starts f [] [] := fun _ => rfl

theorem append (first : Starts f nodes xs) (second : Starts f more ys) :
    Starts f (nodes ++ more) (xs ++ ys) := by
  intro d
  rw [placeAll_append, first, second, List.append_assoc]

theorem cons {node : Markup} (first : Starts f [node] xs) (second : Starts f more ys) :
    Starts f (node :: more) (xs ++ ys) := first.append second

theorem text (s : String) : Starts f [.text s] [] := fun _ => rfl

theorem ofOption (s : Option String) : Starts f (s.map Markup.text).toList [] := by
  cases s with
  | none => exact .nil
  | some s => exact .text s

theorem void (own : f tag attributes = some x) : Starts f [.void tag attributes] [x] := by
  intro d
  rw [placeAll, placeAll, place, Document.starts_tag, own]
  rfl

theorem void_none (other : f tag attributes = none) : Starts f [.void tag attributes] [] := by
  intro d
  rw [placeAll, placeAll, place, Document.starts_tag, other]
  rfl

theorem element (own : f tag attributes = some x) (children : Starts f nodes xs) :
    Starts f [.element tag attributes nodes] (x :: xs) := by
  intro d
  rw [placeAll, placeAll, place, Document.starts_tag, own, children]
  rfl

theorem element_none (other : f tag attributes = none) (children : Starts f nodes xs) :
    Starts f [.element tag attributes nodes] xs := by
  intro d
  rw [placeAll, placeAll, place, Document.starts_tag, other, children]
  rfl

theorem map {β : Type} {node : β → Markup} {ys : β → List α} (each : ∀ b, Starts f [node b] (ys b))
    (bs : List β) : Starts f (bs.map node) (bs.flatMap ys) := by
  induction bs with
  | nil => exact .nil
  | cons b bs ih => exact (each b).cons ih

/-- What is read of written markup. -/
theorem read {g : α → α} (starts : Starts f nodes xs) (readable : ReadableAll nodes)
    (kept : ∀ name attributes,
      f name (attributes.map (Attribute.map escape)) = (f name attributes).map g) :
    ∃ d, Markup.read (render nodes) = some d ∧ d.starts f = xs.map g := by
  refine ⟨_, read_render readable, ?_⟩
  rw [Document.starts_escape kept]
  exact congrArg _ ((starts {}).trans (List.append_nil _))

end Starts

end Read

end Markup

namespace Record

open Markup Rendering

theorem SameButTexts.refl (context : Context) (r : Record) :
    r.SameButTexts context context r := by
  have inlines (parts : List Inline) :
      List.Forall₂ (Inline.SameButTexts context context) parts parts := by
    refine List.forall₂_same.2 fun part _ => ?_
    cases part with
    | text s => exact .text s s
    | computed e => exact .computed e e
    | context name => exact .context rfl
    | field f => exact .field ⟨rfl, rfl, rfl, rfl, rfl, rfl, rfl⟩
  have columns (columns : List GridColumn) :
      List.Forall₂ GridColumn.SameButTexts columns columns :=
    List.forall₂_same.2 fun _ _ => ⟨rfl, rfl⟩
  refine ⟨rfl, rfl, rfl, rfl, ?_⟩
  cases r.content with
  | body lines =>
    refine .body (List.forall₂_same.2 fun l _ => ?_)
    cases l with
    | text parts => exact .text (inlines parts)
    | choice c => exact .choice ⟨rfl, rfl, rfl, inlines c.label⟩
  | grid t => exact .grid ⟨rfl, rfl, List.forall₂_same.2 fun _ _ => rfl, columns t.columns⟩
  | gridRow row columns' => exact .gridRow rfl (columns columns')
  | marker m => exact .marker m m

theorem readable_markup (r : Record) (context : Context) : ReadableAll (r.markup context) :=
  (alike_markup (.refl context r)).readable

/-- Of a section that is no tag to read is read what is read of its children. -/
theorem starts_questionSection {α : Type} {f : String → List Attribute → Option α}
    {nodes : List Markup} {xs : List α} (r : Record) (sections : ∀ as, f "section" as = none)
    (button : ∀ as, f "button" as = none) (children : Starts f nodes xs) :
    Starts f [questionSection r nodes] xs := by
  have submit : Starts f (if r.isTerminal then [submitButton] else []) [] := by
    split
    · exact .element_none (button _) (.text "Submit")
    · exact .nil
  have whole := children.append submit
  rw [List.append_nil] at whole
  exact .element_none (sections _) whole

end Record

end Questionnaire
