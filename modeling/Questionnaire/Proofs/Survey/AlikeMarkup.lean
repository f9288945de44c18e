import Questionnaire.Proofs.Survey.MarkupRead
import Questionnaire.Proofs.Survey.RenderedControls

/-! Markup that differs in its texts only has the same tags. Texts stand between tags and as the
values of attributes that hold expressions; everything else is the outline of the markup. -/
namespace Questionnaire

/-- The names of attributes that hold expressions. -/
def expressionNames : List String :=
  ["data-expr", "data-min-expr", "data-max-expr", "data-displayif"]

namespace Attribute

/-- The attribute without its expression. -/
def outline (a : Attribute) : Attribute := if a.name ∈ expressionNames then a.map fun _ => "" else a

def expression? (a : Attribute) : Option String :=
  if a.name ∈ expressionNames then a.value else none

theorem outline_name (a : Attribute) : a.outline.name = a.name := by
  unfold outline
  split <;> rfl

end Attribute

namespace Markup

namespace Tag

def outline : Tag → Tag
  | opening name attributes => opening name (attributes.map Attribute.outline)
  | closing name => closing name

def texts : Tag → List String
  | opening _ attributes => attributes.filterMap Attribute.expression?
  | closing _ => []

end Tag

/-- Without the texts that are empty, for which there may be no place. -/
def nonempty (texts : List String) : List String := texts.filter (· != "")

theorem nonempty_append (xs ys : List String) : nonempty (xs ++ ys) = nonempty xs ++ nonempty ys :=
  List.filter_append ..

theorem nonempty_cons_empty (xs : List String) : nonempty ("" :: xs) = nonempty xs :=
  List.filter_cons_of_neg (by decide)

namespace Document

/-- The tags of a document without its texts. -/
def outline (d : Document) : List Tag := d.tags.map fun (t, _) => t.outline

/-- The texts of a document from front to back. -/
def texts (d : Document) : List String :=
  nonempty (d.front :: d.tags.flatMap fun (t, behind) => t.texts ++ [behind])

theorem texts_tag (t : Tag) (d : Document) : (d.tag t).texts = nonempty t.texts ++ d.texts := by
  rw [texts, tag, nonempty_cons_empty, List.flatMap_cons, List.append_assoc, nonempty_append]
  rfl

theorem texts_text {d : Document} (front : d.front = "") (s : String) :
    (d.text s).texts = nonempty [s] ++ d.texts := by
  rw [texts, texts, text, front, String.append_empty, nonempty_cons_empty, ← nonempty_append]
  rfl

/-- Escaping leaves no trace in an outline but in the values that it keeps. -/
theorem outline_map_escape (d : Document) : (d.map escape).outline = d.outline.map (Tag.map escape) := by
  have single (a : Attribute) : (a.map escape).outline = a.outline.map escape := by
    have empty : escape "" = "" := by decide
    unfold Attribute.outline
    by_cases listed : a.name ∈ expressionNames
    · rw [if_pos listed, if_pos (show (a.map escape).name ∈ expressionNames from listed)]
      cases value : a.value <;> simp [Attribute.map, value, empty]
    · rw [if_neg listed, if_neg (show (a.map escape).name ∉ expressionNames from listed)]
  have tag (t : Tag) : (t.map escape).outline = t.outline.map escape := by
    cases t with
    | opening name attributes => simp [Tag.map, Tag.outline, single]
    | closing name => rfl
  simp [outline, map, tag]

end Document

/-! ### Outlines -/

/-- Start tags that differ in their expressions only. -/
structure AlikeTags (tag : String) (attributes attributes' : List Attribute) : Prop where
  known : tag ∈ elementTags ++ writtenControls
  named : ∀ a ∈ attributes, a.name ∈ knownNames
  same : attributes.map Attribute.outline = attributes'.map Attribute.outline

/-- Trees that differ in their texts only. -/
inductive Alike : List Markup → List Markup → Prop
  | nil : Alike [] []
  | text {nodes nodes'} (s s' : String) (more : Alike nodes nodes') :
    Alike (.text s :: nodes) (.text s' :: nodes')
  | void {tag attributes attributes' nodes nodes'} (start : AlikeTags tag attributes attributes')
    (more : Alike nodes nodes') :
    Alike (.void tag attributes :: nodes) (.void tag attributes' :: nodes')
  | element {tag attributes attributes' children children' nodes nodes'}
    (start : AlikeTags tag attributes attributes') (inside : Alike children children')
    (more : Alike nodes nodes') :
    Alike (.element tag attributes children :: nodes) (.element tag attributes' children' :: nodes')

section Trees
variable {tag : String} {attributes attributes' : List Attribute}
  {nodes nodes' more more' : List Markup}

theorem AlikeTags.symm (alike : AlikeTags tag attributes attributes') :
    AlikeTags tag attributes' attributes where
  known := alike.known
  named a member := by
    have names (as : List Attribute) :
        (as.map Attribute.outline).map Attribute.name = as.map Attribute.name := by
      rw [List.map_map]
      exact List.map_congr_left fun a _ => a.outline_name
    have same := names attributes
    rw [alike.same, names] at same
    have listed : a.name ∈ attributes.map Attribute.name := same ▸ List.mem_map_of_mem member
    obtain ⟨b, inside, equal⟩ := List.mem_map.1 listed
    exact equal ▸ alike.named b inside
  same := alike.same.symm

theorem AlikeTags.isStartTag (alike : AlikeTags tag attributes attributes') :
    IsStartTag tag attributes where
  letters := by
    have letters : ∀ tag ∈ elementTags ++ writtenControls, tag.toList.all Char.isLower = true := by
      decide
    exact List.all_eq_true.1 (letters tag alike.known)
  names a member := by
    have names : ∀ name ∈ knownNames,
        name.toList.all (fun c => decide (c.isLower = true ∨ c = '-')) = true := by
      decide
    intro c inside
    exact of_decide_eq_true (List.all_eq_true.1 (names a.name (alike.named a member)) c inside)

theorem AlikeTags.refl (known : tag ∈ elementTags ++ writtenControls)
    (named : ∀ a ∈ attributes, a.name ∈ knownNames) : AlikeTags tag attributes attributes :=
  ⟨known, named, rfl⟩

theorem AlikeTags.bare (known : tag ∈ elementTags ++ writtenControls) : AlikeTags tag [] [] :=
  ⟨known, List.forall_mem_nil _, rfl⟩

namespace Alike

theorem symm (alike : Alike nodes nodes') : Alike nodes' nodes := by
  induction alike with
  | nil => exact .nil
  | text s s' _ more => exact .text s' s more
  | void start _ more => exact .void start.symm more
  | element start _ _ inside more => exact .element start.symm inside more

theorem append (first : Alike nodes nodes') (second : Alike more more') :
    Alike (nodes ++ more) (nodes' ++ more') := by
  induction first with
  | nil => exact second
  | text s s' _ ih => exact .text s s' ih
  | void start _ ih => exact .void start ih
  | element start inside _ _ ih => exact .element start inside ih

theorem cons {node node' : Markup} (first : Alike [node] [node']) (second : Alike more more') :
    Alike (node :: more) (node' :: more') := first.append second

theorem map {α : Type} {f f' : α → Markup} {R : α → α → Prop} {xs xs' : List α}
    (related : List.Forall₂ R xs xs') (each : ∀ x x', R x x' → Alike [f x] [f' x']) :
    Alike (xs.map f) (xs'.map f') := by
  induction related with
  | nil => exact .nil
  | cons first _ ih => exact (each _ _ first).cons ih

theorem readable (alike : Alike nodes nodes') : ReadableAll nodes := by
  induction alike with
  | nil => trivial
  | text s s' _ more => exact ⟨trivial, more⟩
  | void start _ more => exact ⟨start.isStartTag, more⟩
  | element start _ _ inside more => exact ⟨⟨start.isStartTag, inside⟩, more⟩

/-- Trees that are alike keep the outline of what stands behind them. -/
theorem outline_placeAll (alike : Alike nodes nodes') {d d' : Document}
    (behind : d.outline = d'.outline) :
    (placeAll d nodes).outline = (placeAll d' nodes').outline := by
  induction alike generalizing d d' with
  | nil => exact behind
  | text s s' _ more => exact more behind
  | @void tag _ _ _ _ start _ more =>
    exact congrArg₂ List.cons (congrArg (Tag.opening tag) start.same) (more behind)
  | @element tag _ _ _ _ _ _ start _ _ inside more =>
    refine congrArg₂ List.cons (congrArg (Tag.opening tag) start.same) (inside ?_)
    exact congrArg (Tag.closing tag :: ·) (more behind)

theorem outline (alike : Alike nodes nodes') :
    (document nodes).outline = (document nodes').outline := alike.outline_placeAll rfl

end Alike

/-! ### Texts -/

/-- Markup with these texts, in front of a tag. -/
def Shows (nodes : List Markup) (texts : List String) : Prop :=
  ∀ d : Document, d.front = "" → (placeAll d nodes).texts = nonempty texts ++ d.texts

/-- Markup with these texts, all of which stand within its tags. -/
structure Encloses (nodes : List Markup) (texts : List String) : Prop where
  shows : ∀ d : Document, (placeAll d nodes).texts = nonempty texts ++ d.texts
  front : ∀ d : Document, d.front = "" → (placeAll d nodes).front = ""

theorem placeAll_append (d : Document) (nodes more : List Markup) :
    placeAll d (nodes ++ more) = placeAll (placeAll d more) nodes := by
  induction nodes with
  | nil => rfl
  | cons node nodes ih => rw [List.cons_append, placeAll, placeAll, ih]

variable {texts others : List String}

namespace Shows

theorem text (s : String) : Shows [.text s] [s] := fun _ front => Document.texts_text front s

/-- Texts that follow each other are one text. -/
theorem join {s t : String} (shows : Shows (.text (s ++ t) :: nodes) texts) :
    Shows (.text s :: .text t :: nodes) texts := by
  intro d front
  rw [← shows d front]
  change (((placeAll d nodes).text t).text s).texts = ((placeAll d nodes).text (s ++ t)).texts
  rw [Document.text_text]

/-- A tag ends the text in front of it. -/
theorem followed {node : Markup} (front : String) (first : Encloses [node] texts)
    (opens : ∀ d, (place d node).front = "") (later : Shows (.text "" :: nodes) others) :
    Shows (.text front :: node :: nodes) (front :: (texts ++ others)) := by
  intro d empty
  have behind := later d empty
  change ((placeAll d nodes).text "").texts = _ at behind
  rw [Document.text_empty] at behind
  have here := first.shows (placeAll d nodes)
  change (place (placeAll d nodes) node).texts = _ at here
  change ((place (placeAll d nodes) node).text front).texts = _
  have split : front :: (texts ++ others) = [front] ++ (texts ++ others) := rfl
  rw [Document.texts_text (opens _), here, behind, split, nonempty_append, nonempty_append,
    List.append_assoc, List.append_assoc]

theorem bare (shows : Shows (.text "" :: nodes) texts) : Shows nodes texts := by
  intro d front
  have behind := shows d front
  change ((placeAll d nodes).text "").texts = _ at behind
  rwa [Document.text_empty] at behind

end Shows

namespace Encloses

theorem nil : Encloses [] [] := ⟨fun _ => rfl, fun _ front => front⟩

theorem append (first : Encloses nodes texts) (second : Encloses more others) :
    Encloses (nodes ++ more) (texts ++ others) where
  shows d := by
    rw [placeAll_append, first.shows, second.shows, nonempty_append, List.append_assoc]
  front d front := by
    rw [placeAll_append]
    exact first.front _ (second.front d front)

theorem cons {node : Markup} (first : Encloses [node] texts) (second : Encloses more others) :
    Encloses (node :: more) (texts ++ others) := first.append second

theorem void (tag : String) (attributes : List Attribute) :
    Encloses [.void tag attributes] (attributes.filterMap Attribute.expression?) where
  shows d := Document.texts_tag (.opening tag attributes) d
  front _ _ := rfl

theorem element (tag : String) (attributes : List Attribute) (children : Shows nodes texts) :
    Encloses [.element tag attributes nodes]
      (attributes.filterMap Attribute.expression? ++ texts) where
  shows d := by
    have inside := children (d.tag (.closing tag)) rfl
    rw [Document.texts_tag] at inside
    change ((placeAll (d.tag (.closing tag)) nodes).tag (.opening tag attributes)).texts = _
    rw [Document.texts_tag, inside, nonempty_append, List.append_assoc]
    rfl
  front _ _ := rfl

/-- Elements have the texts of their children. -/
theorem nested (tag : String) (attributes : List Attribute) (children : Encloses nodes texts) :
    Encloses [.element tag attributes nodes]
      (attributes.filterMap Attribute.expression? ++ texts) :=
  .element tag attributes fun d _ => children.shows d

theorem map {α : Type} {f : α → Markup} {g : α → List String} (each : ∀ x, Encloses [f x] (g x))
    (xs : List α) : Encloses (xs.map f) (xs.flatMap g) := by
  induction xs with
  | nil => exact .nil
  | cons x xs ih => exact (each x).cons ih

/-- The texts of a whole document. -/
theorem document (encloses : Encloses nodes texts) : (document nodes).texts = nonempty texts := by
  have whole := encloses.shows {}
  rwa [show ({} : Document).texts = [] from rfl, List.append_nil] at whole

end Encloses

end Trees

end Markup

end Questionnaire
