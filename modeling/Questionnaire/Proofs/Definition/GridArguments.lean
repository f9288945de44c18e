import Questionnaire.Proofs.Definition.Opening
import Questionnaire.Proofs.Definition.Table

/-! The arguments of a grid mean what the options of a header mean. The field of a grid is cut
at commas, trimmed and joined again before it is read; every option survives this, so that the
header in the place of the grid says what a header with the same options says. -/
namespace Questionnaire

/-- The same directives with the grid flag added. -/
def Directives.asGrid (d : Directives) : Directives := { d with grid := true }

/-- What a header declares, with the grid flag added. -/
def Head.asGrid (h : Head) : Head := { h with directives := h.directives.asGrid }

namespace Definition

open Text

/-! ### Trimming -/

theorem trimEndChars_append {cs ds : List Char} (some : trimEndChars ds ≠ []) :
    trimEndChars (cs ++ ds) = cs ++ trimEndChars ds := by
  have kept : (ds.reverse.dropWhile isBlank).isEmpty = false := by
    apply Bool.eq_false_iff.2
    intro none
    exact some (by rw [trimEndChars, List.isEmpty_iff.1 none]; rfl)
  rw [trimEndChars, List.reverse_append, List.dropWhile_append, kept]
  simp [trimEndChars]

theorem trimEndChars_stop {c : Char} (unblank : isBlank c = false) (cs ds : List Char) :
    trimEndChars (cs ++ c :: ds) = cs ++ c :: trimEndChars ds := by
  rw [trimEndChars_append, trimEndChars_cons unblank]
  rw [trimEndChars_cons unblank]
  exact List.cons_ne_nil _ _

theorem trimEndChars_blanks {bs : List Char} (blanks : ∀ c ∈ bs, isBlank c = true) :
    trimEndChars bs = [] := by
  rw [trimEndChars, List.reverse_eq_nil_iff, List.dropWhile_eq_nil_iff]
  intro c member
  exact blanks c (List.mem_reverse.1 member)

theorem trimChars_trimEndChars (cs : List Char) : trimChars (trimEndChars cs) = trimChars cs := by
  obtain ⟨bs, whole, blanks⟩ := exists_trimEndChars cs
  conv_rhs => rw [whole]
  rw [trimChars_append_blanks blanks]

theorem trimChars_blanks_append {bs cs : List Char} (blanks : ∀ c ∈ bs, isBlank c = true) :
    trimChars (bs ++ cs) = trimChars cs := by
  rw [trimChars, trimStartChars, List.dropWhile_append_of_pos blanks]
  rfl

theorem Blanks.blank {bs : List Char} (blanks : Blanks bs) : ∀ c ∈ bs, isBlank c = true := by
  intro c member
  rcases isLineBlank_cases (blanks c member) with rfl | rfl <;> rfl

theorem isBlank_of_isOptionKeyChar {c : Char} (letter : isOptionKeyChar c = true) :
    isBlank c = false := by
  simp only [isOptionKeyChar, Bool.or_eq_true, beq_iff_eq] at letter
  rcases letter with (word | rfl) | rfl
  · exact (noteChar (by simp [isNoteChar, word])).unblank
  · rfl
  · rfl

/-- A value without the blanks at its end is one. -/
theorem ValueText.trimEnd {stop : Char → Bool} {v : List Char} (text : ValueText stop v) :
    ValueText stop (trimEndChars v) := by
  induction text with
  | nil => exact .nil
  | @char c v opens closes kept rest ih =>
    by_cases none : trimEndChars v = []
    · cases blank : isBlank c with
      | true =>
        obtain ⟨bs, whole, blanks⟩ := exists_trimEndChars v
        rw [none, List.nil_append] at whole
        rw [whole, trimEndChars_blanks (List.forall_mem_cons.2 ⟨blank, blanks⟩)]
        exact .nil
      | false =>
        rw [trimEndChars_cons blank]
        exact .char opens closes kept ih
    · rw [← List.singleton_append, trimEndChars_append none]
      exact .char opens closes kept ih
  | @group inner v oneLine closed rest ih =>
    have kept := trimEndChars_stop (c := ')') rfl ('(' :: inner) v
    rw [List.cons_append, List.cons_append] at kept
    rw [kept]
    exact .group oneLine closed ih

/-- Blanks in front of a value go with it where it is blank altogether. -/
theorem trimEndChars_lead {lead value : List Char} (blanks : Blanks lead)
    (text : ValueText endsValue value) (start : ∀ x ∈ value.head?, isLineBlank x = false) :
    ∃ lead' value', trimEndChars (lead ++ value) = lead' ++ value' ∧ Blanks lead' ∧
      ValueText endsValue value' ∧ (∀ x ∈ value'.head?, isLineBlank x = false) ∧
      trimChars value' = trimChars value := by
  by_cases none : trimEndChars value = []
  · obtain ⟨bs, whole, further⟩ := exists_trimEndChars value
    rw [none, List.nil_append] at whole
    refine ⟨[], [], ?_, blanks_nil, .nil, nofun, ?_⟩
    · rw [whole]
      exact trimEndChars_blanks (List.forall_mem_append.2 ⟨blanks.blank, further⟩)
    · rw [← trimChars_trimEndChars value, none]
  · refine ⟨lead, trimEndChars value, trimEndChars_append none, blanks, text.trimEnd, ?_,
      trimChars_trimEndChars value⟩
    obtain ⟨bs, whole, -⟩ := exists_trimEndChars value
    intro x head
    apply start
    rw [whole, List.head?_append, Option.mem_def.1 head]
    rfl

/-! ### Options as items of a field -/

/-- A group goes to one piece as a whole. -/
theorem splitTopLevel_group {depth : Nat} {inner v piece : List Char}
    {pieces : List (List Char)} (closed : takeGroup? depth (inner ++ ')' :: v) = some (inner, v))
    (split : splitTopLevel 0 v = piece :: pieces) :
    splitTopLevel (depth + 1) (inner ++ ')' :: v) = (inner ++ ')' :: piece) :: pieces := by
  induction inner generalizing depth with
  | nil =>
    have zero : depth = 0 := by
      rw [List.nil_append, takeGroup?_cons, if_neg (by decide)] at closed
      split at closed
      · next closes => simpa using closes
      · obtain ⟨_, -, same⟩ := Option.map_eq_some_iff.1 closed
        cases same
    subst zero
    exact splitTopLevel_inside (by decide) split
  | cons c inner ih =>
    rw [List.cons_append] at closed ⊢
    rw [takeGroup?_cons] at closed
    split at closed
    · contradiction
    · split at closed
      · cases closed
      · next further =>
        obtain ⟨⟨more, behind⟩, inside, same⟩ := Option.map_eq_some_iff.1 closed
        simp only [Prod.mk.injEq, List.cons.injEq, true_and] at same
        obtain ⟨rfl, rfl⟩ := same
        have deeper := ih inside
        rw [← depthBehind_outer (by simpa using further) 1] at deeper
        exact splitTopLevel_inside (fun cut => absurd cut.2 (Nat.succ_ne_zero depth)) deeper

/-- No comma cuts a value. -/
theorem ValueText.uncut {v : List Char} (text : ValueText endsValue v) :
    splitTopLevel 0 v = [v] := by
  induction text with
  | nil => rfl
  | @char c v opens closes kept rest ih =>
    apply splitTopLevel_inside
    · rintro ⟨rfl, -⟩
      cases kept
    · rw [depthBehind_plain opens closes]
      exact ih
  | @group inner v oneLine closed rest ih =>
    apply splitTopLevel_inside (by decide)
    exact splitTopLevel_group (closed v) ih

/-- What the item of an option is in a field: no comma cuts it, it begins with a letter, and
without the blanks around it it is read as the same option. -/
structure OptionItem (item : List Char) (o : String × Option String) : Prop where
  uncut : Uncut item
  letter : ∃ c cs, trimStartChars item = c :: cs ∧ c.isAlpha = true
  text : OptionText (',' :: trimChars item) o

theorem OptionItem.ne_nil {item : List Char} {o : String × Option String}
    (shape : OptionItem item o) : trimChars item ≠ [] := by
  obtain ⟨c, cs, start, alpha⟩ := shape.letter
  have key : isOptionKeyChar c = true := by simp [isOptionKeyChar, Char.isAlphanum, alpha]
  rw [trimChars, start, trimEndChars_cons (isBlank_of_isOptionKeyChar key)]
  exact List.cons_ne_nil _ _

section Key
variable {inside behind lead key value : List Char} {c : Char}

/-- The key of an option with the blanks around it. -/
def keyItem (inside : List Char) (c : Char) (key behind : List Char) : List Char :=
  inside ++ c :: (key ++ behind)

theorem keyText_keyItem (inside : List Char) (c : Char) (key behind : List Char) :
    keyText [] inside c key behind = ',' :: keyItem inside c key behind := rfl

theorem KeyText.letters (shape : KeyText [] inside c key behind) :
    ∀ x ∈ c :: key, isOptionKeyChar x = true := by
  have start : isOptionKeyChar c = true := by simp [isOptionKeyChar, Char.isAlphanum, shape.alpha]
  exact List.forall_mem_cons.2 ⟨start, shape.key⟩

theorem KeyText.inert (shape : KeyText [] inside c key behind) :
    ∀ x ∈ keyItem inside c key behind, Inert x := by
  have blank {bs : List Char} (blanks : Blanks bs) : ∀ x ∈ bs, Inert x :=
    fun x member => inert_of_blank (blanks.blank x member)
  have letter : ∀ x ∈ c :: key, Inert x := by
    intro x member
    have other {d : Char} (different : isOptionKeyChar d = false) : x ≠ d :=
      ne_of_holds (shape.letters x member) different
    exact ⟨other rfl, other rfl, other rfl⟩
  rw [keyItem, ← List.cons_append, List.forall_mem_append, List.forall_mem_append]
  exact ⟨blank shape.inside, letter, blank shape.behind⟩

theorem KeyText.trimStart (shape : KeyText [] inside c key behind) (t : List Char) :
    trimStartChars (keyItem inside c key behind ++ t) = c :: (key ++ (behind ++ t)) := by
  have stop := isBlank_of_isOptionKeyChar (shape.letters c List.mem_cons_self)
  rw [keyItem, List.append_assoc, trimStartChars,
    List.dropWhile_append_of_pos shape.inside.blank, List.cons_append, List.append_assoc,
    List.dropWhile_cons_of_neg (by simp [stop])]

theorem KeyText.trimmed (shape : KeyText [] inside c key behind) : KeyText [] [] c key [] :=
  ⟨blanks_nil, blanks_nil, shape.alpha, shape.key, blanks_nil⟩

theorem OptionItem.flag (shape : KeyText [] inside c key behind) :
    OptionItem (keyItem inside c key behind)
      (String.ofList ((c :: key).map Char.toLower), none) := by
  have start := shape.trimStart []
  rw [List.append_nil, List.append_nil] at start
  refine ⟨⟨splitTopLevel_inert shape.inert 0, ?_⟩, ⟨c, _, start, shape.alpha⟩, ?_⟩
  · rw [← foldl_parens, parens_inert shape.inert]
    rfl
  · have trimmed : trimChars (keyItem inside c key behind) = c :: key := by
      rw [keyItem, trimChars_blanks_append shape.inside.blank, ← List.cons_append,
        trimChars_append_blanks shape.behind.blank]
      exact trimChars_plain fun x member => isBlank_of_isOptionKeyChar (shape.letters x member)
    have text := OptionText.flag shape.trimmed
    rw [keyText_keyItem, keyItem, List.append_nil, List.nil_append] at text
    rw [trimmed]
    exact text

theorem OptionItem.valued (shape : KeyText [] inside c key behind) (blanks : Blanks lead)
    (text : ValueText endsValue value) (start : ∀ x ∈ value.head?, isLineBlank x = false) :
    OptionItem (keyItem inside c key behind ++ '=' :: (lead ++ value))
      (String.ofList ((c :: key).map Char.toLower), some (String.ofList (trimChars value))) := by
  have option := OptionText.valued shape blanks text start
  have begins := shape.trimStart ('=' :: (lead ++ value))
  have inert : ∀ x ∈ '=' :: lead, Inert x := by
    refine List.forall_mem_cons.2 ⟨⟨by decide, by decide, by decide⟩, fun x member => ?_⟩
    exact inert_of_blank (blanks.blank x member)
  refine ⟨⟨?_, ?_⟩, ⟨c, _, begins, shape.alpha⟩, ?_⟩
  · rw [← List.cons_append, splitTopLevel_inert_append shape.inert
      (splitTopLevel_inert_append inert text.uncut)]
  · have paired := option.paired 0
    rwa [keyText_keyItem, List.cons_append, List.foldl_cons] at paired
  · obtain ⟨lead', value', ends, blanks', text', start', same⟩ :=
      trimEndChars_lead blanks text start
    have whole : trimChars (keyItem inside c key behind ++ '=' :: (lead ++ value)) =
        c :: (key ++ behind) ++ '=' :: (lead' ++ value') := by
      rw [trimChars, begins, ← List.append_assoc, ← List.cons_append,
        trimEndChars_stop (by rfl), ends]
    have unindented : KeyText [] [] c key behind :=
      ⟨blanks_nil, blanks_nil, shape.alpha, shape.key, shape.behind⟩
    have trimmed := OptionText.valued unindented blanks' text' start'
    rwa [keyText_keyItem, keyItem, List.nil_append, List.cons_append, ← whole, same] at trimmed

end Key

/-- What is written as an option, with its comma in front, is the item of one. -/
theorem OptionShape.item {p : List Char} {o : String × Option String} (shape : OptionShape p o)
    (start : ∀ c ∈ p.head?, isLineBlank c = false) :
    ∃ item, p = ',' :: item ∧ OptionItem item o := by
  have bare {before inside behind key : List Char} {c : Char}
      (shape : KeyText before inside c key behind) {t : List Char}
      (start : ∀ x ∈ (keyText before inside c key behind ++ t).head?, isLineBlank x = false) :
      before = [] := by
    cases before with
    | nil => rfl
    | cons b before =>
      have blank := shape.before b List.mem_cons_self
      rw [start b rfl] at blank
      contradiction
  cases shape with
  | flag shape =>
    obtain rfl := bare shape (t := []) (by rwa [List.append_nil])
    exact ⟨_, rfl, .flag shape⟩
  | valued shape blanks text first =>
    obtain rfl := bare shape start
    exact ⟨_, rfl, .valued shape blanks text first⟩

/-- What is read as options is made of the items of these options. -/
theorem takeOptions_items (cs : List Char) (start : ∀ c ∈ cs.head?, isLineBlank c = false) :
    ∃ items, cs = items.flatMap (',' :: ·) ++ (takeOptions cs).2 ∧
      List.Forall₂ OptionItem items (takeOptions cs).1 := by
  induction h : cs.length using Nat.strongRecOn generalizing cs with
  | _ n ih =>
    subst h
    cases read : takeNextOption? cs with
    | none =>
      rw [takeOptions_none read]
      exact ⟨[], rfl, .nil⟩
    | some next =>
      obtain ⟨o, rest⟩ := next
      obtain ⟨p, same, shape, unblank⟩ := takeNextOption?_sound read
      have first : ∀ c ∈ p.head?, isLineBlank c = false := by
        intro c head
        apply start
        rw [same, List.head?_append, Option.mem_def.1 head]
        rfl
      obtain ⟨item, rfl, shaped⟩ := shape.item first
      obtain ⟨items, further, others⟩ := ih rest.length (takeNextOption?_length read) rest unblank rfl
      rw [takeOptions_some read]
      refine ⟨item :: items, ?_, .cons shaped others⟩
      rw [List.flatMap_cons, List.append_assoc, ← further]
      exact same

section Items
variable {items : List (List Char)} {os : List (String × Option String)}

theorem argumentOptions_items (shaped : List.Forall₂ OptionItem items os) :
    argumentOptions (items.flatMap (',' :: ·)) = items.map trimChars := by
  have shape : ∀ item ∈ items, Uncut item ∧ trimChars item ≠ [] :=
    ((List.forall₂_and_left _ _).1 (shaped.imp fun _ _ item => ⟨⟨item.uncut, item.ne_nil⟩, item⟩)).1
  have split : splitTopLevel 0 ([] ++ items.flatMap (',' :: ·)) = [] :: items :=
    splitTopLevel_append_items (fun item member => (shape item member).1) rfl
  rw [List.nil_append] at split
  rw [argumentOptions, split]
  change (items.map trimChars).filter _ = _
  rw [List.filter_eq_self]
  intro trimmed member
  obtain ⟨item, inside, rfl⟩ := List.mem_map.1 member
  simpa using (shape item inside).2

/-- Trimmed and joined again, the items are read as the same options. -/
theorem optionsText_items (shaped : List.Forall₂ OptionItem items os) :
    OptionsText ((items.map trimChars).flatMap (',' :: ·)) os := by
  induction shaped with
  | nil => exact .nil
  | @cons item o items os shape _ ih =>
    have follows := follows_items (items.map trimChars) (t := []) nofun
    rw [List.append_nil] at follows
    exact OptionsText.append (.single shape.text) ih follows

end Items

/-! ### Fields and headers -/

/-- The text of options behind what stands in front of them in a header. -/
def listed (options : List Char) : List Char :=
  if options.isEmpty then [] else ',' :: options

/-- A header as it is written at the beginning of a question. -/
def boundaryText (id mark options : List Char) : List Char :=
  headerText id mark (listed options ++ [']'])

/-- The fields of a grid that hold a mandate and the text of options. -/
inductive ArgumentField (mark options : List Char) : List Char → Prop
  | joined : ArgumentField mark options (mark ++ ',' :: options)
  | unmarked (none : mark = []) : ArgumentField mark options options
  | bare (none : options = []) : ArgumentField mark options mark

section Boundary
variable {id mark options args : List Char} {h : Header}

theorem follows_listed (options t : List Char) : Follows (listed options ++ ']' :: t) := by
  intro c head
  unfold listed at head
  split at head
  · obtain rfl := Option.some.inj head
    rfl
  · obtain rfl := Option.some.inj head
    rfl

/-- What a header that closes at its end is made of: the items of its options. -/
structure Boundary (id mark options : List Char) (h : Header) (items : List (List Char)) :
    Prop where
  named : h.id = String.ofList id
  mandate : h.mandate = (takeMandateMark mark).1
  oneLine : OneLine (listed options)
  whole : listed options = items.flatMap (',' :: ·)
  items : List.Forall₂ OptionItem items h.options

theorem boundary_of_takeHeaderLine? (shaped : IsQuestionId (String.ofList id))
    (marked : IsMark mark)
    (boundary : takeHeaderLine? (boundaryText id mark options) = some (h, [])) :
    ∃ items, Boundary id mark options h items := by
  have follows := follows_listed options []
  rw [boundaryText, takeHeaderLine?_headerText shaped marked follows] at boundary
  obtain ⟨rest, bracket, same⟩ := Option.map_eq_some_iff.1 boundary
  obtain ⟨rfl, rfl⟩ := Prod.mk.inj same
  have start : ∀ c ∈ (listed options ++ [']']).head?, isLineBlank c = false := follows.stop rfl rfl
  obtain ⟨items, split, shape⟩ := takeOptions_items (listed options ++ [']']) start
  obtain ⟨p, whole, text, -⟩ := takeOptions_sound (listed options ++ [']'])
  rw [takeOptions_closing start bracket] at split whole
  have same := List.append_cancel_right whole
  exact ⟨items, rfl, rfl, same ▸ text.oneLine, List.append_cancel_right split, shape⟩

/-- The options of a header begin with a letter, not with a mandate. -/
theorem Boundary.plain {items : List (List Char)} (b : Boundary id mark options h items) :
    ∀ c ∈ (trimStartChars options).head?, isMandate c = false := by
  have whole := b.whole
  have shape := b.items
  generalize h.options = os at shape
  unfold listed at whole
  cases shape with
  | nil =>
    split at whole
    · next none =>
      rw [List.isEmpty_iff.1 none]
      nofun
    · cases whole
  | @cons item o items os shape _ =>
    obtain ⟨c, cs, start, alpha⟩ := shape.letter
    split at whole
    · cases whole
    · have same : options = item ++ items.flatMap (',' :: ·) := (List.cons.inj whole).2
      have front : trimStartChars options = c :: (cs ++ items.flatMap (',' :: ·)) := by
        rw [trimStartChars] at start
        rw [same, trimStartChars, List.dropWhile_append, start]
        rfl
      rw [front]
      intro d head
      obtain rfl := Option.some.inj head
      rw [isMandate, Bool.or_eq_false_iff, beq_eq_false_iff_ne, beq_eq_false_iff_ne]
      exact ⟨ne_of_holds alpha rfl, ne_of_holds alpha rfl⟩

theorem argumentOptions_listed (options : List Char) :
    argumentOptions (listed options) = argumentOptions options := by
  unfold listed
  split
  · next none => rw [List.isEmpty_iff.1 none]
  · exact argumentOptions_separator rfl options

theorem argumentOptions_trimStart (cs : List Char) :
    argumentOptions (trimStartChars cs) = argumentOptions cs := by
  induction cs with
  | nil => rfl
  | cons c cs ih =>
    rw [trimStartChars, List.dropWhile_cons]
    split
    · next blank =>
      rw [argumentOptions_blank blank]
      exact ih
    · rfl

/-- Of the field of a grid, the mandate is taken off and the options are left. -/
theorem ArgumentField.split (field : ArgumentField mark options args) (marked : IsMark mark)
    (plain : ∀ c ∈ (trimStartChars options).head?, isMandate c = false) :
    (takeMandate args).1 = mark ∧
      argumentOptions (takeMandate args).2 = argumentOptions options := by
  have unblank (t : List Char) (stop : ∀ c ∈ t.head?, isBlank c = false) :
      trimStartChars (mark ++ t) = mark ++ t := by
    rcases marked with rfl | rfl | rfl
    · cases t with
      | nil => rfl
      | cons c t => exact List.dropWhile_cons_of_neg (by simp [stop c rfl])
    · rfl
    · rfl
  cases field with
  | joined =>
    have comma : ∀ c ∈ (',' :: options).head?, isBlank c = false ∧ isMandate c = false := by
      intro c head
      obtain rfl := Option.some.inj head
      exact ⟨rfl, rfl⟩
    have read := takeMandate_of marked (unblank _ fun c head => (comma c head).1)
      fun _ c head => (comma c head).2
    rwa [argumentOptions_separator rfl] at read
  | unmarked none =>
    subst none
    have read := takeMandate_of marked (List.nil_append (trimStartChars options)).symm fun _ => plain
    rwa [argumentOptions_trimStart] at read
  | bare none =>
    subst none
    have whole := unblank [] nofun
    rw [List.append_nil] at whole
    exact takeMandate_of marked (whole.trans (List.append_nil mark).symm) nofun

end Boundary

/-! ### What the headers declare -/

theorem applyOption_asGrid (d : Directives) (o : String × Option String) :
    applyOption d.asGrid o = (applyOption d o).asGrid := by
  obtain ⟨key, value⟩ := o
  simp only [applyOption, Directives.asGrid]
  split_ifs <;> rfl

theorem foldl_applyOption_asGrid (os : List (String × Option String)) (d : Directives) :
    os.foldl applyOption d.asGrid = (os.foldl applyOption d).asGrid := by
  induction os generalizing d with
  | nil => rfl
  | cons o os ih =>
    rw [List.foldl_cons, applyOption_asGrid]
    exact ih _

theorem takeLoopEntry_asGrid (d : Directives) :
    takeLoopEntry d.asGrid = (takeLoopEntry d).asGrid := by
  unfold takeLoopEntry Directives.asGrid
  dsimp only
  split <;> rfl

/-- An option for the grid in front of the others sets the flag and nothing else. -/
theorem head_grid (id : String) (mandate : Mandate) (os : List (String × Option String)) :
    (Header.mk id mandate (("grid", none) :: os)).head = (Header.mk id mandate os).head.asGrid := by
  have first : applyOption { mandate := mandate } ("grid", none) =
      ({ mandate := mandate } : Directives).asGrid := rfl
  simp only [Header.head, Head.asGrid, Header.directives]
  rw [List.foldl_cons, first, foldl_applyOption_asGrid, takeLoopEntry_asGrid]
  split_ifs <;> rfl

theorem optionText_grid : OptionText ",grid".toList ("grid", none) := by
  have shape : KeyText [] [] 'g' ['r', 'i', 'd'] [] :=
    ⟨blanks_nil, blanks_nil, rfl, List.all_eq_true.1 rfl, blanks_nil⟩
  exact OptionText.flag shape

section Question
variable {b : GridBlock} {mark options after : List Char} {h : Header}

/-- The header in the place of a grid is read as the header with its arguments as options. -/
theorem readsAs_of_boundary (shape : b.WellFormed) (marked : IsMark mark)
    (field : ArgumentField mark options b.args)
    (boundary : takeHeaderLine? (boundaryText b.id mark options) = some (h, [])) :
    b.ReadsAs ⟨h.id, h.mandate, ("grid", none) :: h.options⟩ := by
  obtain ⟨items, made⟩ := boundary_of_takeHeaderLine? shape.id marked boundary
  obtain ⟨mandate, arguments⟩ := field.split marked made.plain
  have follows := follows_items (items.map trimChars) (t := []) nofun
  rw [List.append_nil] at follows
  have text : OptionsText (gridOptions b.args) (("grid", none) :: h.options) := by
    rw [gridOptions, arguments, ← argumentOptions_listed, made.whole,
      argumentOptions_items made.items]
    exact OptionsText.append (.single optionText_grid) (optionsText_items made.items) follows
  have read := GridBlock.readsAs_of_options shape text
  rwa [mandate, ← made.named, ← made.mandate] at read

/-- A header in the middle of a text is one of its headers. -/
theorem heads_boundary {before : List Char} (ends : EndsLine before)
    (closes : closesGrids before = true) (shaped : IsQuestionId (String.ofList b.id))
    (marked : IsMark mark)
    (boundary : takeHeaderLine? (boundaryText b.id mark options) = some (h, [])) :
    heads (before ++ (boundaryText b.id mark options ++ '\n' :: after)) =
      heads before ++ h.head :: heads after := by
  obtain ⟨items, made⟩ := boundary_of_takeHeaderLine? shaped marked boundary
  have oneLine : OneLine (b.id ++ (mark ++ (listed options ++ [']']))) :=
    (oneLine_id shaped).append (marked.oneLine.append (made.oneLine.append (oneLine_single rfl)))
  have read : headOf? (boundaryText b.id mark options ++ '\n' :: after) = some h.head := by
    have head := headOf?_headerText shaped marked (follows_listed options []) (by simp) blanks_nil
    rw [← boundaryText, boundary] at head
    rw [headOf?_lineEnd (lineEnd_feed after)]
    exact head
  have here : heads (boundaryText b.id mark options ++ '\n' :: after) =
      (headOf? (boundaryText b.id mark options ++ '\n' :: after)).toList ++ heads after := by
    have split := heads_bracket blanks_nil oneLine (List.not_mem_nil (a := '\n')) after
    have text : boundaryText b.id mark options ++ '\n' :: after =
        '[' :: ((b.id ++ (mark ++ (listed options ++ [']']))) ++ '\n' :: after) := by
      simp [boundaryText, headerText]
    rw [text]
    exact split
  rw [heads_append ends closes, here, read]
  rfl

/-- A grid in the middle of a text is one of its headers. -/
theorem heads_grid_boundary {before : List Char} (ends : EndsLine before)
    (closes : closesGrids before = true) (shape : b.WellFormed) (marked : IsMark mark)
    (field : ArgumentField mark options b.args)
    (boundary : takeHeaderLine? (boundaryText b.id mark options) = some (h, [])) :
    heads (before ++ (b.toChars ++ '\n' :: after)) =
      heads before ++ h.head.asGrid :: heads after := by
  have reads := readsAs_of_boundary shape marked field boundary
  have feed : EndsLine ['\n'] := endsLine_concat []
  have here : heads (b.toChars ++ ([] ++ '\n' :: after)) =
      lineHeads (placeholder b) ++ lineHeads (['\n'] ++ content after) := heads_grid shape nofun
  rw [heads_append ends closes, ← List.nil_append ('\n' :: after), here, reads.lineHeads shape,
    head_grid, lineHeads_append feed]
  rfl

/-- The arguments of a grid mean what the options of a header mean: with a grid in the place of
a header, the same questions are read from a text, and the one in that place differs in its
grid flag only. -/
theorem questions_of_grid_arguments {sourceId : String} {before : List Char}
    (ends : EndsLine before) (closes : closesGrids before = true) (shape : b.WellFormed)
    (marked : IsMark mark) (field : ArgumentField mark options b.args)
    (boundary : takeHeaderLine? (boundaryText b.id mark options) = some (h, []))
    {asked gridded : Grids}
    (plain : extractGrids sourceId
      (String.ofList (before ++ (boundaryText b.id mark options ++ '\n' :: after))) = .ok asked)
    (block : extractGrids sourceId
      (String.ofList (before ++ (b.toChars ++ '\n' :: after))) = .ok gridded) :
    (questions (String.ofList asked.content)).map QuestionText.head =
        heads before ++ h.head :: heads after ∧
      (questions (String.ofList gridded.content)).map QuestionText.head =
        heads before ++ h.head.asGrid :: heads after := by
  constructor
  · rw [extractGrids_heads plain, String.toList_ofList,
      heads_boundary ends closes shape.id marked boundary]
  · rw [extractGrids_heads block, String.toList_ofList,
      heads_grid_boundary ends closes shape marked field boundary]

end Question

/-- Options with commas, brackets and blanks inside of their values and around them. -/
def nestedOptions : List Char :=
  " displayif = count(A, (B, C)) > 1 ,end , note=(x, y] z),loop=1,bound=N,max=3, iteration=1,base=Q".toList

/-- A mandatory grid with these options as its arguments. -/
def nestedGrid : GridBlock where
  indent := []
  gap := [' ']
  id := ['Q']
  args := '!' :: ',' :: nestedOptions
  shared := "Rate".toList
  rows := "R=first".toList
  columns := "1=yes".toList

/-- What the header with these options declares. -/
def nestedHead : Head where
  id := "Q"
  directives :=
    { displayIf := some "count(A, (B, C)) > 1"
      isEnd := true
      mandate := .hard
      loopEntry := some ⟨1, "N", 3, 1, "Q"⟩
      extra := [("note", some "(x, y] z)")] }

theorem nestedGrid_wellFormed : nestedGrid.WellFormed where
  indent := blanks_nil
  gap := List.forall_mem_singleton.2 rfl
  gap_some := List.cons_ne_nil _ _
  id := ⟨'Q', [], rfl, rfl, nofun⟩
  args := by decide +kernel
  shared := by decide +kernel
  rows := by decide +kernel
  columns := by decide +kernel

theorem nestedGrid_questions : ∃ asked gridded,
    extractGrids "s" (String.ofList ("[A]\n".toList ++
      (boundaryText ['Q'] ['!'] nestedOptions ++ '\n' :: "[END]".toList))) = .ok asked ∧
    extractGrids "s" (String.ofList ("[A]\n".toList ++
      (nestedGrid.toChars ++ '\n' :: "[END]".toList))) = .ok gridded ∧
    (questions (String.ofList asked.content)).map QuestionText.head =
      heads "[A]\n".toList ++ nestedHead :: heads "[END]".toList ∧
    (questions (String.ofList gridded.content)).map QuestionText.head =
      heads "[A]\n".toList ++ nestedHead.asGrid :: heads "[END]".toList := by
  have closed : ((takeHeaderLine? (boundaryText ['Q'] ['!'] nestedOptions)).map fun read =>
      (read.1.head, read.2)) = some (nestedHead, []) := by
    decide +kernel
  have plain : ((extractGrids "s" (String.ofList ("[A]\n".toList ++
      (boundaryText ['Q'] ['!'] nestedOptions ++ '\n' :: "[END]".toList)))).toOption.map
        fun _ => ()) = some () := by
    decide +kernel
  have block : ((extractGrids "s" (String.ofList ("[A]\n".toList ++
      (nestedGrid.toChars ++ '\n' :: "[END]".toList)))).toOption.map fun _ => ()) = some () := by
    decide +kernel
  obtain ⟨⟨h, rest⟩, boundary, same⟩ := Option.map_eq_some_iff.1 closed
  obtain ⟨declared, behind⟩ := Prod.mk.inj same
  subst behind
  obtain ⟨without, asked, -⟩ := exists_ok_of_map plain
  obtain ⟨grids, gridded, -⟩ := exists_ok_of_map block
  refine ⟨without, grids, asked, gridded, ?_⟩
  rw [← declared]
  exact questions_of_grid_arguments (endsLine_concat "[A]".toList) (by decide +kernel)
    nestedGrid_wellFormed (.inr (.inl rfl)) .joined boundary asked gridded

end Definition

end Questionnaire
