import Questionnaire.Proofs.Definition.Entry

/-! The argument field of a grid, cut into the options of the header that stands for it. A
field whose header closes leaves no parenthesis open, so that options behind it are cut off
as they are. -/
namespace Questionnaire.Definition

open Text

/-! ### Cutting at commas -/

theorem splitTopLevel_cons (depth : Nat) (cs : List Char) :
    ∃ piece pieces, splitTopLevel depth cs = piece :: pieces := by
  cases cs with
  | nil => exact ⟨[], [], rfl⟩
  | cons c cs =>
    unfold splitTopLevel
    split
    · exact ⟨_, _, rfl⟩
    · dsimp only
      split
      · exact ⟨_, _, rfl⟩
      · exact ⟨_, _, rfl⟩

theorem splitTopLevel_comma (cs : List Char) :
    splitTopLevel 0 (',' :: cs) = [] :: splitTopLevel 0 cs := rfl

/-- What is no comma outside of parentheses goes to the first piece. -/
theorem splitTopLevel_inside {depth : Nat} {c : Char} {cs piece : List Char}
    {pieces : List (List Char)} (inside : ¬(c = ',' ∧ depth = 0))
    (split : splitTopLevel (depthBehind depth c) cs = piece :: pieces) :
    splitTopLevel depth (c :: cs) = (c :: piece) :: pieces := by
  have other : (c == ',' && depth == 0) = false := by simpa using inside
  unfold depthBehind at split
  rw [splitTopLevel, other]
  simp only [Bool.false_eq_true, if_false, split]

/-- A comma that stands outside of parentheses cuts, whatever stands in front of it. -/
theorem splitTopLevel_append_comma {depth : Nat} {cs : List Char}
    (closed : cs.foldl depthBehind depth = 0) (ds : List Char) :
    splitTopLevel depth (cs ++ ',' :: ds) = splitTopLevel depth cs ++ splitTopLevel 0 ds := by
  induction cs generalizing depth with
  | nil =>
    obtain rfl : depth = 0 := closed
    rfl
  | cons c cs ih =>
    rw [List.foldl_cons] at closed
    by_cases cut : c = ',' ∧ depth = 0
    · obtain ⟨rfl, rfl⟩ := cut
      change cs.foldl depthBehind 0 = 0 at closed
      rw [List.cons_append, splitTopLevel_comma, splitTopLevel_comma, ih closed]
      rfl
    · obtain ⟨piece, pieces, split⟩ := splitTopLevel_cons (depthBehind depth c) cs
      have joined := ih closed
      rw [split] at joined
      rw [List.cons_append, splitTopLevel_inside cut joined, splitTopLevel_inside cut split]
      rfl

/-- A character that neither cuts nor changes the depth. -/
structure Inert (c : Char) : Prop where
  comma : c ≠ ','
  opens : c ≠ '('
  closes : c ≠ ')'

/-- Inert characters in front of a text go to its first piece. -/
theorem splitTopLevel_inert_append {bs : List Char} (inert : ∀ c ∈ bs, Inert c) {depth : Nat}
    {cs piece : List Char} {pieces : List (List Char)}
    (split : splitTopLevel depth cs = piece :: pieces) :
    splitTopLevel depth (bs ++ cs) = (bs ++ piece) :: pieces := by
  induction bs with
  | nil => exact split
  | cons c bs ih =>
    obtain ⟨here, rest⟩ := List.forall_mem_cons.1 inert
    apply splitTopLevel_inside (fun cut => here.comma cut.1)
    rw [depthBehind_plain here.opens here.closes]
    exact ih rest

theorem splitTopLevel_inert {cs : List Char} (inert : ∀ c ∈ cs, Inert c) (depth : Nat) :
    splitTopLevel depth cs = [cs] := by
  have split := @splitTopLevel_inert_append cs inert depth [] [] [] rfl
  rwa [List.append_nil] at split

/-- Inert characters behind a text go to its last piece. -/
theorem splitTopLevel_append_inert {bs : List Char} (inert : ∀ c ∈ bs, Inert c) (depth : Nat)
    (cs : List Char) : ∃ front last, splitTopLevel depth cs = front ++ [last] ∧
      splitTopLevel depth (cs ++ bs) = front ++ [last ++ bs] := by
  induction cs generalizing depth with
  | nil => exact ⟨[], [], rfl, splitTopLevel_inert inert depth⟩
  | cons c cs ih =>
    by_cases cut : c = ',' ∧ depth = 0
    · obtain ⟨rfl, rfl⟩ := cut
      obtain ⟨front, last, split, joined⟩ := ih 0
      refine ⟨[] :: front, last, ?_, ?_⟩
      · rw [splitTopLevel_comma, split]
        rfl
      · rw [List.cons_append, splitTopLevel_comma, joined]
        rfl
    · obtain ⟨front, last, split, joined⟩ := ih (depthBehind depth c)
      cases front with
      | nil =>
        exact ⟨[], c :: last, splitTopLevel_inside cut split, splitTopLevel_inside cut joined⟩
      | cons piece front =>
        exact ⟨(c :: piece) :: front, last, splitTopLevel_inside cut split,
          splitTopLevel_inside cut joined⟩

/-! ### Arguments -/

theorem trimChars_append_blanks {bs : List Char} (blanks : ∀ c ∈ bs, isBlank c = true)
    (cs : List Char) : trimChars (cs ++ bs) = trimChars cs := by
  have back : bs.reverse.dropWhile isBlank = [] := by
    rw [List.dropWhile_eq_nil_iff]
    intro c member
    exact blanks c (List.mem_reverse.1 member)
  rw [trimChars, trimChars, trimStartChars, trimStartChars, List.dropWhile_append]
  split
  · next none =>
    rw [List.isEmpty_iff] at none
    have front : bs.dropWhile isBlank = [] := List.dropWhile_eq_nil_iff.2 blanks
    rw [none, front]
  · rw [trimEndChars, trimEndChars, List.reverse_append, List.dropWhile_append, back]
    rfl

theorem trimEndChars_cons {c : Char} (unblank : isBlank c = false) (cs : List Char) :
    trimEndChars (c :: cs) = c :: trimEndChars cs := by
  have stop : ∀ x ∈ [c].head?, isBlank x = false := by
    intro x head
    obtain rfl := Option.some.inj head
    exact unblank
  rw [trimEndChars, List.reverse_cons, dropWhile_append_stop _ stop, List.reverse_append]
  rfl

theorem inert_of_blank {c : Char} (blank : isBlank c = true) : Inert c := by
  have other {d : Char} (unblank : isBlank d = false) : c ≠ d := ne_of_holds blank unblank
  exact ⟨other rfl, other rfl, other rfl⟩

theorem argumentOptions_append_blanks {bs : List Char} (blanks : ∀ c ∈ bs, isBlank c = true)
    (cs : List Char) : argumentOptions (cs ++ bs) = argumentOptions cs := by
  obtain ⟨front, last, split, joined⟩ :=
    splitTopLevel_append_inert (fun c member => inert_of_blank (blanks c member)) 0 cs
  rw [argumentOptions, argumentOptions, split, joined, List.map_append, List.map_append,
    List.map_singleton, List.map_singleton, trimChars_append_blanks blanks]

/-- Only blanks are missing at the end. -/
theorem exists_trimEndChars (cs : List Char) :
    ∃ bs, cs = trimEndChars cs ++ bs ∧ ∀ c ∈ bs, isBlank c = true := by
  refine ⟨(cs.reverse.takeWhile isBlank).reverse, ?_, fun c member => ?_⟩
  · rw [trimEndChars, ← List.reverse_append, List.takeWhile_append_dropWhile, List.reverse_reverse]
  · exact List.mem_takeWhile_imp (List.mem_reverse.1 member)

theorem argumentOptions_trimEnd (cs : List Char) :
    argumentOptions (trimEndChars cs) = argumentOptions cs := by
  obtain ⟨bs, whole, blanks⟩ := exists_trimEndChars cs
  conv_rhs => rw [whole]
  rw [argumentOptions_append_blanks blanks]

/-- Between a mandate and the options. -/
def separates (c : Char) : Bool := c == ',' || c == ' '

theorem argumentOptions_blank {c : Char} (blank : isBlank c = true) (cs : List Char) :
    argumentOptions (c :: cs) = argumentOptions cs := by
  obtain ⟨piece, pieces, split⟩ := splitTopLevel_cons 0 cs
  have extended : splitTopLevel 0 (c :: cs) = (c :: piece) :: pieces :=
    @splitTopLevel_inert_append [c] (by simpa using inert_of_blank blank) 0 cs piece pieces split
  have trimmed : trimChars (c :: piece) = trimChars piece := by
    rw [trimChars, trimStartChars, List.dropWhile_cons_of_pos blank]
    rfl
  rw [argumentOptions, argumentOptions, split, extended, List.map_cons, List.map_cons, trimmed]

theorem argumentOptions_separator {c : Char} (separator : separates c = true) (cs : List Char) :
    argumentOptions (c :: cs) = argumentOptions cs := by
  rw [separates, Bool.or_eq_true, beq_iff_eq, beq_iff_eq] at separator
  rcases separator with rfl | rfl
  · rfl
  · exact argumentOptions_blank rfl cs

theorem argumentOptions_dropWhile (cs : List Char) :
    argumentOptions (cs.dropWhile separates) = argumentOptions cs := by
  induction cs with
  | nil => rfl
  | cons c cs ih =>
    rw [List.dropWhile_cons]
    split
    · next separator => rw [argumentOptions_separator separator, ih]
    · rfl

/-! ### Parentheses -/

def parens (cs : List Char) : List Char := cs.filter fun c => c == '(' || c == ')'

theorem parens_append (cs ds : List Char) : parens (cs ++ ds) = parens cs ++ parens ds :=
  List.filter_append ..

theorem foldl_parens (cs : List Char) (depth : Nat) :
    (parens cs).foldl depthBehind depth = cs.foldl depthBehind depth := by
  induction cs generalizing depth with
  | nil => rfl
  | cons c cs ih =>
    rw [parens, List.filter_cons]
    split
    · exact ih _
    · next plain =>
      simp only [Bool.or_eq_true, beq_iff_eq, not_or] at plain
      rw [List.foldl_cons, depthBehind_plain plain.1 plain.2]
      exact ih depth

theorem parens_inert {cs : List Char} (inert : ∀ c ∈ cs, Inert c) : parens cs = [] := by
  rw [parens, List.filter_eq_nil_iff]
  intro c member
  simpa using ⟨(inert c member).opens, (inert c member).closes⟩

theorem parens_trim (cs : List Char) : parens (trimChars cs) = parens cs := by
  have front (cs : List Char) : parens (cs.dropWhile isBlank) = parens cs := by
    have inert : ∀ c ∈ cs.takeWhile isBlank, Inert c := by
      intro c member
      exact inert_of_blank (List.mem_takeWhile_imp member)
    rw [← List.takeWhile_append_dropWhile (p := isBlank) (l := cs), parens_append,
      parens_inert inert, List.nil_append, List.takeWhile_append_dropWhile]
  have back (cs : List Char) : parens cs.reverse = (parens cs).reverse := List.filter_reverse ..
  rw [trimChars, trimEndChars, back, front, back, List.reverse_reverse, trimStartChars, front]

theorem parens_splitTopLevel (depth : Nat) (cs : List Char) :
    (splitTopLevel depth cs).flatMap parens = parens cs := by
  induction cs generalizing depth with
  | nil => rfl
  | cons c cs ih =>
    by_cases cut : c = ',' ∧ depth = 0
    · obtain ⟨rfl, rfl⟩ := cut
      rw [splitTopLevel_comma, List.flatMap_cons, ih]
      rfl
    · obtain ⟨piece, pieces, split⟩ := splitTopLevel_cons (depthBehind depth c) cs
      have whole := ih (depthBehind depth c)
      rw [split, List.flatMap_cons] at whole
      rw [splitTopLevel_inside cut split, List.flatMap_cons, ← List.singleton_append,
        parens_append, List.append_assoc, whole, ← parens_append]
      rfl

/-- No parenthesis is lost between a field and its options. -/
theorem parens_arguments (cs : List Char) :
    parens ((argumentOptions cs).flatMap (',' :: ·)) = parens cs := by
  have kept (pieces : List (List Char)) :
      parens (((pieces.map trimChars).filter (!·.isEmpty)).flatMap (',' :: ·)) =
        pieces.flatMap parens := by
    induction pieces with
    | nil => rfl
    | cons piece pieces ih =>
      have comma (cs : List Char) : parens (',' :: cs) = parens cs := rfl
      rw [List.map_cons, List.filter_cons, List.flatMap_cons, ← ih, ← parens_trim piece]
      split
      · rw [List.flatMap_cons, parens_append, comma]
      · next none =>
        have none : trimChars piece = [] := by simpa using none
        rw [none]
        rfl
  rw [argumentOptions, kept, parens_splitTopLevel]

/-! ### Mandates -/

def isMandate (c : Char) : Bool := c == '!' || c == '?'

theorem exists_mandate (cs : List Char) : ∃ mark body, cs = mark ++ body ∧ IsMark mark ∧
    (mark = [] → ∀ c ∈ body.head?, isMandate c = false) := by
  cases cs with
  | nil => exact ⟨[], [], rfl, .inl rfl, fun _ c head => by cases head⟩
  | cons c cs =>
    cases marks : isMandate c with
    | true =>
      refine ⟨[c], cs, rfl, ?_, fun none => by cases none⟩
      rw [isMandate, Bool.or_eq_true, beq_iff_eq, beq_iff_eq] at marks
      rcases marks with rfl | rfl
      · exact .inr (.inl rfl)
      · exact .inr (.inr rfl)
    | false =>
      refine ⟨[], c :: cs, rfl, .inl rfl, fun _ d head => ?_⟩
      obtain rfl := Option.some.inj head
      exact marks

/-- The mandate of a field, and what its options are cut from. -/
theorem takeMandate_of {args mark body : List Char} (marked : IsMark mark)
    (field : trimStartChars args = mark ++ body)
    (plain : mark = [] → ∀ c ∈ body.head?, isMandate c = false) :
    (takeMandate args).1 = mark ∧
      argumentOptions (takeMandate args).2 = argumentOptions body := by
  have unblank := head?_dropWhile_not isBlank args
  change ∀ c ∈ (trimStartChars args).head?, isBlank c = false at unblank
  rw [field] at unblank
  have marks {c : Char} (mandate : isMandate c = true) (start : isBlank c = false)
      (same : trimStartChars args = c :: body) : (takeMandate args).1 = [c] ∧
        argumentOptions (takeMandate args).2 = argumentOptions body := by
    have read : takeMandate args = ([c], (trimEndChars body).dropWhile separates) := by
      rw [takeMandate, trimChars, same, trimEndChars_cons start]
      exact if_pos mandate
    rw [read, argumentOptions_dropWhile, argumentOptions_trimEnd]
    exact ⟨rfl, rfl⟩
  rcases marked with rfl | rfl | rfl
  · rw [List.nil_append] at field unblank
    cases body with
    | nil =>
      rw [takeMandate, trimChars, field]
      exact ⟨rfl, rfl⟩
    | cons c body =>
      have other := plain rfl c rfl
      have read : takeMandate args = ([], trimEndChars (c :: body)) := by
        rw [takeMandate, trimChars, field, trimEndChars_cons (unblank c rfl)]
        exact if_neg (Bool.eq_false_iff.1 other)
      rw [read, argumentOptions_trimEnd]
      exact ⟨rfl, rfl⟩
  · exact marks rfl (unblank '!' rfl) field
  · exact marks rfl (unblank '?' rfl) field

/-! ### Options behind a field -/

/-- An item of a field that no comma cuts, with all parentheses closed at its end. -/
structure Uncut (item : List Char) : Prop where
  split : splitTopLevel 0 item = [item]
  closed : item.foldl depthBehind 0 = 0

theorem splitTopLevel_append_items {items : List (List Char)}
    (uncut : ∀ item ∈ items, Uncut item) {cs : List Char}
    (closed : cs.foldl depthBehind 0 = 0) :
    splitTopLevel 0 (cs ++ items.flatMap (',' :: ·)) = splitTopLevel 0 cs ++ items := by
  induction items generalizing cs with
  | nil => rw [List.flatMap_nil, List.append_nil, List.append_nil]
  | cons item items ih =>
    obtain ⟨here, rest⟩ := List.forall_mem_cons.1 uncut
    rw [List.flatMap_cons, List.cons_append, splitTopLevel_append_comma closed,
      ih rest here.closed, here.split]
    rfl

theorem follows_items (items : List (List Char)) {t : List Char} (follows : Follows t) :
    Follows (items.flatMap (',' :: ·) ++ t) := by
  intro c head
  cases items with
  | nil => exact follows c head
  | cons item items =>
    obtain rfl := Option.some.inj head
    rfl

/-- An item of a field that is cut off as it is written. -/
structure Item (item : List Char) : Prop where
  some : item ≠ []
  inert : ∀ c ∈ item, Inert c
  unblank : ∀ c ∈ item, isBlank c = false

theorem Item.uncut {item : List Char} (shape : Item item) : Uncut item := by
  refine ⟨splitTopLevel_inert shape.inert 0, ?_⟩
  rw [← foldl_parens, parens_inert shape.inert]
  rfl

theorem argumentOptions_append_items {items : List (List Char)} (shape : ∀ item ∈ items, Item item)
    {cs : List Char} (closed : cs.foldl depthBehind 0 = 0) :
    argumentOptions (cs ++ items.flatMap (',' :: ·)) = argumentOptions cs ++ items := by
  have uncut : ∀ item ∈ items, Uncut item := fun item member => (shape item member).uncut
  have trimmed : items.map trimChars = items := by
    calc items.map trimChars = items.map id := by
          apply List.map_congr_left
          intro item member
          exact trimChars_plain (shape item member).unblank
      _ = items := List.map_id items
  rw [argumentOptions, argumentOptions, splitTopLevel_append_items uncut closed, List.map_append,
    List.filter_append, trimmed]
  congr 1
  rw [List.filter_eq_self]
  intro item member
  simpa using (shape item member).some

/-- Options that are written behind a field are read behind its options. -/
theorem gridOptions_append_items {args : List Char} {items : List (List Char)}
    (shape : ∀ item ∈ items, Item item) (paired : Paired (gridOptions args)) :
    (takeMandate (args ++ items.flatMap (',' :: ·))).1 = (takeMandate args).1 ∧
      gridOptions (args ++ items.flatMap (',' :: ·)) =
        gridOptions args ++ items.flatMap (',' :: ·) := by
  obtain ⟨mark, body, field, marked, plain⟩ := exists_mandate (trimStartChars args)
  obtain ⟨mandate, options⟩ := takeMandate_of marked field plain
  have closed : body.foldl depthBehind 0 = 0 := by
    have depth := paired 0
    rw [gridOptions, ← foldl_parens, parens_append, options, parens_arguments] at depth
    rw [← foldl_parens]
    exact depth
  have comma : ∀ c ∈ (items.flatMap (',' :: ·)).head?, c = ',' := by
    cases items with
    | nil => intro c head; cases head
    | cons item items =>
      intro c head
      exact (Option.some.inj head).symm
  have joined : trimStartChars (args ++ items.flatMap (',' :: ·)) =
      mark ++ (body ++ items.flatMap (',' :: ·)) := by
    rw [trimStartChars, dropWhile_append_stop args, ← List.append_assoc, ← field]
    · rfl
    · intro c head
      rw [comma c head]
      rfl
  have other : mark = [] → ∀ c ∈ (body ++ items.flatMap (',' :: ·)).head?, isMandate c = false := by
    intro none c head
    cases body with
    | nil =>
      rw [comma c head]
      rfl
    | cons d body => exact plain none c head
  obtain ⟨same, further⟩ := takeMandate_of marked joined other
  refine ⟨same.trans mandate.symm, ?_⟩
  rw [gridOptions, gridOptions, further, options, argumentOptions_append_items shape closed,
    List.flatMap_append, List.append_assoc]

/-! ### The annotated grid -/

/-- The options of an annotation without their commas. -/
def noteItems (loop : LoopHeader) (iteration : Nat) (stem : String) : List (List Char) :=
  (noteOptions loop iteration stem).map fun o => o.1.toList ++ '=' :: (o.2.getD "").toList

theorem noteItems_toList (loop : LoopHeader) (iteration : Nat) (stem : String) :
    (noteItems loop iteration stem).flatMap (',' :: ·) =
      ( annotation loop iteration stem).toList := by
  rw [annotation_toList]
  simp [noteItems, noteOptions, noteText]

/-- A character of an annotation that is no comma. -/
structure ItemChar (c : Char) : Prop where
  inert : Inert c
  unblank : isBlank c = false
  bar : c ≠ '|'

theorem NoteChar.itemChar {c : Char} (note : NoteChar c) : ItemChar c := by
  have kept := note.kept
  simp only [endsValue, Bool.or_eq_false_iff, beq_eq_false_iff_ne] at kept
  exact ⟨⟨kept.2.1, note.opens, note.closes⟩, note.unblank, note.bar⟩

theorem noteItems_chars {loop : LoopHeader} {iteration : Nat} {stem : String}
    (bound : isIdentifier loop.bound = true) (stemmed : ∀ c ∈ stem.toList, isNoteChar c = true) :
    ∀ item ∈ noteItems loop iteration stem, item ≠ [] ∧ ∀ c ∈ item, ItemChar c := by
  have shape {key value : String} (named : ∀ c ∈ key.toList, isNoteChar c = true)
      (plain : ∀ c ∈ value.toList, isNoteChar c = true) :
      key.toList ++ '=' :: value.toList ≠ [] ∧
        ∀ c ∈ key.toList ++ '=' :: value.toList, ItemChar c := by
    refine ⟨by simp, ?_⟩
    rw [List.forall_mem_append, List.forall_mem_cons]
    refine ⟨fun c member => (noteChar (named c member)).itemChar, ?_,
      fun c member => (noteChar (plain c member)).itemChar⟩
    exact ⟨⟨by decide, by decide, by decide⟩, by decide, by decide⟩
  simp only [noteItems, noteOptions, List.map_cons, List.map_nil, List.forall_mem_cons]
  have word {key : String} (letters : key.toList.all isNoteChar = true) :
      ∀ c ∈ key.toList, isNoteChar c = true := List.all_eq_true.1 letters
  refine ⟨shape (word rfl) (toString_noteChar _), shape (word rfl) (identifier_noteChar bound),
    shape (word rfl) (toString_noteChar _), shape (word rfl) (toString_noteChar _),
    shape (word rfl) stemmed, ?_⟩
  intro item member
  cases member

theorem oneLine_id {id : List Char} (shaped : IsQuestionId (String.ofList id)) : OneLine id := by
  have kept := shaped.chars
  rw [String.toList_ofList] at kept
  exact oneLine_of_holds kept rfl rfl

theorem IsMark.oneLine {mark : List Char} (marked : IsMark mark) : OneLine mark := by
  rcases marked with rfl | rfl | rfl
  · intro c member; cases member
  · exact oneLine_single rfl
  · exact oneLine_single rfl

/-- No blanks are left between the options of a header and the bracket that closes it. -/
theorem takeOptions_closing {cs rest : List Char} (start : ∀ c ∈ cs.head?, isLineBlank c = false)
    (closes : stripLeading? [']'] (skipLineBlanks (takeOptions cs).2) = some rest) :
    (takeOptions cs).2 = ']' :: rest := by
  obtain ⟨p, -, -, rests⟩ := takeOptions_sound cs
  obtain ⟨-, unblank⟩ := rests start
  have bare := stripLeading?_single closes
  generalize (takeOptions cs).2 = tail at bare unblank
  cases tail with
  | nil => cases bare
  | cons c tail =>
    rwa [skipLineBlanks, List.dropWhile_cons, if_neg (by simp [unblank c rfl])] at bare

/-- What a header declares. -/
def Header.head (h : Header) : Head := ⟨h.id, h.directives⟩

/-- A line that is a header and nothing else. -/
theorem lineHeads_headerText {id mark t : List Char} {h : Header}
    (shaped : IsQuestionId (String.ofList id)) (marked : IsMark mark) (follows : Follows t)
    (some : t ≠ []) (oneLine : OneLine t)
    (read : takeHeaderLine? (headerText id mark t ++ ['\n']) = Option.some (h, ['\n'])) :
    lineHeads (headerText id mark t ++ ['\n']) = [h.head] := by
  have line : OneLine (headerText id mark t) :=
    List.forall_mem_cons.2 ⟨rfl, (oneLine_id shaped).append (marked.oneLine.append oneLine)⟩
  have further : furtherHeads ['\n'] = [] := rfl
  have behind := takeHeaderLine?_lineEnd (lineEnd_feed []) (headerText id mark t)
  rw [read] at behind
  obtain ⟨⟨h', rest⟩, closed, same⟩ := Option.map_eq_some_iff.1 behind.symm
  obtain rfl := (Prod.mk.inj same).1
  have head := headOf?_headerText shaped marked follows some blanks_nil
  rw [List.nil_append, closed] at head
  rw [lineHeads_oneLine line, headOf?_lineEnd (lineEnd_feed []), head, further]
  rfl

namespace GridBlock
variable {b : GridBlock} {h : Header} {loop : LoopHeader} {iteration : Nat}

/-- A grid with the annotation of an iteration. -/
def annotate (b : GridBlock) (loop : LoopHeader) (iteration : Nat) : GridBlock :=
  { b with args := b.args ++ noteOf loop iteration b.id }

/-- The header that stands for a grid closes at its end. -/
def ReadsAs (b : GridBlock) (h : Header) : Prop :=
  takeHeaderLine? (placeholder b) = some (h, ['\n'])

theorem noteItems_of (words : Words loop iteration) (shape : b.WellFormed) :
    ∀ item ∈ noteItems loop iteration (String.ofList (stemOf b.id iteration)),
      item ≠ [] ∧ ∀ c ∈ item, ItemChar c :=
  noteItems_chars words.bound (stemOf_noteChar shape.id iteration)

theorem WellFormed.annotate (words : Words loop iteration) (shape : b.WellFormed) :
    (b.annotate loop iteration).WellFormed := by
  refine { shape with args := ?_ }
  change '|' ∉ b.args ++ noteOf loop iteration b.id
  rw [noteOf, ← noteItems_toList, List.mem_append, not_or, List.mem_flatMap]
  refine ⟨shape.args, ?_⟩
  rintro ⟨item, member, bar⟩
  rcases List.mem_cons.1 bar with comma | inside
  · cases comma
  · exact ((noteItems_of words shape item member).2 '|' inside).bar rfl

theorem placeholder_headerText (b : GridBlock) : placeholder b =
    headerText b.id (takeMandate b.args).1 (gridOptions b.args ++ [']', '\n']) :=
  placeholder_eq b

theorem isMark_takeMandate (args : List Char) : IsMark (takeMandate args).1 := by
  obtain ⟨mark, body, field, marked, plain⟩ := exists_mandate (trimStartChars args)
  rw [(takeMandate_of marked field plain).1]
  exact marked

theorem follows_gridOptions (args t : List Char) : Follows (gridOptions args ++ t) := by
  intro c head
  obtain rfl := Option.some.inj head
  rfl

/-- Where the header of a grid closes at its end, its options are those of the field. -/
theorem ReadsAs.options (reads : b.ReadsAs h) (shape : b.WellFormed) :
    OptionsText (gridOptions b.args) h.options := by
  have closed := reads
  rw [ReadsAs, placeholder_headerText, takeHeaderLine?_headerText shape.id (isMark_takeMandate _)
    (follows_gridOptions _ _)] at closed
  obtain ⟨rest, bracket, same⟩ := Option.map_eq_some_iff.1 closed
  obtain ⟨rfl, rfl⟩ := Prod.mk.inj same
  obtain ⟨p, whole, text, -⟩ := takeOptions_sound (gridOptions b.args ++ [']', '\n'])
  rw [takeOptions_closing ((follows_gridOptions _ _).stop rfl rfl) bracket] at whole
  obtain rfl := List.append_cancel_right whole
  exact text

theorem ReadsAs.id_eq (reads : b.ReadsAs h) (shape : b.WellFormed) :
    h.id = String.ofList b.id := by
  rw [ReadsAs, placeholder_headerText, takeHeaderLine?_headerText shape.id (isMark_takeMandate _)
    (follows_gridOptions _ _)] at reads
  obtain ⟨rest, -, same⟩ := Option.map_eq_some_iff.1 reads
  rw [← (Prod.mk.inj same).1]

/-- A grid whose header closes at its end is read as that header and nothing else. -/
theorem ReadsAs.lineHeads (reads : b.ReadsAs h) (shape : b.WellFormed) :
    lineHeads (placeholder b) = [h.head] := by
  have split : placeholder b =
      headerText b.id (takeMandate b.args).1 (gridOptions b.args ++ [']']) ++ ['\n'] := by
    simp [placeholder_eq, headerText]
  have read := reads
  rw [ReadsAs, split] at read
  rw [split]
  exact lineHeads_headerText shape.id (isMark_takeMandate b.args) (follows_gridOptions _ _)
    (by simp) ((reads.options shape).oneLine.append (oneLine_single rfl)) read

/-- What the field of a grid is read as, the header in its place declares. -/
theorem readsAs_of_options {os : List (String × Option String)} (shape : b.WellFormed)
    (text : OptionsText (gridOptions b.args) os) :
    b.ReadsAs ⟨String.ofList b.id, (takeMandateMark (takeMandate b.args).1).1, os⟩ := by
  have closing : takeOptions [']', '\n'] = ([], [']', '\n']) := by
    rw [takeOptions_none]
    rfl
  have follows : Follows [']', '\n'] := by
    intro c head
    obtain rfl := Option.some.inj head
    rfl
  rw [ReadsAs, placeholder_headerText, takeHeaderLine?_headerText shape.id (isMark_takeMandate _)
    (follows_gridOptions _ _), text.reads _ follows, closing, List.append_nil]
  rfl

/-- With the annotation behind its arguments the header of a grid still closes at its end, and
then declares the iteration. -/
theorem ReadsAs.annotated (reads : b.ReadsAs h) (shape : b.WellFormed)
    (unnoted : Unnoted h.options) (words : Words loop iteration) :
    ∃ head, Definition.lineHeads (placeholder (b.annotate loop iteration)) = [head] ∧
      Annotates loop iteration b.id head := by
  have text := reads.options shape
  have note := noteOf_options words shape.id
  have items : ∀ item ∈ noteItems loop iteration (String.ofList (stemOf b.id iteration)),
      Item item := by
    intro item member
    obtain ⟨some, chars⟩ := noteItems_of words shape item member
    exact ⟨some, fun c inside => (chars c inside).inert, fun c inside => (chars c inside).unblank⟩
  obtain ⟨mandate, options⟩ := gridOptions_append_items items text.paired
  rw [noteItems_toList] at mandate options
  change (takeMandate (b.annotate loop iteration).args).1 = _ at mandate
  change gridOptions (b.annotate loop iteration).args =
    gridOptions b.args ++ noteOf loop iteration b.id at options
  have comma : Follows (noteOf loop iteration b.id) := by
    rw [← List.append_nil (noteOf loop iteration b.id)]
    exact follows_noteOf []
  have whole := OptionsText.append text note comma
  rw [← options] at whole
  have read := readsAs_of_options (shape.annotate words) whole
  refine ⟨_, read.lineHeads (shape.annotate words), rfl, ?_⟩
  have split : h.options ++ noteOptions loop iteration (String.ofList (stemOf b.id iteration)) =
      h.options ++ (noteOptions loop iteration (String.ofList (stemOf b.id iteration)) ++ []) := by
    rw [List.append_nil]
  exact annotated_loopEntry split unnoted words.index words.maximum words.iteration

end GridBlock

end Questionnaire.Definition
