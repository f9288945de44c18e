import Questionnaire.Proofs.Definition.GridHeader

/-! The line that opens an iteration. The annotation is written into the first line that looks
like a header or a grid; where that line is read as one, the annotated text declares the
iteration there and everything else as before. -/
namespace Questionnaire.Definition

open Text

/-- A text cut in front of the first line with which an iteration can open. -/
def opening? (cs : List Char) : Option (List Char × List Char) :=
  match cs with
  | [] => none
  | c :: rest =>
    if (entryAhead? (c :: rest)).isSome then some ([], c :: rest)
    else
      (opening? (takeLine (c :: rest)).2).map fun cut =>
        ((takeLine (c :: rest)).1 ++ cut.1, cut.2)
termination_by cs.length
decreasing_by exact takeLine_rest_length c rest

/-- The annotation goes to the line that opens the text. -/
theorem entryPoint?_eq (cs : List Char) : entryPoint? cs =
    (opening? cs).bind fun cut =>
      (entryAhead? cut.2).map fun e => { e with before := cut.1 ++ e.before } := by
  induction h : cs.length using Nat.strongRecOn generalizing cs with
  | _ n ih =>
    subst h
    cases cs with
    | nil =>
      rw [entryPoint?.eq_def, opening?.eq_def]
      rfl
    | cons c rest =>
      rw [entryPoint?.eq_def, opening?.eq_def]
      cases ahead : entryAhead? (c :: rest) with
      | some e => simp [ahead]
      | none =>
        simp only [ahead, ih _ (takeLine_rest_length c rest) _ rfl, Option.isSome_none,
          Bool.false_eq_true, if_false]
        cases opening? (takeLine (c :: rest)).2 with
        | none => rfl
        | some cut =>
          simp only [Option.map_some, Option.bind_some]
          cases entryAhead? cut.2 with
          | none => rfl
          | some e => simp only [Option.map_some, List.append_assoc]

theorem takeLine_endsLine {cs : List Char} (further : (takeLine cs).2 ≠ []) :
    EndsLine (takeLine cs).1 := by
  induction cs with
  | nil => exact absurd rfl further
  | cons c cs ih =>
    unfold takeLine at further ⊢
    split
    · next feed =>
      intro d last
      obtain rfl := Option.some.inj last
      exact beq_iff_eq.1 feed
    · next other =>
      rw [if_neg other] at further
      have ends := ih further
      intro d last
      apply ends
      cases line : (takeLine cs).1 with
      | nil =>
        cases cs with
        | nil => exact absurd rfl further
        | cons x cs =>
          unfold takeLine at line
          split at line <;> contradiction
      | cons x line' =>
        rw [line] at last
        rwa [List.getLast?_cons_cons] at last

theorem opening?_sound {cs front rest : List Char} (opening : opening? cs = some (front, rest)) :
    cs = front ++ rest ∧ EndsLine front ∧ ∃ e, entryAhead? rest = some e := by
  induction h : cs.length using Nat.strongRecOn generalizing cs front with
  | _ n ih =>
    subst h
    cases cs with
    | nil =>
      rw [opening?.eq_def] at opening
      contradiction
    | cons c cs =>
      rw [opening?.eq_def] at opening
      simp only at opening
      split at opening
      · next ahead =>
        cases opening
        refine ⟨rfl, ?_, Option.isSome_iff_exists.1 ahead⟩
        intro d last
        cases last
      · obtain ⟨⟨more, behind⟩, found, same⟩ := Option.map_eq_some_iff.1 opening
        obtain ⟨rfl, rfl⟩ := Prod.mk.inj same
        obtain ⟨whole, ends, entry⟩ := ih _ (takeLine_rest_length c cs) found rfl
        have further : (takeLine (c :: cs)).2 ≠ [] := by
          intro none
          rw [none, opening?.eq_def] at found
          contradiction
        refine ⟨?_, (takeLine_endsLine further).append ends, entry⟩
        rw [List.append_assoc, ← whole, takeLine_append]

/-! ### What opens -/

/-- How an iteration opens: with a header up to its mandate, or with a grid up to the end of
its arguments. -/
inductive Opens : List Char → EntryPoint → Prop
  | header {bs id mark t : List Char} (blanks : Blanks bs)
      (shaped : IsQuestionId (String.ofList id)) (marked : IsMark mark) (follows : Follows t)
      (some : t ≠ []) :
      Opens (bs ++ headerText id mark t) ⟨bs ++ '[' :: id ++ mark, t, id⟩
  | grid {b : GridBlock} {more : List Char} (shape : b.WellFormed) :
      Opens (b.toChars ++ more)
        ⟨b.indent ++ GridBlock.keyword ++ b.gap ++ b.id ++ '|' :: b.args,
          '|' :: b.shared ++ '|' :: b.rows ++ '|' :: b.columns ++ '|' :: more, b.id⟩

theorem takeEntryHeader?_sound {line before id : List Char}
    (taken : takeEntryHeader? line = some (before, id)) :
    Opens line ⟨before, line.drop before.length, id⟩ := by
  simp only [takeEntryHeader?, takeRun, Option.bind_eq_bind, Option.bind_eq_some_iff] at taken
  obtain ⟨r₁, bracket, ⟨id', r₂⟩, named, c, next, taken⟩ := taken
  have bracket := stripLeading?_single bracket
  have whole := blanks_append_skip line
  have blanks := blanks_takeWhile line
  change skipLineBlanks line = _ at bracket
  rw [bracket, GridBlock.takeQuestionId?_append named] at whole
  generalize line.takeWhile isLineBlank = bs at whole blanks taken
  subst whole
  have opens {mark t : List Char} (marked : IsMark mark) (behind : r₂ = mark ++ t)
      (head : t.head? = some c) (ends : (c == ']' || c == ',') = true) :
      Opens (bs ++ '[' :: (id' ++ r₂)) ⟨bs ++ '[' :: id' ++ mark,
        (bs ++ '[' :: (id' ++ r₂)).drop (bs ++ '[' :: id' ++ mark).length, id'⟩ := by
    have same : bs ++ '[' :: (id' ++ r₂) = (bs ++ '[' :: id' ++ mark) ++ t := by
      rw [behind]
      simp
    have shown : bs ++ '[' :: (id' ++ r₂) = bs ++ headerText id' mark t := by
      rw [behind]
      rfl
    have follows : Follows t := by
      intro d first
      obtain rfl := Option.some.inj (head.symm.trans first)
      rwa [endsValue, Bool.or_comm]
    have some : t ≠ [] := by
      rintro rfl
      cases head
    have rest : (bs ++ '[' :: (id' ++ r₂)).drop (bs ++ '[' :: id' ++ mark).length = t := by
      rw [same]
      exact List.drop_left
    rw [rest, shown]
    exact .header blanks (takeQuestionId?_shape named) marked follows some
  split at taken
  · next ends =>
    cases taken
    dsimp only at next ⊢
    split at next
    · exact opens (.inr (.inl rfl)) rfl next ends
    · exact opens (.inr (.inr rfl)) rfl next ends
    · exact opens (.inl rfl) rfl next ends
  · contradiction

theorem entryAhead?_opens {cs : List Char} {e : EntryPoint} (ahead : entryAhead? cs = some e) :
    Opens cs e := by
  unfold entryAhead? at ahead
  split at ahead
  · next b more taken =>
    cases ahead
    have whole := GridBlock.take?_append taken
    have split : cs = (b.indent ++ GridBlock.keyword ++ b.gap ++ b.id ++ '|' :: b.args) ++
        ('|' :: b.shared ++ '|' :: b.rows ++ '|' :: b.columns ++ '|' :: more) := by
      rw [whole]
      simp [GridBlock.toChars]
    have rest : cs.drop (b.indent ++ GridBlock.keyword ++ b.gap ++ b.id ++ '|' :: b.args).length =
        '|' :: b.shared ++ '|' :: b.rows ++ '|' :: b.columns ++ '|' :: more := by
      rw [split]
      exact List.drop_left
    rw [rest, whole]
    exact .grid (GridBlock.take?_sound taken)
  · obtain ⟨⟨before, id⟩, taken, same⟩ := Option.map_eq_some_iff.1 ahead
    cases same
    exact takeEntryHeader?_sound taken

/-! ### Texts that end a line -/

theorem endsLine_append {cs ds : List Char} (some : ds ≠ []) :
    endsLine (cs ++ ds) = cs ++ endsLine ds := by
  have last : (cs ++ ds).getLast? = ds.getLast? := by
    rw [List.getLast?_append, List.getLast?_eq_some_getLast some, Option.some_or]
  rw [endsLine, endsLine, last]
  split
  · rfl
  · rw [List.append_assoc]

theorem endsLine_cases (cs : List Char) : endsLine cs = cs ∨ endsLine cs = cs ++ ['\n'] := by
  unfold endsLine
  split
  · exact .inl rfl
  · exact .inr rfl

theorem endsLine_ends (cs : List Char) : EndsLine (endsLine cs) := by
  unfold endsLine
  split
  · next feed =>
    intro c last
    rw [beq_iff_eq.1 feed] at last
    exact (Option.some.inj last).symm
  · exact endsLine_concat cs

theorem endsLine_ne_nil (cs : List Char) : endsLine cs ≠ [] := by
  unfold endsLine
  split
  · next feed =>
    rintro rfl
    cases feed
  · simp

/-- A text that ends its last line has a first line. -/
theorem endsLine_line (cs : List Char) :
    ∃ line rest, endsLine cs = line ++ '\n' :: rest ∧ '\n' ∉ line ∧ EndsLine rest :=
  (endsLine_ends cs).line (endsLine_ne_nil cs)

theorem follows_endsLine {cs : List Char} (follows : Follows cs) (some : cs ≠ []) :
    Follows (endsLine cs) := by
  cases cs with
  | nil => contradiction
  | cons c cs =>
    rcases endsLine_cases (c :: cs) with same | same
    · rwa [same]
    · rw [same]
      exact follows

/-! ### Header lines -/

section HeaderLine
variable {bs q : List Char}

theorem skip_bracket (blanks : Blanks bs) (t : List Char) :
    skipLineBlanks (bs ++ '[' :: t) = '[' :: t := by
  apply skipLineBlanks_append blanks
  intro c head
  obtain rfl := Option.some.inj head
  rfl

theorem opensGrid_bracket (blanks : Blanks bs) (t : List Char) :
    opensGrid (bs ++ '[' :: t) = false := by
  rw [opensGrid, skip_bracket blanks]
  rfl

/-- A line with a header is a piece of its own. -/
theorem pieces_bracket (blanks : Blanks bs) (oneLine : OneLine q) {line : List Char}
    (plain : '\n' ∉ line) (rest : List Char) :
    pieces (bs ++ '[' :: (q ++ (line ++ '\n' :: rest))) =
      .plain (bs ++ '[' :: (q ++ (line ++ ['\n']))) :: pieces rest := by
  have inside : '\n' ∉ bs ++ '[' :: (q ++ line) := by
    simp only [List.mem_append, List.mem_cons, not_or]
    refine ⟨fun member => ?_, by decide, fun member => ?_, plain⟩
    · cases blanks '\n' member
    · cases oneLine '\n' member
  have shape (t : List Char) : bs ++ '[' :: (q ++ (line ++ '\n' :: t)) =
      (bs ++ '[' :: (q ++ line)) ++ '\n' :: t := by simp
  rw [shape rest, shape [], pieces_plain inside]
  apply take?_none_of_line
  rw [← shape []]
  exact opensGrid_bracket blanks _

theorem closesGrids_bracket (blanks : Blanks bs) (oneLine : OneLine q) {line : List Char}
    (plain : '\n' ∉ line) (rest : List Char) :
    closesGrids (bs ++ '[' :: (q ++ (line ++ '\n' :: rest))) = closesGrids rest := by
  rw [closesGrids, pieces_bracket blanks oneLine plain, List.all_cons]
  change (!opensGrid (bs ++ '[' :: (q ++ (line ++ ['\n']))) && closesGrids rest) = _
  rw [opensGrid_bracket blanks]
  rfl

/-- Behind the front of a header line nothing depends on it. -/
theorem heads_bracket (blanks : Blanks bs) (oneLine : OneLine q) {line : List Char}
    (plain : '\n' ∉ line) (rest : List Char) :
    heads (bs ++ '[' :: (q ++ (line ++ '\n' :: rest))) =
      (headOf? (bs ++ '[' :: (q ++ (line ++ '\n' :: rest)))).toList ++
        (furtherHeads (line ++ ['\n']) ++ heads rest) := by
  have front : OneLine (bs ++ '[' :: q) :=
    blanks.oneLine.append (List.forall_mem_cons.2 ⟨rfl, oneLine⟩)
  have shape (t : List Char) : bs ++ '[' :: (q ++ t) = (bs ++ '[' :: q) ++ t := by simp
  have ends : EndsLine ((bs ++ '[' :: q) ++ (line ++ ['\n'])) := by
    rw [← List.append_assoc]
    exact endsLine_concat _
  have same : headOf? ((bs ++ '[' :: q) ++ (line ++ ['\n'])) =
      headOf? ((bs ++ '[' :: q) ++ (line ++ '\n' :: rest)) := by
    rw [← List.append_assoc, ← List.append_assoc, headOf?_lineEnd (lineEnd_feed []),
      headOf?_lineEnd (lineEnd_feed rest)]
  rw [heads, content, pieces_bracket blanks oneLine plain, List.flatMap_cons]
  change lineHeads (bs ++ '[' :: (q ++ (line ++ ['\n'])) ++ content rest) = _
  rw [shape, shape, lineHeads_append ends, lineHeads_oneLine front, same, List.append_assoc]
  rfl

end HeaderLine

/-! ### Grids -/

section Grid
variable {b : GridBlock} {line rest : List Char}

theorem closesGrids_grid (shape : b.WellFormed) (plain : '\n' ∉ line) :
    closesGrids (b.toChars ++ (line ++ '\n' :: rest)) =
      (!opensGrid (line ++ ['\n']) && closesGrids rest) := by
  rw [closesGrids, pieces_grid plain (GridBlock.take?_complete shape _)]
  rfl

theorem heads_grid (shape : b.WellFormed) (plain : '\n' ∉ line) :
    heads (b.toChars ++ (line ++ '\n' :: rest)) =
      lineHeads (placeholder b) ++ lineHeads (line ++ ['\n'] ++ content rest) := by
  rw [heads, content, pieces_grid plain (GridBlock.take?_complete shape _)]
  exact lineHeads_append (placeholder_endsLine b) _

end Grid

/-! ### The annotated opening -/

/-- The line that opens is read as a header: one that closes, or the one that stands for a
grid, which has no option with a name of the annotation. The annotation of a grid stands behind
its own options, and of two options with one name the first counts. -/
structure Declares (cs : List Char) : Prop where
  grid : ∀ b more, GridBlock.take? cs = some (b, more) → ∃ h, b.ReadsAs h ∧ Unnoted h.options
  header : GridBlock.take? cs = none → (headOf? cs).isSome = true

instance (cs : List Char) : Decidable (Declares cs) :=
  decidable_of_iff ((∀ taken ∈ GridBlock.take? cs, ∃ read ∈ takeHeaderLine? (placeholder taken.1),
      read.2 = ['\n'] ∧ Unnoted read.1.options) ∧
    (GridBlock.take? cs = none → (headOf? cs).isSome = true))
    ⟨fun ⟨grid, header⟩ => ⟨fun b more taken => by
        obtain ⟨⟨h, rest⟩, read, rfl, unnoted⟩ := grid (b, more) taken
        exact ⟨h, read, unnoted⟩, header⟩,
      fun declares => ⟨fun taken found => by
        obtain ⟨h, reads, unnoted⟩ := declares.grid taken.1 taken.2 found
        exact ⟨(h, ['\n']), reads, rfl, unnoted⟩, declares.header⟩⟩

/-- The text of an opening with the annotation in it, behind blanks. -/
def EntryPoint.annotate (e : EntryPoint) (loop : LoopHeader) (iteration : Nat)
    (lead : List Char) : List Char :=
  endsLine (lead ++ (e.before ++ (noteOf loop iteration e.id ++ e.after)))

/-- An opening that is read as a header keeps its other headers when it is annotated. -/
structure Annotated (loop : LoopHeader) (iteration : Nat) (cs annotated : List Char) : Prop where
  closes : closesGrids annotated = true
  heads : ∃ id plain entry further, heads (endsLine cs) = plain :: further ∧
    plain.id = String.ofList id ∧ heads annotated = entry :: further ∧
    Annotates loop iteration id entry

variable {loop : LoopHeader} {iteration : Nat}

theorem annotated_header (words : Words loop iteration) {bs id mark t lead : List Char}
    (blanks : Blanks bs) (shaped : IsQuestionId (String.ofList id)) (marked : IsMark mark)
    (follows : Follows t) (some : t ≠ [])
    (closed : (headOf? (bs ++ headerText id mark t)).isSome = true)
    (closes : closesGrids (endsLine (bs ++ headerText id mark t)) = true) (front : Blanks lead) :
    Annotated loop iteration (bs ++ headerText id mark t)
      (endsLine ((lead ++ bs) ++ headerText id mark (noteOf loop iteration id ++ t))) := by
  have behind := follows_endsLine follows some
  have text := noteOf_options words shaped
  have word : OneLine (id ++ mark) := (oneLine_id shaped).append marked.oneLine
  have noted : OneLine (id ++ mark ++ noteOf loop iteration id) := word.append text.oneLine
  have blank : Blanks (lead ++ bs) := List.forall_mem_append.2 ⟨front, blanks⟩
  obtain ⟨line, rest, whole, plain, -⟩ := endsLine_line t
  have bare : endsLine (bs ++ headerText id mark t) =
      bs ++ '[' :: ((id ++ mark) ++ (line ++ '\n' :: rest)) := by
    rw [headerText, endsLine_append (by simp), ← List.singleton_append,
      endsLine_append (by simp [some]), ← List.append_assoc id, endsLine_append some, whole]
    rfl
  have shown : endsLine ((lead ++ bs) ++ headerText id mark (noteOf loop iteration id ++ t)) =
      (lead ++ bs) ++ '[' :: ((id ++ mark ++ noteOf loop iteration id) ++
        (line ++ '\n' :: rest)) := by
    rw [headerText, endsLine_append (by simp), ← List.singleton_append,
      endsLine_append (by simp [some]), ← List.append_assoc id, ← List.append_assoc (id ++ mark),
      endsLine_append some, whole]
    rfl
  have same : headOf? (bs ++ headerText id mark (endsLine t)) =
      headOf? (bs ++ headerText id mark t) := by
    rcases endsLine_cases t with ends | ends
    · rw [ends]
    · have shape : bs ++ headerText id mark (t ++ ['\n']) =
          (bs ++ headerText id mark t) ++ ['\n'] := by simp [headerText]
      rw [ends, shape, headOf?_lineEnd (lineEnd_feed [])]
  have read := headOf?_headerText shaped marked behind (endsLine_ne_nil t) blanks
  rw [← same, read, Option.isSome_map] at closed
  obtain ⟨⟨header, further⟩, taken⟩ := Option.isSome_iff_exists.1 closed
  rw [taken] at read
  rw [takeHeaderLine?_headerText shaped marked behind] at taken
  obtain ⟨_, -, built⟩ := Option.map_eq_some_iff.1 taken
  obtain ⟨entry, found, annotates⟩ :=
    headerText_annotated words shaped marked behind closed blank
  refine ⟨?_, id, ⟨header.id, header.directives⟩, entry,
    furtherHeads (line ++ ['\n']) ++ heads rest, ?_, ?_, ?_, annotates⟩
  · rw [bare, closesGrids_bracket blanks word plain] at closes
    rwa [shown, closesGrids_bracket blank noted plain]
  · rw [bare, heads_bracket blanks word plain, ← whole, List.append_assoc]
    change (headOf? (bs ++ headerText id mark (endsLine t))).toList ++ _ = _
    rw [read]
    rfl
  · rw [← (Prod.mk.inj built).1]
  · rw [shown, heads_bracket blank noted plain, ← whole, List.append_assoc (id ++ mark),
      List.append_assoc id]
    change (headOf? ((lead ++ bs) ++ headerText id mark (noteOf loop iteration id ++ endsLine t))).toList
      ++ _ = _
    rw [found]
    rfl

theorem annotated_grid (words : Words loop iteration) {b : GridBlock} {h : Header}
    {more lead : List Char} (shape : b.WellFormed) (reads : b.ReadsAs h)
    (unnoted : Unnoted h.options) (closes : closesGrids (endsLine (b.toChars ++ more)) = true)
    (front : Blanks lead) :
    Annotated loop iteration (b.toChars ++ more)
      (endsLine (lead ++ ((b.annotate loop iteration).toChars ++ more))) := by
  -- What follows a block begins with the rest of its line, even where that is its end only.
  have behind (b : GridBlock) : endsLine (b.toChars ++ more) = b.toChars ++ endsLine more := by
    by_cases none : more = []
    · subst none
      rw [List.append_nil, endsLine, b.toChars_getLast?]
      rfl
    · exact endsLine_append none
  obtain ⟨line, rest, whole, plain, -⟩ := endsLine_line more
  have noted : ({ b.annotate loop iteration with
      indent := lead ++ b.indent } : GridBlock).WellFormed :=
    { shape.annotate words with indent := List.forall_mem_append.2 ⟨front, shape.indent⟩ }
  have shown : lead ++ ((b.annotate loop iteration).toChars ++ more) =
      ({ b.annotate loop iteration with indent := lead ++ b.indent } : GridBlock).toChars ++
        more := by
    simp [GridBlock.toChars, GridBlock.annotate]
  obtain ⟨entry, found, annotates⟩ := reads.annotated shape unnoted words
  refine ⟨?_, b.id, ⟨h.id, h.directives⟩, entry, lineHeads (line ++ ['\n'] ++ content rest), ?_,
    reads.id_eq shape, ?_, annotates⟩
  · rw [behind, whole, closesGrids_grid shape plain] at closes
    rwa [shown, behind, whole, closesGrids_grid noted plain]
  · rw [behind, whole, heads_grid shape plain, reads.lineHeads shape]
    rfl
  · rw [shown, behind, whole, heads_grid noted plain]
    exact congrArg (· ++ _) found

/-- Where the opening line is read as a header, the annotated text declares the iteration there
and everything else as before. -/
theorem Opens.annotated {cs lead : List Char} {e : EntryPoint} (opens : Opens cs e)
    (declares : Declares cs) (closes : closesGrids (endsLine cs) = true)
    (words : Words loop iteration) (front : Blanks lead) :
    Annotated loop iteration cs (e.annotate loop iteration lead) := by
  cases opens with
  | @header bs id mark t blanks shaped marked follows some =>
    have none : GridBlock.take? (bs ++ headerText id mark t) = none := by
      cases taken : GridBlock.take? (bs ++ headerText id mark t) with
      | none => rfl
      | some read =>
        have opened := opensGrid_of_take? taken
        rw [headerText, opensGrid_bracket blanks] at opened
        contradiction
    have shape : lead ++ (bs ++ '[' :: id ++ mark ++ (noteOf loop iteration id ++ t)) =
        (lead ++ bs) ++ headerText id mark (noteOf loop iteration id ++ t) := by
      simp [headerText]
    rw [EntryPoint.annotate, shape]
    exact annotated_header words blanks shaped marked follows some (declares.header none) closes
      front
  | @grid b more shape =>
    obtain ⟨h, reads, unnoted⟩ := declares.grid b more (GridBlock.take?_complete shape more)
    have text : b.indent ++ GridBlock.keyword ++ b.gap ++ b.id ++ '|' :: b.args ++
        (noteOf loop iteration b.id ++
          ('|' :: b.shared ++ '|' :: b.rows ++ '|' :: b.columns ++ '|' :: more)) =
        (b.annotate loop iteration).toChars ++ more := by
      simp [GridBlock.toChars, GridBlock.annotate]
    rw [EntryPoint.annotate, text]
    exact annotated_grid words shape reads unnoted closes front

end Questionnaire.Definition
