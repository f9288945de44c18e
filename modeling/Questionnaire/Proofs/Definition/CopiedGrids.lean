import Questionnaire.Proofs.Definition.CopiedHeaders
import Questionnaire.Proofs.Definition.GridArguments
import Questionnaire.Proofs.Expr.Reduction

/-! Grid blocks in a copy of a loop body. A block is renamed in its identifier, arguments and row
keys first. No code begins in front of its arguments, and what of it is renamed once more stays. So
the copy has the same blocks, each with its identifier and its row keys in the form of the
iteration. -/
namespace Questionnaire.Definition

open Text

section Rows
variable {f : List Char → List Char} {cs ds row row' rows rows' : List Char}

/-! Row keys -/

theorem isWord_of_isBlank {c : Char} (blank : isBlank c = true) : isWord c = false := by
  let values := List.range' 9 5 ++ [0x20, 0x85, 0xA0, 0x1680] ++ List.range' 0x2000 11 ++
    [0x2028, 0x2029, 0x202F, 0x205F, 0x3000]
  have value : c.toNat ∈ values := by
    simp only [isBlank, Bool.or_eq_true, Bool.and_eq_true, decide_eq_true_eq, beq_iff_eq] at blank
    simp only [values, List.mem_append, List.mem_range'_1, List.mem_cons, List.not_mem_nil]
    omega
  have others : ∀ n ∈ values, isWord (Char.ofNat n) = false := by
    -- The ranges are looked through as a list: an array would be read from its front for each.
    simp only [isWord, ← Array.any_toList]
    decide +kernel
  rw [← Char.ofNat_toNat c]
  exact others _ value

theorem trimChars_mapWords (settles : Settles f) (cs : List Char) :
    trimChars (mapWords f cs) = mapWords f (trimChars cs) := by
  have word (c : Char) (word : isWord c = true) : isBlank c = false :=
    Bool.eq_false_iff.2 fun blank => by
      rw [isWord_of_isBlank blank] at word
      cases word
  have others {bs : List Char} (blanks : ∀ c ∈ bs, isBlank c = true) :
      ∀ c ∈ bs, isWord c = false := fun c member => isWord_of_isBlank (blanks c member)
  obtain ⟨after, whole, blanks'⟩ := exists_trimEndChars (trimStartChars cs)
  obtain ⟨before, split, blanks⟩ : ∃ before, cs = before ++ (trimChars cs ++ after) ∧
      ∀ c ∈ before, isBlank c = true :=
    ⟨cs.takeWhile isBlank, by rw [trimChars, ← whole]; exact List.takeWhile_append_dropWhile.symm,
      fun _ member => List.mem_takeWhile_imp member⟩
  have apart : Apart (trimChars cs) after := by
    refine .inr ?_
    cases after with
    | nil => rfl
    | cons c after => exact others blanks' c List.mem_cons_self
  have rewords : Rewords f (trimChars cs) (mapWords f (trimChars cs)) := .mapWords _
  have kept : mapWords f cs = before ++ mapWords f (trimChars cs) ++ after := by
    have back := mapWords_others (f := f) (others blanks') []
    rw [List.append_nil, mapWords_nil, List.append_nil] at back
    conv_lhs => rw [split, mapWords_others (others blanks), mapWords_append apart, back]
    rw [List.append_assoc]
  by_cases none : trimChars cs = []
  · rw [kept, none, mapWords_nil, List.append_nil, trimChars_blanks_append blanks,
      ← List.nil_append after, trimChars_append_blanks blanks']
    rfl
  · rw [kept]
    refine trimChars_padded (List.forall_mem_append.2 ⟨blanks, blanks'⟩)
      (rewords.ne_nil settles none) ((rewords.ends_of_others settles word).2 ?_) ?_
    · have front : Ends isBlank (trimChars cs ++ after) := by
        rw [trimChars, ← whole]
        exact dropWhile_ends isBlank cs
      generalize trimChars cs = k at none front
      obtain ⟨c, k, rfl⟩ := List.exists_cons_of_ne_nil none
      exact front
    · rw [Ends, List.head?_reverse, rewords.getLast?_any settles word, ← List.head?_reverse,
        trimChars, trimEndChars, List.reverse_reverse]
      exact dropWhile_ends isBlank _

/-- The key of a row of a grid. -/
def rowId? (row : List Char) : Option String := do
  let (key, _) ← cutAtChars? (· == '=') row
  let key := trimChars key
  if key.isEmpty then none else some (String.ofList key)

theorem rowIds_eq (rows : List Char) :
    rowIds rows = (splitChars (· == ';') rows).filterMap rowId? := rfl

theorem cutAtChars?_plain (plain : '=' ∉ row) : cutAtChars? (· == '=') row = none :=
  cutAtChars?_eq_none.2 fun _ member => beq_eq_false_iff_ne.2 fun same => plain (same ▸ member)

theorem cutAtChars?_equals {key : List Char} (plain : '=' ∉ key) (prompt : List Char) :
    cutAtChars? (· == '=') (key ++ '=' :: prompt) = some (key, prompt) :=
  cutAtChars?_append (p := (· == '='))
    (fun _ member => beq_eq_false_iff_ne.2 fun same => plain (same ▸ member))
    (beq_self_eq_true '=') prompt

theorem rowId?_renamed (settles : Settles f)
    (rewords : Rewords f (renameRow (mapWords f) row) row') :
    rowId? row' = (rowId? row).map (renamed f) := by
  rcases cut_cases '=' row with plain | ⟨key, prompt, rfl, plain⟩
  · rw [renameRow, cutAtChars?_plain plain] at rewords
    rw [rowId?, rowId?, cutAtChars?_plain plain,
      cutAtChars?_plain (mt (rewords.mem_iff settles rfl).1 plain)]
    rfl
  · rw [renameRow, cutAtChars?_equals plain] at rewords
    obtain ⟨key', prompt', rfl, first, -⟩ := rewords.cut rfl
    obtain rfl := first.of_mapWords settles
    have plain' : '=' ∉ mapWords f key :=
      mt ((Rewords.mapWords key).mem_iff settles rfl).1 plain
    have empty : (mapWords f (trimChars key)).isEmpty = (trimChars key).isEmpty := by
      rw [Bool.eq_iff_iff, List.isEmpty_iff, List.isEmpty_iff]
      constructor
      · intro none
        by_contra some
        exact (Rewords.mapWords _).ne_nil settles some none
      · intro none
        rw [none, mapWords_nil]
    rw [rowId?, rowId?, cutAtChars?_equals plain, cutAtChars?_equals plain']
    simp only [Option.bind_eq_bind, Option.bind_some, trimChars_mapWords settles, empty]
    split
    · rfl
    · rw [Option.map_some, renamed, String.toList_ofList]

theorem notMem_of_mem_splitChars {c : Char} {part : List Char}
    (member : part ∈ splitChars (· == c) cs) : c ∉ part := by
  induction size : cs.length using Nat.strongRecOn generalizing cs with
  | _ n ih =>
    subst size
    rcases cut_cases c cs with plain | ⟨xs, ys, rfl, plain⟩
    · rw [splitChars_plain plain, List.mem_singleton] at member
      rwa [member]
    · rw [splitChars_cut plain, List.mem_cons] at member
      rcases member with rfl | behind
      · exact plain
      · exact ih ys.length (by rw [List.length_append, List.length_cons]; omega) behind rfl

/-- Renaming goes from row to row. -/
theorem splitChars_renameRows (settles : Settles f) (rows : List Char) :
    splitChars (· == ';') (renameRows (mapWords f) rows) =
      (splitChars (· == ';') rows).map (renameRow (mapWords f)) := by
  refine splitChars_intercalate ?_ fun part member => ?_
  · rw [ne_eq, List.map_eq_nil_iff]
    rcases cut_cases ';' rows with plain | ⟨xs, ys, rfl, plain⟩
    · rw [splitChars_plain plain]
      exact List.cons_ne_nil _ _
    · rw [splitChars_cut plain]
      exact List.cons_ne_nil _ _
  · obtain ⟨row, inside, rfl⟩ := List.mem_map.1 member
    exact mt ((renameRow_rewords f row).mem_iff settles rfl).1 (notMem_of_mem_splitChars inside)

theorem rowIds_renamed (settles : Settles f)
    (rewords : Rewords f (renameRows (mapWords f) rows) rows') :
    rowIds rows' = (rowIds rows).map (renamed f) := by
  have related := rewords.splitChars settles (c := ';') rfl
  rw [splitChars_renameRows settles, List.forall₂_map_left_iff] at related
  rw [rowIds_eq, rowIds_eq]
  exact filterMap_of_related related fun _ _ _ _ => rowId?_renamed settles

end Rows

/-! Blocks -/

section Grid
variable {f : List Char → List Char} {cs ds rest : List Char} {b : GridBlock}

/-- Where no arrow and no pair of braces begins, the text goes on unchanged. -/
theorem renameInCode_skip (g : List Char → List Char) {xs : List Char}
    (plain : ∀ c ∈ xs, c ≠ '-' ∧ c ≠ '{' ∧ c ≠ '\n') (ds : List Char) :
    renameInCode.go g false 0 (xs ++ ds) = xs ++ renameInCode.go g false 0 ds := by
  induction xs with
  | nil => rfl
  | cons c xs ih =>
    obtain ⟨⟨arrow, brace, feed⟩, plain⟩ := List.forall_mem_cons.1 plain
    have none : takeCode? false (c :: (xs ++ ds)) = none := by
      rw [Option.eq_none_iff_forall_ne_some]
      rintro ⟨code, rest⟩ taken
      obtain ⟨whole, region⟩ := takeCode?_eq_some_iff.1 taken
      cases region with
      | arrow => exact arrow (List.cons.inj whole).1
      | braces => exact brace (List.cons.inj whole).1
    rw [List.cons_append, renameInCode_other g none, beq_eq_false_iff_ne.2 feed, ih plain,
      List.cons_append]

theorem GridBlock.front_plain (shape : b.WellFormed) :
    ∀ c ∈ b.front, c ≠ '-' ∧ c ≠ '{' ∧ c ≠ '\n' := by
  have blank {c : Char} (blank : isLineBlank c = true) : c ≠ '-' ∧ c ≠ '{' ∧ c ≠ '\n' :=
    ⟨ne_of_holds blank rfl, ne_of_holds blank rfl, ne_of_holds blank rfl⟩
  have id {c : Char} (char : isQuestionIdChar c = true) : c ≠ '-' ∧ c ≠ '{' ∧ c ≠ '\n' :=
    ⟨ne_of_holds char (by decide), ne_of_holds char (by decide), ne_of_holds char (by decide)⟩
  have keyword : ∀ c ∈ GridBlock.keyword, c ≠ '-' ∧ c ≠ '{' ∧ c ≠ '\n' := by
    simp [GridBlock.keyword]
  intro c member
  simp only [front, List.mem_append] at member
  rcases member with ((indent | inside) | gap) | name
  · exact blank (shape.indent c indent)
  · exact keyword c inside
  · exact blank (shape.gap c gap)
  · exact id (shape.id.chars c (by rwa [String.toList_ofList]))

/-- No code begins in a block in front of its arguments. -/
theorem renameInCode_front (g : List Char → List Char) (shape : b.WellFormed) (ds : List Char) :
    renameInCode g (b.front ++ ds) = b.front ++ renameInCode.go g false 0 ds := by
  have bar : skipLineBlanks (b.front ++ ds) =
      '|' :: (['g', 'r', 'i', 'd'] ++ b.gap ++ b.id ++ ds) := by
    have split :
        b.front ++ ds = b.indent ++ '|' :: (['g', 'r', 'i', 'd'] ++ b.gap ++ b.id ++ ds) := by
      simp [GridBlock.front, GridBlock.keyword]
    rw [split]
    refine skipLineBlanks_append shape.indent fun c head => ?_
    obtain rfl := Option.some.inj head
    rfl
  have plain := GridBlock.front_plain shape
  have none : takeCode? true (b.front ++ ds) = none := by
    rw [Option.eq_none_iff_forall_ne_some]
    rintro ⟨code, rest⟩ taken
    obtain ⟨whole, region⟩ := takeCode?_eq_some_iff.1 taken
    rw [whole] at bar
    cases region with
    | header blank =>
      rw [List.append_assoc, List.cons_append, skipLineBlanks_append blank] at bar
      · cases bar
      · intro c head
        obtain rfl := Option.some.inj head
        rfl
    | arrow => cases bar
    | braces => cases bar
  obtain ⟨c, front, same⟩ : ∃ c front, b.front = c :: front :=
    List.exists_cons_of_ne_nil (by simp [GridBlock.front, GridBlock.keyword])
  rw [same] at none plain ⊢
  obtain ⟨⟨-, -, feed⟩, plain⟩ := List.forall_mem_cons.1 plain
  rw [List.cons_append] at none
  rw [List.cons_append, renameInCode, renameInCode_other g none, beq_eq_false_iff_ne.2 feed,
    renameInCode_skip g plain, List.cons_append]

theorem GridBlock.rename_wellFormed (lengthens : Lengthens f) (shape : b.WellFormed) :
    (b.rename (mapWords f)).WellFormed where
  indent := shape.indent
  gap := shape.gap
  gap_some := shape.gap_some
  id := by
    have shaped := lengthens.shaped shape.id
    rwa [renamed, String.toList_ofList] at shaped
  args := mt ((Rewords.mapWords b.args).mem_iff lengthens.toSettles rfl).1 shape.args
  shared := shape.shared
  rows := mt ((renameRows_rewords f b.rows).mem_iff lengthens.toSettles rfl).1 shape.rows
  columns := shape.columns

/-- The fields of a block behind its identifier. -/
def GridBlock.fields (b : GridBlock) (rest : List Char) : List Char :=
  b.args ++ '|' :: (b.shared ++ '|' :: (b.rows ++ '|' :: (b.columns ++ '|' :: rest)))

theorem GridBlock.toChars_fields (b : GridBlock) (rest : List Char) :
    b.toChars ++ rest = b.front ++ '|' :: b.fields rest := by
  simp [toChars, front, fields]

/-- A block whose fields were kept or replaced word by word is read as a block. -/
theorem take?_of_fields (settles : Settles f) (shape : b.WellFormed)
    (rewords : Rewords f (b.fields rest) ds) : ∃ b' rest',
      GridBlock.take? (b.front ++ '|' :: ds) = some (b', rest') ∧ b'.id = b.id ∧
        Rewords f b.rows b'.rows ∧ Rewords f rest rest' := by
  have kept {xs as : List Char} (first : Rewords f xs as) (plain : '|' ∉ xs) : '|' ∉ as :=
    mt (first.mem_iff settles rfl).1 plain
  obtain ⟨args, _, rfl, first, rewords⟩ := rewords.cut rfl
  obtain ⟨shared, _, rfl, second, rewords⟩ := rewords.cut rfl
  obtain ⟨rows, _, rfl, third, rewords⟩ := rewords.cut rfl
  obtain ⟨columns, rest', rfl, last, behind⟩ := rewords.cut rfl
  let b' : GridBlock := ⟨b.indent, b.gap, b.id, args, shared, rows, columns⟩
  have shape' : b'.WellFormed := ⟨shape.indent, shape.gap, shape.gap_some, shape.id,
    kept first shape.args, kept second shape.shared, kept third shape.rows, kept last shape.columns⟩
  refine ⟨b', rest', ?_, rfl, third, behind⟩
  have taken := GridBlock.take?_complete shape' rest'
  rwa [GridBlock.toChars_fields] at taken

/-- A renamed block is read as a block when the code behind its identifier has been dealt with. -/
theorem take?_renamed (lengthens : Lengthens f) (shape : b.WellFormed) (rest : List Char) :
    ∃ b' rest', GridBlock.take? (renameInCode (mapWords f)
        ((b.rename (mapWords f)).toChars ++ rest)) = some (b', rest') ∧
      b'.id = mapWords f b.id ∧ Rewords f (renameRows (mapWords f) b.rows) b'.rows ∧
      Rewords f rest rest' := by
  have shape := GridBlock.rename_wellFormed lengthens shape
  have rewords := renameInCode_rewords f false ('|' :: (b.rename (mapWords f)).fields rest)
  obtain ⟨ds, behind, rewords⟩ := rewords.other_inv rfl
  rw [GridBlock.toChars_fields, renameInCode_front _ shape, behind]
  exact take?_of_fields lengthens.toSettles shape rewords

/-- Four fields come from four fields. -/
theorem GridBlock.fields_back (settles : Settles f) (shape : b.WellFormed)
    (rewords : Rewords f cs (b.fields rest)) : ∃ b' : GridBlock, ∃ rest', cs = b'.fields rest' ∧
      '|' ∉ b'.args ∧ '|' ∉ b'.shared ∧ '|' ∉ b'.rows ∧ '|' ∉ b'.columns := by
  have kept {xs as : List Char} (first : Rewords f as xs) (plain : '|' ∉ xs) : '|' ∉ as :=
    mt (first.mem_iff settles rfl).2 plain
  obtain ⟨args, rest₁, rfl, first, behind₁⟩ := rewords.uncut settles rfl
  obtain ⟨shared, rest₂, rfl, second, behind₂⟩ := behind₁.uncut settles rfl
  obtain ⟨rows, rest₃, rfl, third, behind₃⟩ := behind₂.uncut settles rfl
  obtain ⟨columns, rest', rfl, last, -⟩ := behind₃.uncut settles rfl
  exact ⟨{ b with args, shared, rows, columns }, rest', rfl, kept first shape.args,
    kept second shape.shared, kept third shape.rows, kept last shape.columns⟩

/-- A word in small letters is no replacement. -/
theorem Lengthens.small (lengthens : Lengthens f) {w : List Char} {last : Char}
    {front : List Char} (rewords : Rewords f w (front ++ [last])) (run : IsRun (front ++ [last]))
    (other : isQuestionIdChar last = false) : w = front ++ [last] := by
  obtain ⟨-, same | same⟩ := rewords.word lengthens.toSettles run
  · exact same.symm
  · obtain ⟨more, longer, chars⟩ := lengthens.longer w
    rw [longer] at same
    rcases List.eq_nil_or_concat' more with rfl | ⟨more, c, rfl⟩
    · simpa using same.symm
    · rw [← List.append_assoc] at same
      obtain ⟨-, here⟩ := List.append_inj' same rfl
      rw [← List.head_eq_of_cons_eq here] at chars
      rw [chars last (by simp)] at other
      cases other

/-- Where a block is read, one was read before words were replaced. -/
theorem take?_back (lengthens : Lengthens f) (rewords : Rewords f cs ds)
    (taken : GridBlock.take? ds = some (b, rest)) : ∃ read, GridBlock.take? cs = some read := by
  have settles := lengthens.toSettles
  have shape := GridBlock.take?_sound taken
  have split : ds = b.indent ++ '|' :: ((['g', 'r', 'i'] ++ ['d']) ++ (b.gap ++ (b.id ++ '|' ::
      b.fields rest))) := by
    rw [GridBlock.take?_append taken, GridBlock.toChars_fields]
    simp [GridBlock.front, GridBlock.keyword]
  have blank : Ends isWord (b.gap ++ (b.id ++ '|' :: b.fields rest)) := by
    obtain ⟨c, gap, same⟩ := List.exists_cons_of_ne_nil shape.gap_some
    have blank := isWord_of_blanks shape.gap
    rw [same] at blank ⊢
    exact blank c List.mem_cons_self
  have blanks : Apart b.gap (b.id ++ '|' :: b.fields rest) := by
    refine .inl ?_
    rw [Option.any_eq_false]
    exact fun c last => isWord_of_blanks shape.gap c (List.mem_of_getLast? last)
  rw [split] at rewords
  obtain ⟨indent, rest₁, rfl, first, keyed⟩ := rewords.uncut settles rfl
  obtain ⟨keyword, rest₂, rfl, word, gapped⟩ := keyed.unappend settles (.inr blank)
  obtain ⟨gap, rest₃, rfl, second, named⟩ := gapped.unappend settles blanks
  obtain ⟨id, rest₄, rfl, name, fields⟩ := named.uncut settles rfl
  obtain ⟨b', rest', rfl, args, shared, rows, columns⟩ := GridBlock.fields_back settles shape fields
  obtain rfl := first.others settles (isWord_of_blanks shape.indent)
  obtain rfl := second.others settles (isWord_of_blanks shape.gap)
  have small : ∀ c ∈ ['g', 'r', 'i', 'd'], isAsciiWord c = true := List.all_eq_true.1 rfl
  obtain rfl := lengthens.small word ⟨by simp, fun c member => isWord_of_ascii (small c member)⟩
    (by decide)
  have shape' : ({ b' with indent := b.indent, gap := b.gap, id } : GridBlock).WellFormed :=
    ⟨shape.indent, shape.gap, shape.gap_some, lengthens.unshaped name shape.id, args, shared, rows,
      columns⟩
  have taken' := GridBlock.take?_complete shape' rest'
  rw [GridBlock.toChars_fields] at taken'
  exact ⟨_, by simpa [GridBlock.front, GridBlock.fields, GridBlock.keyword] using taken'⟩

end Grid

/-! Copies -/

section Copy
variable {f : List Char → List Char} {cs rest : List Char} {b : GridBlock}

/-- A text with its words replaced in its grid blocks and in its code. -/
def copied (f : List Char → List Char) (cs : List Char) : List Char :=
  renameInCode (mapWords f) (renameInGrids (mapWords f) cs)

theorem copied_rewords (settles : Settles f) (cs : List Char) : Rewords f cs (copied f cs) := by
  have grids := (joined_pieces cs).rewords f
  rw [pieces_flatMap_toChars] at grids
  exact grids.trans settles (renameInCode_rewords f true _)

theorem takeLine_nil_or_feed (cs : List Char) : ('\n' ∉ cs ∧ takeLine cs = (cs, [])) ∨
    ∃ body more, cs = body ++ '\n' :: more ∧ '\n' ∉ body ∧
      takeLine cs = (body ++ ['\n'], more) := by
  rcases cut_cases '\n' cs with plain | ⟨body, more, rfl, plain⟩
  · exact .inl ⟨plain, takeLine_plain plain⟩
  · exact .inr ⟨body, more, rfl, plain, takeLine_complete plain more⟩

theorem gridBlocks_nil : gridBlocks [] = [] := by
  rw [gridBlocks, pieces]
  rfl

theorem renameInGrids_nil (g : List Char → List Char) : renameInGrids g [] = [] := by
  rw [renameInGrids, pieces]
  rfl

theorem gridBlocks_of_none (none : GridBlock.take? cs = none) :
    gridBlocks cs = gridBlocks (takeLine cs).2 := by
  by_cases some : cs = []
  · subst some
    rfl
  · rw [gridBlocks, pieces_of_none some none]
    rfl

theorem gridBlocks_of_grid (taken : GridBlock.take? cs = some (b, rest)) :
    gridBlocks cs = b :: gridBlocks (takeLine rest).2 := by
  rw [gridBlocks, pieces_of_grid taken]
  split
  · next none =>
    subst none
    rw [takeLine, gridBlocks_nil]
    rfl
  · rfl

theorem renameInGrids_of_none (g : List Char → List Char) (none : GridBlock.take? cs = none) :
    renameInGrids g cs = (takeLine cs).1 ++ renameInGrids g (takeLine cs).2 := by
  by_cases some : cs = []
  · subst some
    rfl
  · rw [renameInGrids, pieces_of_none some none]
    rfl

theorem renameInGrids_of_grid (g : List Char → List Char)
    (taken : GridBlock.take? cs = some (b, rest)) : renameInGrids g cs =
      (b.rename g).toChars ++ ((takeLine rest).1 ++ renameInGrids g (takeLine rest).2) := by
  rw [renameInGrids, pieces_of_grid taken]
  split
  · next none =>
    subst none
    rw [takeLine, renameInGrids_nil]
    rfl
  · rfl

/-- What follows a text in its last line, and the lines behind that, are dealt with apart. -/
theorem renameInCode_behind (f : List Char → List Char) (front cs : List Char) :
    ∃ body t, '\n' ∉ body ∧ (∀ x, '\n' ∉ x → (takeLine (x ++ t)).2 = copied f (takeLine cs).2) ∧
      renameInCode (mapWords f)
          (front ++ ((takeLine cs).1 ++ renameInGrids (mapWords f) (takeLine cs).2)) =
        renameInCode (mapWords f) (front ++ body) ++ t := by
  rcases takeLine_nil_or_feed cs with ⟨plain, line⟩ | ⟨body, more, rfl, plain, line⟩
  · refine ⟨cs, [], plain, fun x plain => ?_, ?_⟩
    · rw [line, List.append_nil, takeLine_plain plain, copied, renameInGrids_nil]
      rfl
    · rw [line, renameInGrids_nil, List.append_nil, List.append_nil]
  · refine ⟨body, '\n' :: copied f more, plain, fun x plain => ?_, ?_⟩
    · rw [line, takeLine_complete plain]
    · rw [line, List.append_assoc, List.singleton_append, ← List.append_assoc]
      exact renameInCode_feed _ true _ _

/-- A block of a text and that of the copy. -/
structure GridBlock.Copied (f : List Char → List Char) (b b' : GridBlock) : Prop where
  id : String.ofList b'.id = renamed f (String.ofList b.id)
  rows : rowIds b'.rows = (rowIds b.rows).map (renamed f)

/-- A copy has the blocks of its text. -/
theorem gridBlocks_copied (lengthens : Lengthens f) (cs : List Char) :
    List.Forall₂ (GridBlock.Copied f) (gridBlocks cs) (gridBlocks (copied f cs)) := by
  have settles := lengthens.toSettles
  induction size : cs.length using Nat.strongRecOn generalizing cs with
  | _ n ih =>
    subst size
    cases taken : GridBlock.take? cs with
    | none =>
      by_cases some : cs = []
      · subst some
        rw [(copied_rewords settles []).nil_inv, gridBlocks_nil]
        exact .nil
      · have none : GridBlock.take? (copied f cs) = none := by
          rw [Option.eq_none_iff_forall_ne_some]
          rintro ⟨b, rest⟩ taken'
          obtain ⟨read, found⟩ := take?_back lengthens (copied_rewords settles cs) taken'
          rw [taken] at found
          cases found
        obtain ⟨body, t, plain, behind, text⟩ := renameInCode_behind f [] cs
        have plain' : '\n' ∉ renameInCode (mapWords f) body :=
          mt ((renameInCode_rewords f true body).mem_iff settles rfl).1 plain
        have whole : copied f cs = renameInCode (mapWords f) body ++ t := by
          rw [copied, renameInGrids_of_none _ taken]
          exact text
        rw [gridBlocks_of_none taken, gridBlocks_of_none none, whole, behind _ plain']
        refine ih _ ?_ _ rfl
        obtain ⟨c, cs, rfl⟩ := List.exists_cons_of_ne_nil some
        exact takeLine_rest_length c cs
    | some read =>
      obtain ⟨b, rest⟩ := read
      obtain ⟨body, t, plain, behind, text⟩ :=
        renameInCode_behind f (b.rename (mapWords f)).toChars rest
      obtain ⟨b', body', taken', name, rows, reworded⟩ :=
        take?_renamed lengthens (GridBlock.take?_sound taken) body
      have plain' : '\n' ∉ body' := mt (reworded.mem_iff settles rfl).1 plain
      have whole : GridBlock.take? (copied f cs) = some (b', body' ++ t) := by
        rw [copied, renameInGrids_of_grid _ taken, text]
        exact GridBlock.take?_extend taken' t
      rw [gridBlocks_of_grid taken, gridBlocks_of_grid whole, behind _ plain']
      refine .cons ⟨?_, rowIds_renamed settles rows⟩ (ih _ ?_ _ rfl)
      · rw [name, renamed, String.toList_ofList]
      · have shorter := GridBlock.take?_length taken
        have line := congrArg List.length (takeLine_append rest)
        rw [List.length_append] at line
        omega

/-- A copy declares what its text declares, with the words of each name replaced. -/
theorem declarations_copied (lengthens : Lengthens f) (close : HeadersClose cs) :
    declarations (copied f cs) = (declarations cs).map (renamed f) := by
  have grids := (joined_pieces cs).rewords f
  rw [pieces_flatMap_toChars] at grids
  have headers : headerIds (copied f cs) = (headerIds cs).map (renamed f) :=
    headerIds_renamed lengthens grids close
  rw [declarations, declarations, headers, List.map_append]
  congr 1
  have related := gridBlocks_copied lengthens cs
  generalize gridBlocks cs = blocks, gridBlocks (copied f cs) = blocks' at related ⊢
  induction related with
  | nil => rfl
  | cons first _ ih =>
    rw [List.flatMap_cons, List.flatMap_cons, List.map_append, ih, first.id, first.rows,
      List.map_cons]

end Copy

end Questionnaire.Definition
