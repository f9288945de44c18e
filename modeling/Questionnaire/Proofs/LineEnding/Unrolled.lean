import Questionnaire.Proofs.Definition.Table
import Questionnaire.Proofs.Definition.Unrolled
import Questionnaire.Proofs.LineEnding.LoopBlocks
import Questionnaire.Proofs.LineEnding.Renaming

/-! Unrolling in texts that differ in carriage returns in front of line feeds. The bodies of the
loop blocks declare the same names and are entered at the same place, so they unroll to texts that
differ in returns only, unless a grid block in them spans lines. -/
namespace Questionnaire.Definition

open Text

/-! ### Declared names -/

/-- What is decided by the next character, if no line end decides it. -/
theorem Returns.nextIf {α : Type} {l d : List Char} (returns : Returns l d) (p : Char → Bool)
    (feed : p '\n' = false) (back : p '\r' = false) (value : α) :
    (l.head?.bind fun next => if p next then some value else none) =
      d.head?.bind fun next => if p next then some value else none := by
  cases returns with
  | nil => rfl
  | same => rfl
  | feed => simp [feed, back]

theorem Returns.headerIds {l d : List Char} (returns : Returns l d) :
    Definition.headerIds d = Definition.headerIds l := by
  refine Eq.symm (List.forall₂_eq_eq_eq ▸ List.rel_filterMap (fun l d line => ?_) returns.lines)
  have text : Returns (skipLineBlanks l) (skipLineBlanks d) := line.dropWhile rfl
  refine rel_bind (text.stripLeading? (oneLine_single rfl)) fun r₁ s₁ h₁ => ?_
  refine rel_bind h₁.takeQuestionId? ?_
  rintro ⟨id, r₂⟩ ⟨_, s₂⟩ ⟨rfl, h₂⟩
  exact rel_eq_iff.2 (Returns.nextIf h₂
    (fun next => next == ']' || next == '!' || next == '?' || next == ',') rfl rfl _)

theorem Returns.declaredIds {l d : List Char} (returns : Returns l d) (inLines : BlocksInLines l) :
    Definition.declaredIds d = Definition.declaredIds l := by
  rw [Definition.declaredIds, Definition.declaredIds, returns.headerIds, returns.gridBlocks inLines]

theorem mem_insertSorted {name other : String} {names : List String}
    (member : name ∈ insertSorted other names) : name = other ∨ name ∈ names := by
  fun_induction insertSorted other names with
  | case1 => simpa using member
  | case2 n names => simpa using member
  | case3 n names => exact .inr member
  | case4 n names _ ih =>
    rcases List.mem_cons.1 member with rfl | later
    · exact .inr List.mem_cons_self
    · exact (ih later).imp_right (List.mem_cons_of_mem n)

theorem mem_declaredIds {name : String} {body : List Char} (member : name ∈ declaredIds body) :
    name ∈ headerIds body ∨
      ∃ b ∈ gridBlocks body, name = String.ofList b.id ∨ name ∈ rowIds b.rows := by
  have sorted (declared names : List String)
      (inside : name ∈ declared.foldl (fun names name => insertSorted name names) names) :
      name ∈ declared ∨ name ∈ names := by
    induction declared generalizing names with
    | nil => exact .inr inside
    | cons other declared ih =>
      rcases ih _ inside with later | here
      · exact .inl (List.mem_cons_of_mem other later)
      · rcases mem_insertSorted here with rfl | before
        · exact .inl List.mem_cons_self
        · exact .inr before
  rcases sorted _ _ member with inside | inside
  · simpa using inside
  · cases inside

theorem mem_gridBlocks {b : GridBlock} {cs : List Char} (member : b ∈ gridBlocks cs) :
    b.WellFormed ∧ b.toChars ⊆ cs := by
  obtain ⟨piece, inside, same⟩ := List.mem_filterMap.1 member
  cases piece with
  | plain => cases same
  | grid c =>
    obtain rfl := Option.some.inj same
    refine ⟨wellFormed_of_mem_pieces inside, fun x char => ?_⟩
    rw [← pieces_flatMap_toChars cs]
    exact List.mem_flatMap.2 ⟨_, inside, char⟩

theorem questionId_inLine {id : List Char} (shaped : IsQuestionId (String.ofList id)) :
    (String.ofList id).toList ≠ [] ∧ OneLine (String.ofList id).toList := by
  constructor
  · obtain ⟨c, cs, text, -⟩ := shaped
    rw [text]
    exact List.cons_ne_nil c cs
  · exact oneLine_of_holds shaped.chars rfl rfl

theorem splitChars_subset {p : Char → Bool} {piece cs : List Char}
    (member : piece ∈ splitChars p cs) : piece ⊆ cs := by
  induction cs generalizing piece with
  | nil =>
    obtain rfl := List.mem_singleton.1 member
    exact List.Subset.refl _
  | cons c cs ih =>
    have later {piece : List Char} (inside : piece ∈ splitChars p cs) : piece ⊆ c :: cs :=
      List.Subset.trans (ih inside) (List.subset_cons_self c cs)
    rw [splitChars] at member
    split at member
    · rcases List.mem_cons.1 member with rfl | behind
      · exact List.nil_subset _
      · exact later behind
    · split at member
      · obtain rfl := List.mem_singleton.1 member
        simp
      · next first more split =>
        rcases List.mem_cons.1 member with rfl | behind
        · exact List.cons_subset_cons c (ih (by rw [split]; exact List.mem_cons_self))
        · exact later (by rw [split]; exact List.mem_cons_of_mem _ behind)

/-- The keys of rows are cut out of the field without the blanks around them. -/
theorem rowIds_chars {name : String} {rows : List Char} (member : name ∈ rowIds rows) :
    name.toList ≠ [] ∧ name.toList ⊆ rows := by
  obtain ⟨row, inside, named⟩ := List.mem_filterMap.1 member
  cases cut : cutAtChars? (· == '=') row with
  | none => rw [cut] at named; cases named
  | some read =>
    obtain ⟨key, prompt⟩ := read
    rw [cut] at named
    simp only [Option.bind_eq_bind, Option.bind_some] at named
    split at named
    · cases named
    · next some =>
      cases named
      rw [String.toList_ofList]
      refine ⟨fun none => some (by rw [none]; rfl), fun x char => ?_⟩
      obtain ⟨c, -, rfl, -⟩ := cutAtChars?_eq_some cut
      exact splitChars_subset inside (List.mem_append_left _ (mem_of_mem_trimChars char))

/-- What a body declares is written within one line, unless a grid block of it spans lines. -/
theorem namesInLine {body : List Char} (plain : '\r' ∉ body) (inLines : BlocksInLines body) :
    NamesInLine (declaredIds body) := by
  intro name member
  rcases mem_declaredIds member with header | ⟨b, block, rfl | row⟩
  · obtain ⟨line, -, named⟩ := List.mem_filterMap.1 header
    obtain ⟨rest, -, named⟩ := Option.bind_eq_some_iff.1 named
    obtain ⟨⟨id, rest⟩, taken, named⟩ := Option.bind_eq_some_iff.1 named
    obtain ⟨c, -, named⟩ := Option.bind_eq_some_iff.1 named
    split at named
    · cases named
      exact questionId_inLine (takeQuestionId?_shape taken)
    · cases named
  · exact questionId_inLine (mem_gridBlocks block).1.id
  · obtain ⟨some, chars⟩ := rowIds_chars row
    refine ⟨some, fun c char => ?_⟩
    have inside : c ∈ b.toChars := by simp [GridBlock.toChars, chars char]
    apply Bool.eq_false_iff.2
    intro newline
    rcases isNewline_cases newline with rfl | rfl
    · exact inLines b block inside
    · exact plain ((mem_gridBlocks block).2 inside)

/-! ### Entry points -/

structure EntryPoint.Alike (e f : EntryPoint) : Prop where
  before : Returns e.before f.before
  after : Returns e.after f.after
  id : f.id = e.id
  shaped : IsQuestionId (String.ofList e.id)

theorem Opens.whole {cs : List Char} {e : EntryPoint} (opens : Opens cs e) :
    cs = e.before ++ e.after := by
  cases opens with
  | header => simp [headerText]
  | grid => simp [GridBlock.toChars]

theorem Opens.shaped {cs : List Char} {e : EntryPoint} (opens : Opens cs e) :
    IsQuestionId (String.ofList e.id) := by
  cases opens with
  | header _ shaped => exact shaped
  | grid shape => exact shape.id

theorem entryAhead?_grid {cs rest : List Char} {b : GridBlock}
    (taken : GridBlock.take? cs = some (b, rest)) : entryAhead? cs = some
      ⟨b.indent ++ GridBlock.keyword ++ b.gap ++ b.id ++ '|' :: b.args,
        cs.drop (b.indent ++ GridBlock.keyword ++ b.gap ++ b.id ++ '|' :: b.args).length, b.id⟩ := by
  rw [entryAhead?, taken]

theorem entryAhead?_header {cs : List Char} (none : GridBlock.take? cs = none) :
    entryAhead? cs = (takeEntryHeader? cs).map fun read =>
      ⟨read.1, cs.drop read.1.length, read.2⟩ := by
  rw [entryAhead?, none]

namespace Returns
variable {l d : List Char}

theorem takeEntryHeader? (returns : Returns l d) :
    Definition.takeEntryHeader? d = Definition.takeEntryHeader? l := by
  rw [Definition.takeEntryHeader?, Definition.takeEntryHeader?]
  have run := returns.takeRun (p := isLineBlank) rfl rfl
  generalize Text.takeRun isLineBlank l = a, Text.takeRun isLineBlank d = b at run ⊢
  obtain ⟨blanks, r₀⟩ := a
  obtain ⟨_, s₀⟩ := b
  obtain ⟨rfl, h₀⟩ := run
  refine (rel_eq_iff.1 (rel_bind (Returns.stripLeading? h₀ (oneLine_single rfl))
    fun r₁ s₁ h₁ => ?_)).symm
  refine rel_bind h₁.takeQuestionId? ?_
  rintro ⟨id, r₂⟩ ⟨_, s₂⟩ ⟨rfl, h₂⟩
  -- The annotation is put in front of what closes the header or begins its options.
  have closes {mark r s : List Char} (h : Returns r s) :=
    rel_eq_iff.2 (h.nextIf (fun next => next == ']' || next == ',') rfl rfl
      (blanks ++ '[' :: id ++ mark, id))
  change Returns r₂ s₂ at h₂
  cases h₂ with
  | nil => exact .none
  | feed => exact .none
  | @same c r s plain rest =>
    by_cases hard : c = '!'
    · subst hard
      exact closes rest
    · by_cases soft : c = '?'
      · subst soft
        exact closes rest
      · simp only
        split
        · next same => exact absurd (List.cons.inj same).1 hard
        · next same => exact absurd (List.cons.inj same).1 soft
        · split
          · next same => exact absurd (List.cons.inj same).1 hard
          · next same => exact absurd (List.cons.inj same).1 soft
          · exact closes (.same plain rest)

/-- The text behind an entry is what the whole text leaves. -/
theorem entry (returns : Returns l d) {e f : EntryPoint}
    (left : Definition.entryAhead? l = some e) (right : Definition.entryAhead? d = some f)
    (before : Returns e.before f.before) (id : f.id = e.id) : e.Alike f := by
  have opens := entryAhead?_opens left
  refine ⟨before, before.behind ?_, id, opens.shaped⟩
  rw [← opens.whole, ← (entryAhead?_opens right).whole]
  exact returns

theorem entryAhead? (returns : Returns l d) : Option.Rel EntryPoint.Alike
    (Definition.entryAhead? l) (Definition.entryAhead? d) := by
  rcases rel_cases returns.takeGrid? with
    ⟨left, right⟩ | ⟨⟨b, t⟩, ⟨c, u⟩, left, right, same, -⟩
  · have first := entryAhead?_header left
    have second := entryAhead?_header right
    rw [returns.takeEntryHeader?] at second
    cases header : Definition.takeEntryHeader? l with
    | none =>
      rw [first, second, header]
      exact .none
    | some read =>
      rw [header] at first second
      rw [first, second]
      refine .some (returns.entry first second (.refl fun member => returns.plain ?_) rfl)
      rw [(entryAhead?_opens first).whole]
      exact List.mem_append_left _ member
  · have blocks : b.Alike c := same
    have first := entryAhead?_grid left
    have second := entryAhead?_grid right
    rw [first, second]
    refine .some (returns.entry first second ?_ blocks.id)
    have front : Returns (b.indent ++ GridBlock.keyword ++ b.gap ++ b.id)
        (b.indent ++ GridBlock.keyword ++ b.gap ++ b.id) := by
      refine .refl fun member => returns.plain ?_
      rw [GridBlock.take?_append left]
      simp only [GridBlock.toChars, List.mem_append] at member ⊢
      tauto
    simp only [blocks.indent, blocks.gap, blocks.id]
    exact front.bar blocks.args

theorem entryPoint? (returns : Returns l d) : Option.Rel EntryPoint.Alike
    (Definition.entryPoint? l) (Definition.entryPoint? d) := by
  -- An entry behind the first line stands behind that line.
  have step {c : Char} {cs : List Char} : Definition.entryPoint? (c :: cs) =
      (Definition.entryAhead? (c :: cs)).or
        ((Definition.entryPoint? (Definition.takeLine (c :: cs)).2).map fun e =>
          { e with before := (Definition.takeLine (c :: cs)).1 ++ e.before }) := by
    rw [Definition.entryPoint?]
    cases Definition.entryAhead? (c :: cs) <;> rfl
  induction size : l.length using Nat.strongRecOn generalizing l d with
  | _ n ih =>
    subst size
    have ahead := returns.entryAhead?
    have line := returns.takeLine
    have further {c : Char} {cs : List Char} (first : l = c :: cs) :=
      ih _ (by rw [first]; exact takeLine_rest_length c cs) line.2 rfl
    have both {c c' : Char} {cs cs' : List Char} (left : l = c :: cs) (right : d = c' :: cs') :
        Option.Rel EntryPoint.Alike (Definition.entryPoint? l) (Definition.entryPoint? d) := by
      have later := further left
      subst left
      subst right
      rw [step, step]
      generalize Definition.entryAhead? (c :: cs) = a, Definition.entryAhead? (c' :: cs') = b
        at ahead ⊢
      cases ahead with
      | some alike => exact .some alike
      | none =>
        refine rel_map later fun e f alike => ?_
        exact ⟨line.1.append alike.before, alike.after, alike.id, alike.shaped⟩
    cases returns with
    | nil =>
      rw [Definition.entryPoint?]
      exact .none
    | same => exact both rfl rfl
    | feed => exact both rfl rfl

theorem endsLine (returns : Returns l d) :
    Returns (Definition.endsLine l) (Definition.endsLine d) := by
  rw [Definition.endsLine, Definition.endsLine, returns.getLast?]
  split
  · exact returns
  · exact returns.append (.same (by decide) .nil)

end Returns

/-! ### Copies -/

theorem annotation_plain {loop : LoopHeader} (bound : '\r' ∉ loop.bound.toList) (iteration : Nat)
    {id : List Char} (shaped : IsQuestionId (String.ofList id)) :
    '\r' ∉ noteOf loop iteration id := by
  have note {cs : List Char} (chars : ∀ c ∈ cs, isNoteChar c = true) : '\r' ∉ cs := by
    intro member
    cases chars _ member
  have number (n : Nat) : '\r' ∉ (toString n).toList := note (toString_noteChar n)
  have text {key value : String} (named : '\r' ∉ key.toList) (plain : '\r' ∉ value.toList) :
      '\r' ∉ noteText key value := by
    simp [noteText, named, plain]
  rw [noteOf, annotation_toList]
  simp only [List.mem_append, not_or]
  refine ⟨text ?_ (number _), text ?_ bound, text ?_ (number _), text ?_ (number _),
    text ?_ (note (stemOf_noteChar shaped iteration))⟩
  all_goals decide

theorem markerLine_plain (m : LoopMarker) : '\r' ∉ markerLine m := by
  intro member
  have whole : markerLine m = '[' :: (m.id.toList ++ [']']) ++ ['\n'] := by simp [markerLine]
  rw [whole] at member
  rcases List.mem_append.1 member with inside | feed
  · rcases List.mem_cons.1 inside with bracket | inside
    · cases bracket
    · cases oneLine_marker m _ inside
  · cases List.mem_singleton.1 feed

theorem writeIndex_byLine (iteration : Nat) : ByLine fun body => writeIndex body iteration := by
  have plain (n : Nat) : '\r' ∉ (toString n).toList := fun member => by
    cases isDigit_toString n _ member
  have current : OneLine loopIndexToken.toList := by decide
  have previous : OneLine previousIndexToken := by decide
  exact (replaceLiteral_byLine current (plain _)).comp (replaceLiteral_byLine previous (plain _))

namespace Returns
variable {l d : List Char} {loop : LoopHeader}

theorem unrollOnce? (returns : Returns l d) {names : List String} (inLine : NamesInLine names)
    (bound : '\r' ∉ loop.bound.toList) (iteration : Nat) : Option.Rel Returns
    (Definition.unrollOnce? names loop l iteration)
    (Definition.unrollOnce? names loop d iteration) := by
  have byLine := renameAll_byLine inLine iteration
  have copy := (((writeIndex_byLine iteration).returns returns).renameInGrids byLine).renameInCode
    byLine
  refine rel_bind copy.entryPoint? fun e f alike => ?_
  have note : Returns (noteOf loop iteration e.id) (noteOf loop iteration e.id) :=
    .refl (annotation_plain bound iteration alike.shaped)
  have marker : Returns (markerLine (.continuation loop.index iteration))
      (markerLine (.continuation loop.index iteration)) := .refl (markerLine_plain _)
  rw [alike.id]
  exact .some ((((alike.before.append note).append alike.after).endsLine).append marker)

theorem unroll? (returns : Returns l d) (inLines : BlocksInLines l)
    (bound : '\r' ∉ loop.bound.toList) :
    Option.Rel Returns (Definition.unroll? loop l) (Definition.unroll? loop d) := by
  rw [Definition.unroll?, Definition.unroll?, returns.declaredIds inLines]
  have inLine := namesInLine returns.plain inLines
  refine rel_bind (mapM_rel (fun i => returns.unrollOnce? inLine bound (i + 1)) _)
    fun left right copies => ?_
  exact .some ((flatten copies).append (.refl (markerLine_plain _)))

end Returns

/-! ### The whole text -/

theorem readHeader_alike {b c : LoopBlock} (alike : b.Alike c) (limits : Limits) (index : Nat)
    (fail fail' : DefinitionFault → SurveyError) :
    Together (fun h h' => h' = h ∧ '\r' ∉ h.bound.toList)
      (readHeader limits index b fail) (readHeader limits index c fail') := by
  rw [readHeader, readHeader, alike.body.containsLiteral (by decide) (by decide),
    alike.attribute?, alike.attribute?]
  cases containsLiteral LoopBlock.openTag b.body with
  | true => exact .fail
  | false =>
    cases found : b.attribute? "bound" with
    | none => exact .fail
    | some bound =>
      cases (b.attribute? "max").bind readUInt32? with
      | none => exact .fail
      | some maximum =>
        by_cases above : maximum > limits.maxLoopIterations
        · simp only [above, if_true]
          exact .fail
        · simp only [above, if_false]
          exact .succeed ⟨rfl, LoopBlock.attribute?_plain found⟩

theorem unrollAll_alike {l d : List Char} (returns : Returns l d)
    (inLines : ∀ b ∈ loopBlocks l, BlocksInLines b.body) (limits : Limits) (sourceId : String)
    (index : Nat) (before before' : List Char) : Together Returns
      (unrollAll limits sourceId index before l) (unrollAll limits sourceId index before' d) := by
  -- The text in front of a block only tells the place of its faults.
  induction size : l.length using Nat.strongRecOn generalizing l d index before before' with
  | _ n ih =>
    subst size
    rcases rel_cases returns.findLoop? with
      ⟨left, right⟩ | ⟨⟨plain, b, rest⟩, ⟨plain', c, rest'⟩, left, right, front, alike, behind⟩
    · rw [unrollAll_none left, unrollAll_none right]
      exact .succeed returns
    · rw [loopBlocks_some left] at inLines
      obtain ⟨here, later⟩ := List.forall_mem_cons.1 inLines
      rw [unrollAll_some left, unrollAll_some right]
      refine (readHeader_alike alike limits index _ _).bind ?_
      rintro loop loop' ⟨rfl, bound⟩
      have copies := Returns.unroll? alike.body here bound
      generalize unroll? loop' b.body = x, unroll? loop' c.body = y at copies ⊢
      cases copies with
      | none => exact .fail
      | some expanded =>
        refine (ih _ (LoopBlock.find?_length left) behind later _ _ _ rfl).bind ?_
        intro further further' more
        exact .succeed ((Returns.append front expanded).append more)

theorem expandLoops_alike {left right : String} (returns : Returns left.toList right.toList)
    (inLines : ∀ b ∈ loopBlocks left.toList, BlocksInLines b.body) (limits : Limits)
    (sourceId : String) : Together (fun l d => Returns l.toList d.toList)
      (expandLoops limits sourceId left) (expandLoops limits sourceId right) := by
  have unrolled := unrollAll_alike returns inLines limits sourceId 0 [] []
  rw [expandLoops, expandLoops]
  generalize unrollAll limits sourceId 0 [] left.toList = a,
    unrollAll limits sourceId 0 [] right.toList = b at unrolled ⊢
  cases unrolled with
  | fail => exact .fail
  | succeed related => exact .succeed (by simpa using related)

end Questionnaire.Definition
