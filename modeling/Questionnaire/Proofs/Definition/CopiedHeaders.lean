import Questionnaire.Proofs.Definition.Conditions
import Questionnaire.Proofs.Definition.Forms
import Questionnaire.Proofs.LineEnding.Renaming

/-! Headers in a copy of a loop body. Code is renamed line by line, and words that were replaced
in a grid before are settled. So every header that closes in its line has its identifier in the
form of the iteration, and no other line becomes a header. -/
namespace Questionnaire.Definition

open Text

/-! Lines -/

theorem takeLine_plain {cs : List Char} (plain : '\n' ∉ cs) : takeLine cs = (cs, []) := by
  induction cs with
  | nil => rfl
  | cons c cs ih =>
    rw [List.mem_cons, not_or] at plain
    rw [takeLine, if_neg (by simpa using Ne.symm plain.1), ih plain.2]

theorem lines_plain {cs : List Char} (some : cs ≠ []) (plain : '\n' ∉ cs) : lines cs = [cs] := by
  have line := takeLine_plain plain
  obtain ⟨c, more, rfl⟩ := List.exists_cons_of_ne_nil some
  rw [lines, line, lines]

theorem lines_cut {xs : List Char} (plain : '\n' ∉ xs) (ys : List Char) :
    lines (xs ++ '\n' :: ys) = (xs ++ ['\n']) :: lines ys := by
  have line := takeLine_complete plain ys
  obtain ⟨c, more, shape⟩ := List.exists_cons_of_ne_nil
    (show xs ++ '\n' :: ys ≠ [] by simp)
  rw [shape] at line ⊢
  rw [lines, line]

/-- A text is empty, one line, or a line in front of a text. -/
theorem line_induction {motive : List Char → Prop} (nil : motive [])
    (last : ∀ cs, cs ≠ [] → '\n' ∉ cs → motive cs)
    (line : ∀ xs ys, '\n' ∉ xs → motive ys → motive (xs ++ '\n' :: ys)) (cs : List Char) :
    motive cs := by
  induction size : cs.length using Nat.strongRecOn generalizing cs with
  | _ n ih =>
    subst size
    rcases cut_cases '\n' cs with plain | ⟨xs, ys, rfl, plain⟩
    · by_cases some : cs = []
      · subst some
        exact nil
      · exact last cs some plain
    · exact line xs ys plain (ih ys.length (by rw [List.length_append, List.length_cons]; omega)
        ys rfl)

section Lines
variable {f g : List Char → List Char} {lineStart : Bool} {code more xs : List Char}

/-- Whether a region ends in a line shows in the line. -/
theorem Region.feed_iff (ys : List Char) :
    Region lineStart code (more ++ '\n' :: ys) ↔ Region lineStart code more := by
  have ends : Ends (· != '\n') (more ++ '\n' :: ys) ↔ Ends (· != '\n') more := by
    cases more with
    | nil => exact iff_of_true rfl rfl
    | cons => exact Iff.rfl
  constructor
  · intro region
    cases region with
    | header blank plain => exact .header blank plain
    | arrow plain stop => exact .arrow plain (ends.1 stop)
    | braces plain => exact .braces plain
  · intro region
    cases region with
    | header blank plain => exact .header blank plain
    | arrow plain stop => exact .arrow plain (ends.2 stop)
    | braces plain => exact .braces plain

/-- Code is renamed in a line without regard to the lines behind it. -/
theorem renameInCode_feed (g : List Char → List Char) (lineStart : Bool) (xs ys : List Char) :
    renameInCode.go g lineStart 0 (xs ++ '\n' :: ys) =
      renameInCode.go g lineStart 0 xs ++ '\n' :: renameInCode g ys := by
  induction size : xs.length using Nat.strongRecOn generalizing xs lineStart with
  | _ n ih =>
    subst size
    cases xs with
    | nil => exact renameInCode_other g (Returns.takeCode?_feed lineStart ys)
    | cons c xs =>
      cases taken : takeCode? lineStart (c :: xs) with
      | some read =>
        obtain ⟨code, more⟩ := read
        obtain ⟨whole, region⟩ := takeCode?_eq_some_iff.1 taken
        have shorter : more.length < (c :: xs).length := by
          have := List.length_pos_of_ne_nil region.some
          rw [whole, List.length_append]
          omega
        rw [whole, List.append_assoc, renameInCode_region g ((Region.feed_iff ys).2 region),
          renameInCode_region g region, ih more.length shorter false more rfl, List.append_assoc]
      | none =>
        have none : takeCode? lineStart (c :: (xs ++ '\n' :: ys)) = none := by
          rw [Option.eq_none_iff_forall_ne_some]
          rintro ⟨code, rest⟩ taken'
          obtain ⟨whole, region⟩ := takeCode?_eq_some_iff.1 taken'
          rw [← List.cons_append] at whole
          obtain ⟨more, split, rfl⟩ :
              ∃ more, c :: xs = code ++ more ∧ rest = more ++ '\n' :: ys := by
            rcases List.append_eq_append_iff.1 whole with ⟨more, rfl, behind⟩ | split
            · cases more with
              | nil => exact ⟨[], by simp, by simpa using behind.symm⟩
              | cons d more =>
                obtain ⟨rfl, -⟩ := List.cons.inj behind
                exact absurd (by simp) region.oneLine
            · exact split
          have taken := takeCode?_eq_some_iff.2 ⟨split, (Region.feed_iff ys).1 region⟩
          simp_all
        rw [List.cons_append, renameInCode_other g none, renameInCode_other g taken,
          ih xs.length (Nat.lt_succ_self _) (c == '\n') xs rfl, List.cons_append]

theorem lines_renameInCode (settles : Settles f) (cs : List Char) :
    lines (renameInCode (mapWords f) cs) = (lines cs).map (renameInCode (mapWords f)) := by
  have rewords (xs : List Char) : Rewords f xs (renameInCode (mapWords f) xs) :=
    renameInCode_rewords f true xs
  have kept {xs : List Char} (plain : '\n' ∉ xs) : '\n' ∉ renameInCode (mapWords f) xs :=
    mt ((rewords xs).mem_iff settles rfl).1 plain
  induction cs using line_induction with
  | nil =>
    have empty : renameInCode (mapWords f) [] = [] := rfl
    rw [empty, lines, List.map_nil]
  | last cs some plain =>
    rw [lines_plain some plain, lines_plain ((rewords cs).ne_nil settles some) (kept plain)]
    rfl
  | line xs ys plain ih =>
    have feed : renameInCode (mapWords f) (xs ++ ['\n']) = renameInCode (mapWords f) xs ++ ['\n'] :=
      renameInCode_feed _ true xs []
    have split : renameInCode (mapWords f) (xs ++ '\n' :: ys) =
        renameInCode (mapWords f) xs ++ '\n' :: renameInCode (mapWords f) ys :=
      renameInCode_feed _ true xs ys
    rw [split, lines_cut (kept plain), lines_cut plain, List.map_cons, feed, ih]

/-- The lines of a text whose words were kept or replaced. -/
theorem lines_rewords {cs ds : List Char} (rewords : Rewords f cs ds) (settles : Settles f) :
    List.Forall₂ (Rewords f) (lines cs) (lines ds) := by
  have kept {xs as : List Char} (first : Rewords f xs as) (plain : '\n' ∉ xs) : '\n' ∉ as :=
    mt (first.mem_iff settles rfl).1 plain
  induction cs using line_induction generalizing ds with
  | nil =>
    rw [rewords.nil_inv, lines]
    exact .nil
  | last cs some plain =>
    rw [lines_plain some plain, lines_plain (rewords.ne_nil settles some) (kept rewords plain)]
    exact .cons rewords .nil
  | line xs ys plain ih =>
    obtain ⟨as, bs, rfl, first, second⟩ := rewords.cut (c := '\n') rfl
    rw [lines_cut plain, lines_cut (kept first plain)]
    exact .cons (first.around rfl .nil) (ih second)

/-- A line feed only ends a line. -/
theorem lines_dropLast (cs : List Char) : ∀ line ∈ lines cs, '\n' ∉ line.dropLast := by
  induction cs using line_induction with
  | nil =>
    rw [lines]
    exact List.forall_mem_nil _
  | last cs some plain =>
    rw [lines_plain some plain, List.forall_mem_singleton]
    exact mt List.mem_of_mem_dropLast plain
  | line xs ys plain ih =>
    rw [lines_cut plain, List.forall_mem_cons, List.dropLast_concat]
    exact ⟨plain, ih⟩

end Lines

/-! Headers -/

/-- The identifier that a line declares. -/
def headerId? (line : List Char) : Option String := do
  let rest ← stripLeading? ['['] (skipLineBlanks line)
  let (id, rest) ← takeQuestionId? rest
  let next ← rest.head?
  if next == ']' || next == '!' || next == '?' || next == ',' then some (String.ofList id)
  else none

theorem headerIds_eq (cs : List Char) : headerIds cs = (lines cs).filterMap headerId? := rfl

/-- What may stand behind the identifier of a header. -/
def EndsId (c : Char) : Prop := c = ']' ∨ c = '!' ∨ c = '?' ∨ c = ','

theorem EndsId.stops {c : Char} (ends : EndsId c) :
    isWord c = false ∧ isQuestionIdChar c = false := by
  rcases ends with rfl | rfl | rfl | rfl <;> decide

theorem headerId?_eq_some_iff {line : List Char} {n : String} : headerId? line = some n ↔
    ∃ bs next t, line = bs ++ '[' :: (n.toList ++ next :: t) ∧ Blanks bs ∧ IsQuestionId n ∧
      EndsId next := by
  simp only [headerId?, Option.bind_eq_bind, Option.bind_eq_some_iff, Option.ite_none_right_eq_some,
    Prod.exists, Option.some.injEq, Bool.or_eq_true, beq_iff_eq, or_assoc]
  constructor
  · rintro ⟨opened, opens, id, rest, named, next, behind, ends, rfl⟩
    obtain ⟨t, rfl⟩ := List.head?_eq_some_iff.1 behind
    refine ⟨_, next, t, ?_, blanks_takeWhile line, takeQuestionId?_shape named, ends⟩
    have whole := blanks_append_skip line
    rw [stripLeading?_eq_some_iff.1 opens, GridBlock.takeQuestionId?_append named] at whole
    simpa using whole.symm
  · rintro ⟨bs, next, t, rfl, blanks, shaped, ends⟩
    have opened : skipLineBlanks (bs ++ '[' :: (n.toList ++ next :: t)) =
        ['['] ++ (n.toList ++ next :: t) :=
      skipLineBlanks_append blanks fun c head => by
        obtain rfl := Option.some.inj head
        rfl
    have named : takeQuestionId? (n.toList ++ next :: t) = some (n.toList, next :: t) :=
      takeQuestionId?_complete (by rwa [String.ofList_toList]) fun c head => by
        obtain rfl := Option.some.inj head
        exact ends.stops.2
    exact ⟨_, stripLeading?_eq_some_iff.2 opened, _, _, named, next, rfl, ends,
      String.ofList_toList⟩

/-- Headers that end in their line. -/
def HeadersClose (cs : List Char) : Prop :=
  ∀ line ∈ lines cs, (headerId? line).isSome = true → ']' ∈ line

section Header
variable {f : List Char → List Char} {cs ds w : List Char} {m n : String}

theorem run_of_isQuestionId (shaped : IsQuestionId n) : IsRun n.toList := by
  refine ⟨?_, fun c member => isWord_of_isQuestionIdChar (shaped.chars c member)⟩
  obtain ⟨c, cs, text, -⟩ := shaped
  simp [text]

theorem isWord_of_blanks (blanks : Blanks cs) : ∀ c ∈ cs, isWord c = false :=
  fun c member => Region.isWord_of_isLineBlank (blanks c member)

/-- A name with its words replaced. -/
def renamed (f : List Char → List Char) (n : String) : String :=
  String.ofList (mapWords f n.toList)

theorem mapWords_word (run : IsRun w) : mapWords f w = f w := by
  have alone : mapWords f (w ++ []) = f w ++ mapWords f [] := mapWords_run run rfl
  rwa [mapWords_nil, List.append_nil, List.append_nil] at alone

theorem renamed_word (run : IsRun n.toList) : (renamed f n).toList = f n.toList := by
  rw [renamed, String.toList_ofList, mapWords_word run]

namespace Lengthens

theorem shaped (lengthens : Lengthens f) (shaped : IsQuestionId n) :
    IsQuestionId (renamed f n) := by
  have run := run_of_isQuestionId shaped
  obtain ⟨c, cs, text, start, rest⟩ := shaped
  obtain ⟨more, longer, chars⟩ := lengthens.longer n.toList
  refine ⟨c, cs ++ more, ?_, start, List.forall_mem_append.2 ⟨rest, chars⟩⟩
  rw [renamed_word run, longer, text, List.cons_append]

/-- An identifier comes from one. -/
theorem unshaped (lengthens : Lengthens f) {v : List Char} (rewords : Rewords f w v)
    (shaped : IsQuestionId (String.ofList v)) : IsQuestionId (String.ofList w) := by
  have run := run_of_isQuestionId shaped
  rw [String.toList_ofList] at run
  obtain ⟨run', rfl | rfl⟩ := rewords.word lengthens.toSettles run
  · exact shaped
  · obtain ⟨c, cs, text, start, rest⟩ := shaped
    obtain ⟨more, longer, -⟩ := lengthens.longer w
    obtain ⟨d, w, rfl⟩ := List.exists_cons_of_ne_nil run'.some
    rw [String.toList_ofList, longer, List.cons_append] at text
    obtain ⟨rfl, rfl⟩ := List.cons.inj text
    exact ⟨d, w, String.toList_ofList, start, (List.forall_mem_append.1 rest).1⟩

end Lengthens

/-- A line that declares an identifier comes from one that does. -/
theorem headerId?_back (lengthens : Lengthens f) (rewords : Rewords f cs ds)
    (declares : headerId? ds = some m) : ∃ n, headerId? cs = some n := by
  obtain ⟨bs, next, t, rfl, blanks, shaped, ends⟩ := headerId?_eq_some_iff.1 declares
  obtain ⟨front, rest, rfl, first, rewords⟩ := rewords.uncut lengthens.toSettles (c := '[') rfl
  obtain ⟨w, u, rfl, word, -⟩ := rewords.uncut lengthens.toSettles ends.stops.1
  obtain rfl := first.others lengthens.toSettles (isWord_of_blanks blanks)
  have shaped' : IsQuestionId (String.ofList w) :=
    lengthens.unshaped word (by rwa [String.ofList_toList])
  exact ⟨_, headerId?_eq_some_iff.2
    ⟨front, next, u, by rw [String.toList_ofList], blanks, shaped', ends⟩⟩

/-- A word that was kept or replaced ends up replaced. -/
theorem mapWords_reworded (settles : Settles f) (run : IsRun w) (rewords : Rewords f w ds) :
    IsRun ds ∧ mapWords f ds = f w := by
  rw [← List.append_nil w] at rewords
  obtain ⟨v, es, rfl, word, rest⟩ := rewords.run_inv run rfl
  obtain rfl := rest.nil_inv
  rw [List.append_nil]
  rcases word with rfl | rfl
  · exact ⟨run, mapWords_word run⟩
  · exact ⟨settles.run w run, (mapWords_word (settles.run w run)).trans (settles.twice w run)⟩

/-- A header that ends in its line gets its identifier replaced, also if that was done already. -/
theorem headerId?_renamed (lengthens : Lengthens f) (rewords : Rewords f cs ds)
    (inLine : '\n' ∉ ds.dropLast) (closes : ']' ∈ cs) (declares : headerId? cs = some n) :
    headerId? (renameInCode (mapWords f) ds) = some (renamed f n) := by
  have settles := lengthens.toSettles
  have closed : ']' ∈ ds := (rewords.mem_iff settles rfl).2 closes
  obtain ⟨bs, next, t, rfl, blanks, shaped, ends⟩ := headerId?_eq_some_iff.1 declares
  obtain ⟨other, -⟩ := ends.stops
  obtain ⟨front, rest, rfl, first, rewords⟩ := rewords.cut (c := '[') rfl
  obtain ⟨v, u, rfl, word, -⟩ := rewords.cut other
  obtain rfl := first.plain (isWord_of_blanks blanks)
  obtain ⟨run, twice⟩ := mapWords_reworded settles (run_of_isQuestionId shaped) word
  have unclosed : ']' ∉ v := fun member => by cases run.chars _ member
  obtain ⟨between, after, split, plain⟩ : ∃ between after, next :: u = between ++ ']' :: after ∧
      ']' ∉ between := by
    refine (cut_cases ']' (next :: u)).resolve_left fun none => ?_
    rw [List.mem_append, List.mem_cons, List.mem_append] at closed
    rcases closed with within | same | within | behind
    · cases blanks _ within
    · cases same
    · exact unclosed within
    · exact none behind
  rw [split] at inLine ⊢
  have code : InCode [] v (front ++ ['[']) (between ++ ']' :: after) := by
    have shape : front ++ '[' :: (v ++ (between ++ ']' :: after)) =
        (front ++ '[' :: (v ++ between)) ++ ']' :: after := by simp
    rw [shape, List.dropLast_append_of_ne_nil (by simp)] at inLine
    refine .header rfl blanks fun c member => ?_
    rw [List.nil_append] at member
    have unfed : c ≠ '\n' := by
      rintro rfl
      exact inLine (by simp only [List.mem_append, List.mem_cons] at member ⊢; tauto)
    have open' : c ≠ ']' := by
      rintro rfl
      exact (List.mem_append.1 member).elim unclosed plain
    simp [unfed, open']
  obtain ⟨xs, ys, text, left, right⟩ := code.renamed f (.inl (by simp; rfl))
    (.inr (by rw [← split]; exact other)) run.some
  rw [List.nil_append] at text left
  obtain rfl := left.plain fun c member => by
    rcases List.mem_append.1 member with within | bracket
    · exact isWord_of_blanks blanks c within
    · rw [List.mem_singleton.1 bracket]
      rfl
  rw [← split] at right
  obtain ⟨es, rfl, -⟩ := right.other_inv other
  refine headerId?_eq_some_iff.2 ⟨front, next, es, ?_, blanks, lengthens.shaped shaped, ends⟩
  rw [renamed_word (run_of_isQuestionId shaped), ← twice]
  simpa using text

theorem filterMap_of_related {α β γ : Type} {r : α → β → Prop} {k : α → Option γ}
    {l : β → Option γ} {g : γ → γ} {as : List α} {bs : List β} (related : List.Forall₂ r as bs)
    (same : ∀ a ∈ as, ∀ b ∈ bs, r a b → l b = (k a).map g) :
    bs.filterMap l = (as.filterMap k).map g := by
  induction related with
  | nil => rfl
  | @cons a b _ _ first _ ih =>
    have here := same a List.mem_cons_self b List.mem_cons_self first
    have ih := ih fun a inside b inside' =>
      same a (List.mem_cons_of_mem _ inside) b (List.mem_cons_of_mem _ inside')
    cases found : k a with
    | none =>
      rw [found] at here
      rw [List.filterMap_cons_none here, List.filterMap_cons_none found, ih]
    | some c =>
      rw [found] at here
      rw [List.filterMap_cons_some here, List.filterMap_cons_some found, ih, List.map_cons]

/-- The headers of a text whose words were kept or replaced before its code is dealt with. -/
theorem headerIds_renamed (lengthens : Lengthens f) (rewords : Rewords f cs ds)
    (close : HeadersClose cs) :
    headerIds (renameInCode (mapWords f) ds) = (headerIds cs).map (renamed f) := by
  have settles := lengthens.toSettles
  rw [headerIds_eq, headerIds_eq, lines_renameInCode settles, List.filterMap_map]
  refine filterMap_of_related (lines_rewords rewords settles) fun a inside b inside' first => ?_
  cases declares : headerId? a with
  | some n =>
    exact headerId?_renamed lengthens first (lines_dropLast ds b inside')
      (close a inside (by rw [declares]; rfl)) declares
  | none =>
    rw [Option.map_none, Option.eq_none_iff_forall_ne_some]
    intro m declares'
    obtain ⟨n, declares'⟩ := headerId?_back lengthens
      (first.trans settles (renameInCode_rewords f true b)) declares'
    rw [declares] at declares'
    cases declares'

end Header

end Questionnaire.Definition
