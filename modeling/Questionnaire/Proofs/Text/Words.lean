import Mathlib.Data.List.TakeWhile
import Questionnaire.Text.Word

/-! Texts taken word by word. A word is a longest run of word characters; whatever stands
between the words stays when they are replaced. -/
namespace Questionnaire.Text
variable {f g : List Char → List Char} {w cs before after : List Char} {c : Char}

/-- The first character, if there is one, is of another kind. -/
def Ends (p : Char → Bool) (cs : List Char) : Prop := cs.head?.any p = false

theorem Ends.mono {p q : Char → Bool} (weaker : ∀ c, q c = true → p c = true)
    (ends : Ends p cs) : Ends q cs := by
  cases cs with
  | nil => rfl
  | cons c cs =>
    have other : p c = false := ends
    refine Bool.eq_false_iff.2 fun holds => ?_
    rw [weaker c holds] at other
    cases other

theorem dropWhile_ends (p : Char → Bool) (cs : List Char) : Ends p (cs.dropWhile p) := by
  induction cs with
  | nil => rfl
  | cons c cs ih =>
    rw [List.dropWhile_cons]
    split
    · exact ih
    · next other => simpa [Ends] using other

theorem takeWhile_append_ends {p : Char → Bool} (chars : ∀ c ∈ w, p c = true) (ends : Ends p cs) :
    (w ++ cs).takeWhile p = w ∧ (w ++ cs).dropWhile p = cs := by
  induction w with
  | nil =>
    cases cs with
    | nil => exact ⟨rfl, rfl⟩
    | cons c cs =>
      have other : p c = false := ends
      simp [other]
  | cons c w ih =>
    obtain ⟨taken, left⟩ := ih fun x member => chars x (List.mem_cons_of_mem _ member)
    simp [chars c List.mem_cons_self, taken, left]

/-- Replaces every word of a text. -/
def mapWords (f : List Char → List Char) (cs : List Char) : List Char :=
  match cs with
  | [] => []
  | c :: cs =>
    if isWord c then f (c :: cs.takeWhile isWord) ++ mapWords f (cs.dropWhile isWord)
    else c :: mapWords f cs
termination_by cs.length
decreasing_by
  · exact Nat.lt_succ_of_le (List.dropWhile_sublist isWord).length_le
  · exact Nat.lt_succ_self _

structure IsRun (w : List Char) : Prop where
  some : w ≠ []
  chars : ∀ c ∈ w, isWord c = true

theorem mapWords_nil (f : List Char → List Char) : mapWords f [] = [] := by rw [mapWords]

theorem mapWords_other (other : isWord c = false) (cs : List Char) :
    mapWords f (c :: cs) = c :: mapWords f cs := by
  rw [mapWords, if_neg (by simp [other])]

theorem others_of_all (others : cs.all (!isWord ·) = true) : ∀ c ∈ cs, isWord c = false :=
  fun c member => by simpa using List.all_eq_true.1 others c member

theorem mapWords_others (others : ∀ c ∈ before, isWord c = false) (cs : List Char) :
    mapWords f (before ++ cs) = before ++ mapWords f cs := by
  induction before with
  | nil => rfl
  | cons c before ih =>
    obtain ⟨other, others⟩ := List.forall_mem_cons.1 others
    rw [List.cons_append, mapWords_other other, ih others, List.cons_append]

theorem mapWords_run (run : IsRun w) (ends : Ends isWord cs) :
    mapWords f (w ++ cs) = f w ++ mapWords f cs := by
  cases w with
  | nil => exact absurd rfl run.some
  | cons c w =>
    obtain ⟨taken, left⟩ :=
      takeWhile_append_ends (fun x member => run.chars x (List.mem_cons_of_mem _ member)) ends
    rw [List.cons_append, mapWords, if_pos (run.chars c List.mem_cons_self), taken, left]

/-- A text is empty, begins outside of words, or begins with a word that ends. -/
theorem words_induction {motive : List Char → Prop} (nil : motive [])
    (other : ∀ c cs, isWord c = false → motive cs → motive (c :: cs))
    (run : ∀ w cs, IsRun w → Ends isWord cs → motive cs → motive (w ++ cs))
    (cs : List Char) : motive cs := by
  match cs with
  | [] => exact nil
  | c :: cs =>
    by_cases word : isWord c = true
    · have shorter := Nat.lt_succ_of_le (List.dropWhile_sublist isWord (l := cs)).length_le
      have rest := words_induction nil other run (cs.dropWhile isWord)
      have first : IsRun (c :: cs.takeWhile isWord) :=
        ⟨by simp, List.forall_mem_cons.2 ⟨word, fun _ => List.mem_takeWhile_imp⟩⟩
      have whole := run _ _ first (dropWhile_ends isWord cs) rest
      rwa [List.cons_append, List.takeWhile_append_dropWhile] at whole
    · exact other c cs (by simpa using word) (words_induction nil other run cs)
termination_by cs.length

theorem IsRun.begins (run : IsRun w) (cs : List Char) : ¬Ends isWord (w ++ cs) := by
  cases w with
  | nil => exact absurd rfl run.some
  | cons c w => simp [Ends, run.chars c List.mem_cons_self]

theorem mapWords_ends (keeps : ∀ w, IsRun w → IsRun (f w)) (cs : List Char) :
    Ends isWord (mapWords f cs) ↔ Ends isWord cs := by
  induction cs using words_induction with
  | nil => rw [mapWords_nil]
  | other c cs other _ =>
    rw [mapWords_other other]
    rfl
  | run w cs run ends _ =>
    rw [mapWords_run run ends]
    exact iff_of_false ((keeps w run).begins _) (run.begins cs)

theorem mapWords_mapWords (keeps : ∀ w, IsRun w → IsRun (f w)) (cs : List Char) :
    mapWords g (mapWords f cs) = mapWords (g ∘ f) cs := by
  induction cs using words_induction with
  | nil => simp only [mapWords_nil]
  | other c cs other ih => rw [mapWords_other other, mapWords_other other, mapWords_other other, ih]
  | run w cs run ends ih =>
    have still := (mapWords_ends keeps cs).2 ends
    rw [mapWords_run run ends, mapWords_run (keeps w run) still, mapWords_run run ends, ih]
    rfl

theorem mapWords_congr (same : ∀ w, IsRun w → f w = g w) (cs : List Char) :
    mapWords f cs = mapWords g cs := by
  induction cs using words_induction with
  | nil => simp only [mapWords_nil]
  | other c cs other ih => rw [mapWords_other other, mapWords_other other, ih]
  | run w cs run ends ih => rw [mapWords_run run ends, mapWords_run run ends, same w run, ih]

theorem mapWords_id (cs : List Char) : mapWords (fun w => w) cs = cs := by
  induction cs using words_induction with
  | nil => exact mapWords_nil _
  | other c cs other ih => rw [mapWords_other other, ih]
  | run w cs run ends ih => rw [mapWords_run run ends, ih]

/-- No word goes on from one text into the next. -/
def Apart (before after : List Char) : Prop :=
  before.getLast?.any isWord = false ∨ Ends isWord after

theorem Apart.front {more : List Char} (apart : Apart before (after ++ more)) :
    Apart before after := by
  refine apart.imp_right fun ends => ?_
  cases after with
  | nil => rfl
  | cons c after => exact ends

theorem Apart.extend (apart : Apart before after) (some : after ≠ []) (more : List Char) :
    Apart before (after ++ more) := by
  refine apart.imp_right fun ends => ?_
  cases after with
  | nil => exact absurd rfl some
  | cons c after => exact ends

theorem Apart.back {more : List Char} (apart : Apart (more ++ before) after) :
    Apart before after := by
  refine apart.imp_left fun last => ?_
  cases before with
  | nil => rfl
  | cons c before => simpa [List.getLast?_append, List.getLast?_cons] using last

theorem Apart.tail (apart : Apart (c :: before) after) : Apart before after := by
  rw [← List.singleton_append] at apart
  exact apart.back

theorem Apart.join {between : List Char} (apart : Apart before (between ++ after))
    (rest : Apart between after) : Apart (before ++ between) after := by
  cases between with
  | nil => rwa [List.append_nil]
  | cons c between =>
    refine rest.imp_left fun last => ?_
    simpa [List.getLast?_append, List.getLast?_cons] using last

theorem IsRun.last (run : IsRun w) : w.getLast?.any isWord = true := by
  rw [List.getLast?_eq_some_getLast run.some, Option.any_some,
    run.chars _ (List.getLast_mem run.some)]

theorem Apart.ends (apart : Apart (w ++ cs) after) (run : IsRun w) (ends : Ends isWord cs) :
    Ends isWord (cs ++ after) := by
  cases cs with
  | nil =>
    refine apart.resolve_left fun last => ?_
    rw [List.append_nil, run.last] at last
    cases last
  | cons c cs => exact ends

theorem mapWords_append (apart : Apart before after) :
    mapWords f (before ++ after) = mapWords f before ++ mapWords f after := by
  induction before using words_induction with
  | nil => rw [mapWords_nil]; rfl
  | other c cs other ih =>
    rw [List.cons_append, mapWords_other other, mapWords_other other,
      ih apart.tail, List.cons_append]
  | run w cs run ends ih =>
    rw [List.append_assoc, mapWords_run run (apart.ends run ends), mapWords_run run ends,
      ih apart.back, List.append_assoc]

theorem isWord_of_ascii (ascii : isAsciiWord c = true) : isWord c = true := by
  have small : c.toNat < 128 := by
    delta isAsciiWord Char.isAlphanum Char.isAlpha Char.isUpper Char.isLower Char.isDigit at ascii
    simp only [Bool.or_eq_true, Bool.and_eq_true, decide_eq_true_eq, beq_iff_eq,
      UInt32.le_iff_toNat_le, ge_iff_le] at ascii
    change c.val.toNat < 128
    rcases ascii with ((⟨-, upper⟩ | ⟨-, lower⟩) | ⟨-, digit⟩) | rfl
    · exact Nat.lt_of_le_of_lt upper (by decide)
    · exact Nat.lt_of_le_of_lt lower (by decide)
    · exact Nat.lt_of_le_of_lt digit (by decide)
    · decide
  rw [isWord, if_pos small, ascii]

/-! Some words replaced -/

/-- Words that stand as they are after one replacement. -/
structure Settles (f : List Char → List Char) : Prop where
  run : ∀ w, IsRun w → IsRun (f w)
  twice : ∀ w, IsRun w → f (f w) = f w

/-- Every word of a text is kept or replaced. -/
inductive Rewords (f : List Char → List Char) : List Char → List Char → Prop
  | nil : Rewords f [] []
  | other {c : Char} {cs ds : List Char} (other : isWord c = false) (rest : Rewords f cs ds) :
      Rewords f (c :: cs) (c :: ds)
  | kept {w cs ds : List Char} (run : IsRun w) (ends : Ends isWord cs) (rest : Rewords f cs ds) :
      Rewords f (w ++ cs) (w ++ ds)
  | replaced {w cs ds : List Char} (run : IsRun w) (ends : Ends isWord cs)
      (rest : Rewords f cs ds) : Rewords f (w ++ cs) (f w ++ ds)

namespace Rewords
variable {ds es : List Char}

theorem refl (cs : List Char) : Rewords f cs cs := by
  induction cs using words_induction with
  | nil => exact .nil
  | other c cs other ih => exact .other other ih
  | run w cs run ends ih => exact .kept run ends ih

theorem mapWords (cs : List Char) : Rewords f cs (Text.mapWords f cs) := by
  induction cs using words_induction with
  | nil => rw [mapWords_nil]; exact .nil
  | other c cs other ih => rw [mapWords_other other]; exact .other other ih
  | run w cs run ends ih => rw [mapWords_run run ends]; exact .replaced run ends ih

theorem append (first : Rewords f cs ds) (apart : Apart cs after) (second : Rewords f after es) :
    Rewords f (cs ++ after) (ds ++ es) := by
  induction first with
  | nil => exact second
  | @other c _ _ other _ ih => exact .other other (ih apart.tail)
  | kept run ends _ ih =>
    rw [List.append_assoc, List.append_assoc]
    exact .kept run (apart.ends run ends) (ih apart.back)
  | replaced run ends _ ih =>
    rw [List.append_assoc, List.append_assoc]
    exact .replaced run (apart.ends run ends) (ih apart.back)

theorem nil_inv (rewords : Rewords f [] ds) : ds = [] := by
  generalize empty : [] = cs at rewords
  cases rewords with
  | nil => rfl
  | other => cases empty
  | kept run | replaced run => exact absurd (List.append_eq_nil_iff.1 empty.symm).1 run.some

theorem other_inv (rewords : Rewords f (c :: cs) ds) (other : isWord c = false) :
    ∃ es, ds = c :: es ∧ Rewords f cs es := by
  generalize text : c :: cs = whole at rewords
  cases rewords with
  | nil => cases text
  | other _ rest =>
    cases text
    exact ⟨_, rfl, rest⟩
  | kept run | replaced run =>
    have ends : Ends isWord (c :: cs) := other
    rw [text] at ends
    exact absurd ends (run.begins _)

theorem run_inv (rewords : Rewords f (w ++ cs) ds) (run : IsRun w) (ends : Ends isWord cs) :
    ∃ v es, ds = v ++ es ∧ (v = w ∨ v = f w) ∧ Rewords f cs es := by
  have same {w' cs' : List Char} (run' : IsRun w') (ends' : Ends isWord cs')
      (text : w ++ cs = w' ++ cs') : w = w' ∧ cs = cs' := by
    have first := takeWhile_append_ends run.chars ends
    have second := takeWhile_append_ends run'.chars ends'
    rw [← text] at second
    exact ⟨first.1.symm.trans second.1, first.2.symm.trans second.2⟩
  generalize text : w ++ cs = whole at rewords
  cases rewords with
  | nil => exact absurd (List.append_eq_nil_iff.1 text).1 run.some
  | other other =>
    have begins := run.begins cs
    rw [text] at begins
    exact absurd other begins
  | kept run' ends' rest =>
    obtain ⟨rfl, rfl⟩ := same run' ends' text
    exact ⟨_, _, rfl, .inl rfl, rest⟩
  | replaced run' ends' rest =>
    obtain ⟨rfl, rfl⟩ := same run' ends' text
    exact ⟨_, _, rfl, .inr rfl, rest⟩

theorem append_inv (rewords : Rewords f (before ++ after) ds) (apart : Apart before after) :
    ∃ xs ys, ds = xs ++ ys ∧ Rewords f before xs ∧ Rewords f after ys := by
  induction before using words_induction generalizing ds with
  | nil => exact ⟨[], ds, rfl, .nil, rewords⟩
  | other c cs other ih =>
    obtain ⟨es, rfl, rest⟩ := rewords.other_inv other
    obtain ⟨xs, ys, rfl, first, second⟩ := ih rest apart.tail
    exact ⟨c :: xs, ys, rfl, .other other first, second⟩
  | run w cs run ends ih =>
    rw [List.append_assoc] at rewords
    obtain ⟨v, es, rfl, word, rest⟩ := rewords.run_inv run (apart.ends run ends)
    obtain ⟨xs, ys, rfl, first, second⟩ := ih rest apart.back
    refine ⟨v ++ xs, ys, (List.append_assoc _ _ _).symm, ?_, second⟩
    rcases word with rfl | rfl
    · exact .kept run ends first
    · exact .replaced run ends first

theorem ends (rewords : Rewords f cs ds) (settles : Settles f) :
    Ends isWord ds ↔ Ends isWord cs := by
  cases rewords with
  | nil => exact Iff.rfl
  | other => exact Iff.rfl
  | kept run => exact iff_of_false (run.begins _) (run.begins _)
  | replaced run => exact iff_of_false ((settles.run _ run).begins _) (run.begins _)

theorem trans (first : Rewords f cs ds) (settles : Settles f) (second : Rewords f ds es) :
    Rewords f cs es := by
  induction first generalizing es with
  | nil => exact second
  | other other _ ih =>
    obtain ⟨es, rfl, rest⟩ := second.other_inv other
    exact .other other (ih rest)
  | kept run ends first ih =>
    obtain ⟨v, es, rfl, word, rest⟩ := second.run_inv run ((first.ends settles).2 ends)
    rcases word with rfl | rfl
    · exact .kept run ends (ih rest)
    · exact .replaced run ends (ih rest)
  | @replaced w _ _ run ends first ih =>
    obtain ⟨v, es, rfl, word, rest⟩ :=
      second.run_inv (settles.run _ run) ((first.ends settles).2 ends)
    have once : v = f w := word.elim id fun twice => twice.trans (settles.twice w run)
    rw [once]
    exact .replaced run ends (ih rest)

/-- Words that have been replaced stay. -/
theorem of_mapWords (settles : Settles f) (rewords : Rewords f (Text.mapWords f cs) ds) :
    ds = Text.mapWords f cs := by
  induction cs using words_induction generalizing ds with
  | nil =>
    rw [mapWords_nil] at rewords ⊢
    exact rewords.nil_inv
  | other c cs other ih =>
    rw [mapWords_other other] at rewords ⊢
    obtain ⟨es, rfl, rest⟩ := rewords.other_inv other
    rw [ih rest]
  | run w cs run ends ih =>
    rw [mapWords_run run ends] at rewords ⊢
    obtain ⟨v, es, rfl, word, rest⟩ :=
      rewords.run_inv (settles.run w run) ((mapWords_ends settles.run cs).2 ends)
    have once : v = f w := word.elim id fun twice => twice.trans (settles.twice w run)
    rw [once, ih rest]

/-- A text in which words have been replaced stays within another. -/
theorem settled {e xs ys : List Char} (settles : Settles f)
    (rewords : Rewords f (xs ++ (Text.mapWords f e ++ ys)) ds)
    (left : Apart xs (Text.mapWords f e ++ ys)) (right : Apart (Text.mapWords f e) ys) :
    ∃ xs' ys', ds = xs' ++ (Text.mapWords f e ++ ys') ∧ Rewords f xs xs' ∧ Rewords f ys ys' := by
  obtain ⟨xs', rest, rfl, first, rewords⟩ := rewords.append_inv left
  obtain ⟨middle, ys', rfl, within, last⟩ := rewords.append_inv right
  rw [within.of_mapWords settles]
  exact ⟨xs', ys', rfl, first, last⟩

/-- What is kept account of outside of words does not depend on the words. -/
theorem foldl {σ : Type} {step : σ → Char → σ} (rewords : Rewords f cs ds) (settles : Settles f)
    (word : σ → σ) (blind : ∀ s x, isWord x = true → step s x = word s)
    (once : ∀ s, word (word s) = word s) (s : σ) : ds.foldl step s = cs.foldl step s := by
  have passed {w : List Char} (run : IsRun w) (s : σ) : w.foldl step s = word s := by
    have further (w : List Char) (chars : ∀ c ∈ w, isWord c = true) (s : σ) :
        w.foldl step (word s) = word s := by
      induction w with
      | nil => rfl
      | cons c w ih =>
        obtain ⟨first, chars⟩ := List.forall_mem_cons.1 chars
        rw [List.foldl_cons, blind _ c first, once, ih chars]
    cases w with
    | nil => exact absurd rfl run.some
    | cons c w =>
      obtain ⟨first, chars⟩ := List.forall_mem_cons.1 run.chars
      rw [List.foldl_cons, blind s c first, further w chars]
  induction rewords generalizing s with
  | nil => rfl
  | other _ _ ih => rw [List.foldl_cons, List.foldl_cons, ih]
  | kept run _ _ ih => rw [List.foldl_append, List.foldl_append, ih]
  | replaced run _ _ ih =>
    rw [List.foldl_append, List.foldl_append, passed run, passed (settles.run _ run), ih]

end Rewords

end Questionnaire.Text
