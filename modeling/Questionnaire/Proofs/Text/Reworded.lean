import Mathlib.Data.List.Forall2
import Questionnaire.Proofs.Text.Cut
import Questionnaire.Proofs.Text.Words

/-! Texts in which words were kept or replaced, read from the result. What stands outside of
words is in both texts, so that they fall into the same parts at it, and each part of the one
comes from its part of the other. -/
namespace Questionnaire.Text
variable {f : List Char → List Char} {cs ds xs ys v : List Char} {c : Char}

namespace Rewords

/-- A text falls apart at a character outside of words where its original does. -/
theorem cut (rewords : Rewords f (xs ++ c :: ys) ds) (other : isWord c = false) :
    ∃ as bs, ds = as ++ c :: bs ∧ Rewords f xs as ∧ Rewords f ys bs := by
  obtain ⟨as, rest, rfl, first, rest⟩ := rewords.append_inv (.inr other)
  obtain ⟨bs, rfl, second⟩ := rest.other_inv other
  exact ⟨as, bs, rfl, first, second⟩

/-- The words of the result, each with what it comes from. -/
theorem run_cases {motive : List Char → List Char → Prop} (settles : Settles f)
    (rewords : Rewords f cs ds) (nil : motive [] [])
    (other : ∀ c cs ds, isWord c = false → Rewords f cs ds → motive cs ds →
      motive (c :: cs) (c :: ds))
    (run : ∀ w v cs ds, IsRun w → IsRun v → (v = w ∨ v = f w) → Ends isWord cs →
      Rewords f cs ds → motive cs ds → motive (w ++ cs) (v ++ ds)) : motive cs ds := by
  induction rewords with
  | nil => exact nil
  | other plain rest ih => exact other _ _ _ plain rest ih
  | kept word ends rest ih => exact run _ _ _ _ word word (.inl rfl) ends rest ih
  | replaced word ends rest ih =>
    exact run _ _ _ _ word (settles.run _ word) (.inr rfl) ends rest ih

/-- A text whose words may end at a place comes from one that falls apart there. -/
theorem unappend (settles : Settles f) (rewords : Rewords f cs (xs ++ ys)) (apart : Apart xs ys) :
    ∃ as bs, cs = as ++ bs ∧ Rewords f as xs ∧ Rewords f bs ys := by
  refine rewords.run_cases settles (motive := fun cs ds => ∀ xs, ds = xs ++ ys → Apart xs ys →
    ∃ as bs, cs = as ++ bs ∧ Rewords f as xs ∧ Rewords f bs ys) ?_ ?_ ?_ xs rfl apart
  · intro xs shape _
    obtain ⟨rfl, rfl⟩ := List.append_eq_nil_iff.1 shape.symm
    exact ⟨[], [], rfl, .nil, .nil⟩
  · intro d cs ds plain rest ih xs shape apart
    cases xs with
    | nil =>
      rw [List.nil_append] at shape
      exact ⟨[], d :: cs, rfl, .nil, shape ▸ .other plain rest⟩
    | cons x xs =>
      obtain ⟨rfl, behind⟩ := List.cons.inj shape
      obtain ⟨as, bs, rfl, first, second⟩ := ih xs behind apart.tail
      exact ⟨_ :: as, bs, rfl, .other plain first, second⟩
  · intro w v cs ds run run' word ends rest ih xs shape apart
    have whole {cs ds : List Char} (ends : Ends isWord cs) (rest : Rewords f cs ds) :
        Rewords f (w ++ cs) (v ++ ds) := by
      rcases word with rfl | rfl
      · exact .kept run ends rest
      · exact .replaced run ends rest
    by_cases none : xs = []
    · subst none
      rw [List.nil_append] at shape
      exact ⟨[], w ++ cs, rfl, .nil, shape ▸ whole ends rest⟩
    · -- The word ends in front of the place, as no word goes on there.
      obtain ⟨more, rfl, behind⟩ : ∃ more, xs = v ++ more ∧ ds = more ++ ys := by
        rcases List.append_eq_append_iff.1 shape with behind | ⟨more, rfl, behind⟩
        · exact behind
        · cases more with
          | nil => exact ⟨[], by simp, behind.symm⟩
          | cons d more =>
            have inner : IsRun xs := ⟨none, fun c member => run'.chars c (by simp [member])⟩
            have stops : Ends isWord ys := apart.resolve_left fun last => by
              rw [inner.last] at last
              cases last
            rw [behind] at stops
            have word : isWord d = true := run'.chars d (by simp)
            rw [show isWord d = false from stops] at word
            cases word
      obtain ⟨as, bs, rfl, first, second⟩ := ih more behind apart.back
      have ends : Ends isWord as := by
        cases as with
        | nil => rfl
        | cons => exact ends
      exact ⟨w ++ as, bs, (List.append_assoc w as _).symm, whole ends first, second⟩

/-- What has no words stays. -/
theorem plain (rewords : Rewords f cs ds) (plain : ∀ c ∈ cs, isWord c = false) : ds = cs := by
  induction cs generalizing ds with
  | nil => exact rewords.nil_inv
  | cons c cs ih =>
    obtain ⟨other, plain⟩ := List.forall_mem_cons.1 plain
    obtain ⟨es, rfl, rest⟩ := rewords.other_inv other
    rw [ih rest plain]

/-- What has no words comes from itself. -/
theorem others (settles : Settles f) (rewords : Rewords f cs ds)
    (plain : ∀ c ∈ ds, isWord c = false) : cs = ds := by
  refine rewords.run_cases settles
    (motive := fun cs ds => (∀ c ∈ ds, isWord c = false) → cs = ds) ?_ ?_ ?_ plain
  · exact fun _ => rfl
  · intro c cs ds _ _ ih plain
    rw [ih fun x member => plain x (List.mem_cons_of_mem c member)]
  · intro w v cs ds _ run _ _ _ _ plain
    obtain ⟨c, more, rfl⟩ := List.exists_cons_of_ne_nil run.some
    have word := run.chars c List.mem_cons_self
    rw [plain c (by simp)] at word
    cases word

/-- A character outside of words comes from itself. -/
theorem uncut (settles : Settles f) (rewords : Rewords f cs (xs ++ c :: ys))
    (other : isWord c = false) :
    ∃ as bs, cs = as ++ c :: bs ∧ Rewords f as xs ∧ Rewords f bs ys := by
  obtain ⟨as, rest, rfl, first, rewords⟩ := rewords.unappend settles (.inr other)
  rw [← List.singleton_append] at rewords
  obtain ⟨between, bs, rfl, here, second⟩ := rewords.unappend settles (.inl (by simpa using other))
  obtain rfl := here.others settles (by simpa using other)
  exact ⟨as, bs, rfl, first, second⟩

theorem ne_nil (settles : Settles f) (rewords : Rewords f cs ds) (some : cs ≠ []) : ds ≠ [] := by
  rintro rfl
  exact some (rewords.others settles nofun)

/-- A word comes from a word. -/
theorem word (settles : Settles f) (rewords : Rewords f cs v) (run : IsRun v) :
    IsRun cs ∧ (v = cs ∨ v = f cs) := by
  refine rewords.run_cases settles
    (motive := fun cs v => IsRun v → IsRun cs ∧ (v = cs ∨ v = f cs)) ?_ ?_ ?_ run
  · exact fun run => absurd rfl run.some
  · intro c cs ds other _ _ run
    have word := run.chars c List.mem_cons_self
    rw [other] at word
    cases word
  · intro w v cs ds run' _ word ends rest _ run
    obtain rfl : ds = [] := by
      by_contra some
      obtain ⟨c, more, rfl⟩ := List.exists_cons_of_ne_nil some
      have other : isWord c = false := (rest.ends settles).2 ends
      rw [run.chars c (by simp)] at other
      cases other
    obtain rfl := rest.others settles nofun
    simpa only [List.append_nil] using And.intro run' word

theorem mem_iff (settles : Settles f) (rewords : Rewords f cs ds) (other : isWord c = false) :
    c ∈ ds ↔ c ∈ cs := by
  have notMem {w : List Char} (run : IsRun w) : c ∉ w := fun member => by
    have word := run.chars c member
    rw [other] at word
    cases word
  refine rewords.run_cases settles (motive := fun cs ds => c ∈ ds ↔ c ∈ cs) Iff.rfl ?_ ?_
  · intro d cs ds _ _ ih
    rw [List.mem_cons, List.mem_cons, ih]
  · intro w v cs ds run run' _ _ _ ih
    simp [notMem run, notMem run', ih]

/-- Whether a text begins with one of some characters outside of words. -/
theorem ends_of_others {p : Char → Bool} (settles : Settles f) (rewords : Rewords f cs ds)
    (others : ∀ c, isWord c = true → p c = false) : Ends p ds ↔ Ends p cs := by
  have begins {w : List Char} (run : IsRun w) (cs : List Char) : Ends p (w ++ cs) := by
    obtain ⟨c, w, rfl⟩ := List.exists_cons_of_ne_nil run.some
    exact others c (run.chars c List.mem_cons_self)
  cases rewords with
  | nil => exact Iff.rfl
  | other => exact Iff.rfl
  | kept run => exact iff_of_true (begins run _) (begins run _)
  | replaced run => exact iff_of_true (begins (settles.run _ run) _) (begins run _)

end Rewords

/-! Parts of a text -/

theorem splitChars_plain (plain : c ∉ cs) : splitChars (· == c) cs = [cs] := by
  induction cs with
  | nil => rfl
  | cons d cs ih =>
    rw [List.mem_cons, not_or] at plain
    rw [splitChars, if_neg (by simpa using Ne.symm plain.1), ih plain.2]

theorem splitChars_cut (plain : c ∉ xs) (ys : List Char) :
    splitChars (· == c) (xs ++ c :: ys) = xs :: splitChars (· == c) ys := by
  induction xs with
  | nil => rw [List.nil_append, splitChars, if_pos (beq_self_eq_true c)]
  | cons d xs ih =>
    rw [List.mem_cons, not_or] at plain
    rw [List.cons_append, splitChars, if_neg (by simpa using Ne.symm plain.1), ih plain.2]

theorem splitChars_intercalate {parts : List (List Char)} (some : parts ≠ [])
    (plain : ∀ part ∈ parts, c ∉ part) :
    splitChars (· == c) ([c].intercalate parts) = parts := by
  induction parts with
  | nil => exact absurd rfl some
  | cons part parts ih =>
    obtain ⟨first, plain⟩ := List.forall_mem_cons.1 plain
    cases parts with
    | nil => simpa [List.intercalate] using splitChars_plain first
    | cons second parts =>
      rw [List.intercalate_cons_cons, List.append_assoc, List.singleton_append,
        splitChars_cut first, ih (by simp) plain]

/-- A text has no such character, or is cut at the first of them. -/
theorem cut_cases (c : Char) (cs : List Char) :
    c ∉ cs ∨ ∃ xs ys, cs = xs ++ c :: ys ∧ c ∉ xs := by
  by_cases member : c ∈ cs
  · exact .inr (List.eq_append_cons_of_mem member)
  · exact .inl member

/-- The parts between characters outside of words are kept or replaced word by word. -/
theorem Rewords.splitChars (rewords : Rewords f cs ds) (settles : Settles f)
    (other : isWord c = false) :
    List.Forall₂ (Rewords f) (splitChars (· == c) cs) (splitChars (· == c) ds) := by
  induction size : cs.length using Nat.strongRecOn generalizing cs ds with
  | _ n ih =>
    subst size
    rcases cut_cases c cs with plain | ⟨xs, ys, rfl, plain⟩
    · rw [splitChars_plain plain, splitChars_plain (mt (rewords.mem_iff settles other).1 plain)]
      exact .cons rewords .nil
    · obtain ⟨as, bs, rfl, first, second⟩ := rewords.cut other
      rw [splitChars_cut plain, splitChars_cut (mt (first.mem_iff settles other).1 plain)]
      exact .cons first (ih ys.length (by rw [List.length_append, List.length_cons]; omega)
        second rfl)

end Questionnaire.Text
