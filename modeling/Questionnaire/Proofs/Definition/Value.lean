import Mathlib.Data.List.TakeWhile
import Questionnaire.Definition.Segment

/-! Values of options and the line that they stand in. A value reaches over whole groups of
parentheses and not beyond its line, so that what follows the line does not matter. -/
namespace Questionnaire.Definition

open Text

/-- A line ends here, or the text does. -/
def LineEnd (t : List Char) : Prop := ∀ c ∈ t.head?, isNewline c = true

def OneLine (cs : List Char) : Prop := ∀ c ∈ cs, isNewline c = false

instance (cs : List Char) : Decidable (OneLine cs) :=
  List.decidableBAll (fun c => isNewline c = false) cs

theorem OneLine.append {cs ds : List Char} (left : OneLine cs) (right : OneLine ds) :
    OneLine (cs ++ ds) := fun c member => (List.mem_append.1 member).elim (left c) (right c)

theorem oneLine_single {c : Char} (plain : isNewline c = false) : OneLine [c] := by
  intro d member
  obtain rfl := List.mem_singleton.1 member
  exact plain

theorem isNewline_cases {c : Char} (newline : isNewline c = true) : c = '\n' ∨ c = '\r' := by
  simpa [isNewline] using newline

theorem isLineBlank_cases {c : Char} (blank : isLineBlank c = true) : c = ' ' ∨ c = '\t' := by
  simpa [isLineBlank] using blank

section Holds
variable {p : Char → Bool} {c d : Char} {cs : List Char}

theorem ne_of_holds (holds : p c = true) (fails : p d = false) : c ≠ d := by
  rintro rfl
  rw [holds] at fails
  contradiction

theorem eq_false_of_newline (newline : isNewline c = true) (feed : p '\n' = false)
    (back : p '\r' = false) : p c = false := by
  rcases isNewline_cases newline with rfl | rfl
  · exact feed
  · exact back

theorem isNewline_eq_false (holds : p c = true) (feed : p '\n' = false)
    (back : p '\r' = false) : isNewline c = false := by
  apply Bool.eq_false_iff.2
  intro newline
  rw [eq_false_of_newline newline feed back] at holds
  contradiction

theorem isLineBlank_eq_false (holds : p c = true) (space : p ' ' = false)
    (tab : p '\t' = false) : isLineBlank c = false := by
  apply Bool.eq_false_iff.2
  intro blank
  rcases isLineBlank_cases blank with rfl | rfl
  · exact ne_of_holds holds space rfl
  · exact ne_of_holds holds tab rfl

theorem oneLine_of_holds (holds : ∀ c ∈ cs, p c = true) (feed : p '\n' = false)
    (back : p '\r' = false) : OneLine cs :=
  fun c member => isNewline_eq_false (holds c member) feed back

end Holds

theorem takeWhile_append_stop {p : Char → Bool} {t : List Char} (cs : List Char)
    (stop : ∀ c ∈ t.head?, p c = false) : (cs ++ t).takeWhile p = cs.takeWhile p := by
  induction cs with
  | nil =>
    cases t with
    | nil => rfl
    | cons c t => simp [stop c rfl]
  | cons c cs ih =>
    rw [List.cons_append, List.takeWhile_cons, List.takeWhile_cons, ih]

theorem dropWhile_append_stop {p : Char → Bool} {t : List Char} (cs : List Char)
    (stop : ∀ c ∈ t.head?, p c = false) : (cs ++ t).dropWhile p = cs.dropWhile p ++ t := by
  induction cs with
  | nil =>
    cases t with
    | nil => rfl
    | cons c t => simp [stop c rfl]
  | cons c cs ih =>
    rw [List.cons_append, List.dropWhile_cons, List.dropWhile_cons, ih]
    split <;> rfl

theorem head?_dropWhile_not (p : Char → Bool) (cs : List Char) :
    ∀ c ∈ (cs.dropWhile p).head?, p c = false := by
  intro c head
  have kept := List.head?_dropWhile_not p cs
  rw [head] at kept
  simpa using kept

section LineEnd
variable {t : List Char} (lineEnd : LineEnd t)
include lineEnd

theorem LineEnd.stop {p : Char → Bool} (feed : p '\n' = false) (back : p '\r' = false) :
    ∀ c ∈ t.head?, p c = false := fun c head => eq_false_of_newline (lineEnd c head) feed back

theorem skipLineBlanks_lineEnd (cs : List Char) :
    skipLineBlanks (cs ++ t) = skipLineBlanks cs ++ t :=
  dropWhile_append_stop cs (lineEnd.stop rfl rfl)

end LineEnd

/-! ### Groups and values -/

/-- How many groups are open behind a character, without going below none. -/
def depthBehind (depth : Nat) (c : Char) : Nat :=
  if c == '(' then depth + 1 else if c == ')' then depth - 1 else depth

@[simp] theorem depthBehind_open (depth : Nat) : depthBehind depth '(' = depth + 1 := rfl

@[simp] theorem depthBehind_close (depth : Nat) : depthBehind depth ')' = depth - 1 := rfl

theorem depthBehind_plain {c : Char} (opens : c ≠ '(') (closes : c ≠ ')') (depth : Nat) :
    depthBehind depth c = depth := by
  simp [depthBehind, opens, closes]

/-- A text in which parentheses come in pairs. -/
def Paired (cs : List Char) : Prop := ∀ depth, cs.foldl depthBehind depth = depth

theorem paired_nil : Paired [] := fun _ => rfl

theorem Paired.append {cs ds : List Char} (left : Paired cs) (right : Paired ds) :
    Paired (cs ++ ds) := by
  intro depth
  rw [List.foldl_append, left, right]

theorem Paired.cons {c : Char} {cs : List Char} (opens : c ≠ '(') (closes : c ≠ ')')
    (rest : Paired cs) : Paired (c :: cs) := by
  intro depth
  rw [List.foldl_cons, depthBehind_plain opens closes, rest]

theorem paired_of_plain {cs : List Char} (plain : ∀ c ∈ cs, c ≠ '(' ∧ c ≠ ')') : Paired cs := by
  induction cs with
  | nil => exact paired_nil
  | cons c cs ih =>
    obtain ⟨here, rest⟩ := List.forall_mem_cons.1 plain
    exact .cons here.1 here.2 (ih rest)

theorem paired_of_holds {p : Char → Bool} {cs : List Char} (holds : ∀ c ∈ cs, p c = true)
    (opens : p '(' = false) (closes : p ')' = false) : Paired cs := by
  apply paired_of_plain
  intro c member
  exact ⟨ne_of_holds (holds c member) opens, ne_of_holds (holds c member) closes⟩

theorem takeGroup?_cons (depth : Nat) (c : Char) (cs : List Char) : takeGroup? depth (c :: cs) =
    if isNewline c then none
    else if c == ')' && depth == 0 then some ([], cs)
    else (takeGroup? (depthBehind depth c) cs).map fun group => (c :: group.1, group.2) := rfl

theorem takeGroup?_sound {depth : Nat} {cs inner rest : List Char}
    (taken : takeGroup? depth cs = some (inner, rest)) :
    cs = inner ++ ')' :: rest ∧ OneLine inner ∧
      ∀ t, takeGroup? depth (inner ++ ')' :: t) = some (inner, t) := by
  induction cs generalizing depth inner with
  | nil => cases taken
  | cons c cs ih =>
    rw [takeGroup?_cons] at taken
    split at taken
    · contradiction
    · next line =>
      split at taken
      · next closes =>
        cases taken
        simp only [Bool.and_eq_true, beq_iff_eq] at closes
        obtain ⟨rfl, rfl⟩ := closes
        refine ⟨rfl, ?_, fun t => rfl⟩
        intro x member
        cases member
      · next further =>
        obtain ⟨⟨more, behind⟩, inside, same⟩ := Option.map_eq_some_iff.1 taken
        simp only [Prod.mk.injEq] at same
        obtain ⟨rfl, rfl⟩ := same
        obtain ⟨rfl, oneLine, closed⟩ := ih inside
        refine ⟨rfl, ?_, fun t => ?_⟩
        · exact List.forall_mem_cons.2 ⟨Bool.eq_false_iff.2 line, oneLine⟩
        · rw [List.cons_append, takeGroup?_cons, if_neg line, if_neg further, closed t]
          rfl

/-- Groups further out do not matter to what a character does. -/
theorem depthBehind_outer {depth : Nat} {c : Char} (inside : ¬(c = ')' ∧ depth = 0)) (outer : Nat) :
    depthBehind (depth + outer) c = depthBehind depth c + outer := by
  by_cases opens : c = '('
  · subst opens
    simp only [depthBehind_open]
    omega
  · by_cases closes : c = ')'
    · subst closes
      have inner : depth ≠ 0 := by simpa using inside
      simp only [depthBehind_close]
      omega
    · rw [depthBehind_plain opens closes, depthBehind_plain opens closes]

/-- A group closes all parentheses but its own. -/
theorem takeGroup?_depth {depth : Nat} {cs inner rest : List Char}
    (taken : takeGroup? depth cs = some (inner, rest)) (outer : Nat) :
    inner.foldl depthBehind (depth + (outer + 1)) = outer + 1 := by
  induction cs generalizing depth inner with
  | nil => cases taken
  | cons c cs ih =>
    rw [takeGroup?_cons] at taken
    split at taken
    · contradiction
    · split at taken
      · next closes =>
        cases taken
        simp only [Bool.and_eq_true, beq_iff_eq] at closes
        rw [closes.2]
        exact Nat.zero_add _
      · next further =>
        obtain ⟨⟨more, behind⟩, inside, same⟩ := Option.map_eq_some_iff.1 taken
        simp only [Prod.mk.injEq] at same
        obtain ⟨rfl, rfl⟩ := same
        rw [List.foldl_cons, depthBehind_outer (by simpa using further), ih inside]

theorem takeGroup?_lineEnd {t : List Char} (lineEnd : LineEnd t) (depth : Nat) (cs : List Char) :
    takeGroup? depth (cs ++ t) =
      (takeGroup? depth cs).map fun group => (group.1, group.2 ++ t) := by
  induction cs generalizing depth with
  | nil =>
    cases t with
    | nil => rfl
    | cons c t =>
      rw [List.nil_append, takeGroup?_cons, if_pos (lineEnd c rfl)]
      rfl
  | cons c cs ih =>
    rw [List.cons_append, takeGroup?_cons, takeGroup?_cons, ih]
    split
    · rfl
    · split
      · rfl
      · rw [Option.map_map, Option.map_map]
        rfl

/-- A group that closes belongs to the value as a whole. -/
theorem takeValue_group {stop : Char → Bool} {depth : Nat} {cs inner rest : List Char}
    (taken : takeGroup? depth cs = some (inner, rest)) :
    takeValue stop (depth + 1) cs =
      (inner ++ ')' :: (takeValue stop 0 rest).1, (takeValue stop 0 rest).2) := by
  induction cs generalizing depth inner with
  | nil => cases taken
  | cons c cs ih =>
    rw [takeGroup?_cons] at taken
    split at taken
    · contradiction
    · split at taken
      · next closes =>
        cases taken
        simp only [Bool.and_eq_true, beq_iff_eq] at closes
        obtain ⟨rfl, rfl⟩ := closes
        rfl
      · next further =>
        obtain ⟨⟨more, behind⟩, inside, same⟩ := Option.map_eq_some_iff.1 taken
        simp only [Prod.mk.injEq] at same
        obtain ⟨rfl, rfl⟩ := same
        by_cases opens : c = '('
        · subst opens
          rw [depthBehind_open] at inside
          simp [takeValue, ih inside]
        · by_cases closes : c = ')'
          · subst closes
            cases depth with
            | zero => simp at further
            | succ depth =>
              rw [depthBehind_close, Nat.add_sub_cancel] at inside
              simp [takeValue, ih inside]
          · rw [depthBehind_plain opens closes] at inside
            simp [takeValue, opens, closes, ih inside]

/-- A whole value: groups, and other characters that stay within the line and end nothing. -/
inductive ValueText (stop : Char → Bool) : List Char → Prop
  | nil : ValueText stop []
  | char {c : Char} {v : List Char} (opens : c ≠ '(') (closes : c ≠ ')')
      (kept : (isNewline c || stop c) = false) (rest : ValueText stop v) : ValueText stop (c :: v)
  | group {inner v : List Char} (oneLine : OneLine inner)
      (closed : ∀ t, takeGroup? 0 (inner ++ ')' :: t) = some (inner, t))
      (rest : ValueText stop v) : ValueText stop ('(' :: (inner ++ ')' :: v))

/-- No value goes on here. -/
inductive ValueEnd (stop : Char → Bool) : List Char → Prop
  | nil : ValueEnd stop []
  | stop {c : Char} {t : List Char} (opens : c ≠ '(') (closes : c ≠ ')')
      (ends : (isNewline c || stop c) = true) : ValueEnd stop (c :: t)
  | closing {t : List Char} : ValueEnd stop (')' :: t)
  | unclosed {t : List Char} (unclosed : takeGroup? 0 t = none) : ValueEnd stop ('(' :: t)

theorem takeValue_sound (stop : Char → Bool) (cs : List Char) :
    ValueText stop (takeValue stop 0 cs).1 ∧ ValueEnd stop (takeValue stop 0 cs).2 := by
  induction h : cs.length using Nat.strongRecOn generalizing cs with
  | _ n ih =>
    subst h
    cases cs with
    | nil => exact ⟨.nil, .nil⟩
    | cons c cs =>
      by_cases opens : c = '('
      · subst opens
        cases taken : takeGroup? 0 cs with
        | none =>
          have read : takeValue stop 0 ('(' :: cs) = ([], '(' :: cs) := by
            simp [takeValue, taken]
          rw [read]
          exact ⟨.nil, .unclosed taken⟩
        | some group =>
          obtain ⟨inner, rest⟩ := group
          obtain ⟨same, oneLine, closed⟩ := takeGroup?_sound taken
          have read : takeValue stop 0 ('(' :: cs) = ('(' :: (inner ++ ')' ::
              (takeValue stop 0 rest).1), (takeValue stop 0 rest).2) := by
            simp [takeValue, taken, takeValue_group taken]
          have shorter : rest.length < ('(' :: cs).length := by
            rw [same]
            simp only [List.length_cons, List.length_append]
            omega
          obtain ⟨text, ends⟩ := ih rest.length shorter rest rfl
          rw [read]
          exact ⟨.group oneLine closed text, ends⟩
      · by_cases closes : c = ')'
        · subst closes
          exact ⟨.nil, .closing⟩
        · cases ends : isNewline c || stop c with
          | true =>
            have read : takeValue stop 0 (c :: cs) = ([], c :: cs) := by
              simp [takeValue, opens, closes, ends]
            rw [read]
            exact ⟨.nil, .stop opens closes ends⟩
          | false =>
            have read : takeValue stop 0 (c :: cs) =
                (c :: (takeValue stop 0 cs).1, (takeValue stop 0 cs).2) := by
              simp [takeValue, opens, closes, ends]
            obtain ⟨text, stops⟩ := ih cs.length (Nat.lt_succ_self _) cs rfl
            rw [read]
            exact ⟨.char opens closes ends text, stops⟩

theorem takeValue_complete {stop : Char → Bool} {v t : List Char} (text : ValueText stop v)
    (ends : ValueEnd stop t) : takeValue stop 0 (v ++ t) = (v, t) := by
  induction text with
  | nil =>
    cases ends with
    | nil => rfl
    | stop opens closes ends => simp [takeValue, opens, closes, ends]
    | closing => rfl
    | unclosed unclosed => simp [takeValue, unclosed]
  | char opens closes kept _ ih => simp [takeValue, opens, closes, kept, ih]
  | @group inner v _ closed _ ih =>
    have closed := closed (v ++ t)
    have inside := @takeValue_group stop 0 _ _ _ closed
    rw [Nat.zero_add] at inside
    rw [List.cons_append, List.append_assoc, List.cons_append, takeValue]
    simp [closed, inside, ih]

theorem ValueText.oneLine {stop : Char → Bool} {v : List Char} (text : ValueText stop v) :
    OneLine v := by
  induction text with
  | nil => intro c member; cases member
  | char _ _ kept _ ih =>
    rw [Bool.or_eq_false_iff] at kept
    exact List.forall_mem_cons.2 ⟨kept.1, ih⟩
  | group oneLine _ _ ih =>
    exact List.forall_mem_cons.2 ⟨rfl, oneLine.append (List.forall_mem_cons.2 ⟨rfl, ih⟩)⟩

theorem ValueText.paired {stop : Char → Bool} {v : List Char} (text : ValueText stop v) :
    Paired v := by
  induction text with
  | nil => exact paired_nil
  | char opens closes _ _ ih => exact .cons opens closes ih
  | group _ closed _ ih =>
    intro depth
    have inside := takeGroup?_depth (closed []) depth
    rw [Nat.zero_add] at inside
    rw [List.foldl_cons, List.foldl_append, List.foldl_cons, depthBehind_open, inside,
      depthBehind_close, Nat.add_sub_cancel, ih]

theorem ValueText.of_plain {stop : Char → Bool} {v : List Char}
    (plain : ∀ c ∈ v, c ≠ '(' ∧ c ≠ ')' ∧ (isNewline c || stop c) = false) : ValueText stop v := by
  induction v with
  | nil => exact .nil
  | cons c v ih =>
    obtain ⟨⟨opens, closes, kept⟩, rest⟩ := List.forall_mem_cons.1 plain
    exact .char opens closes kept (ih rest)

theorem ValueEnd.append {stop : Char → Bool} {t u : List Char} (ends : ValueEnd stop t)
    (lineEnd : LineEnd u) : ValueEnd stop (t ++ u) := by
  cases ends with
  | nil =>
    cases u with
    | nil => exact .nil
    | cons c u =>
      have newline := lineEnd c rfl
      exact .stop (ne_of_holds newline rfl) (ne_of_holds newline rfl) (by rw [newline]; rfl)
  | stop opens closes ends => exact .stop opens closes ends
  | closing => exact .closing
  | @unclosed t unclosed =>
    have further := takeGroup?_lineEnd lineEnd 0 t
    rw [unclosed] at further
    exact .unclosed further

theorem takeValue_lineEnd {t : List Char} (lineEnd : LineEnd t) (stop : Char → Bool)
    (cs : List Char) : takeValue stop 0 (cs ++ t) =
      ((takeValue stop 0 cs).1, (takeValue stop 0 cs).2 ++ t) := by
  obtain ⟨text, ends⟩ := takeValue_sound stop cs
  have joined := takeValue_append stop 0 cs
  have read := takeValue_complete text (ends.append lineEnd)
  rwa [← List.append_assoc, joined] at read

end Questionnaire.Definition
