import Questionnaire.Proofs.Definition.Pieces
import Questionnaire.Proofs.Definition.Renaming

/-! Regions of code in a text, and what becomes of an expression in one of them. Regions are
found from left to right and hold no line feed. So an expression in a header, behind an arrow or
in braces lies in one region as a whole, unless a bracket of its own closes a region that was
opened in front of it. -/
namespace Questionnaire.Definition

open Text

/-- A region of code at the front of a text, with what follows it. -/
inductive Region : (lineStart : Bool) → (code rest : List Char) → Prop
  | header {blanks inner rest : List Char} (blank : Blanks blanks)
      (plain : ∀ c ∈ inner, (c != ']' && c != '\n') = true) :
      Region true (blanks ++ '[' :: (inner ++ [']'])) rest
  | arrow {lineStart : Bool} {inner rest : List Char} (plain : ∀ c ∈ inner, (c != '\n') = true)
      (ends : Ends (· != '\n') rest) : Region lineStart ('-' :: '>' :: inner) rest
  | braces {lineStart : Bool} {inner rest : List Char}
      (plain : ∀ c ∈ inner, (c != '}' && c != '\n') = true) :
      Region lineStart ('{' :: (inner ++ ['}'])) rest

/-- A closing bracket behind the characters in front of it. -/
theorem stripLeading?_dropWhile {p : Char → Bool} {close : Char} {cs rest : List Char}
    (other : p close = false) {inner : List Char} :
    (inner = cs.takeWhile p ∧ stripLeading? [close] (cs.dropWhile p) = some rest) ↔
      cs = inner ++ close :: rest ∧ ∀ c ∈ inner, p c = true := by
  rw [stripLeading?_eq_some_iff]
  constructor
  · rintro ⟨rfl, behind⟩
    refine ⟨?_, fun _ => List.mem_takeWhile_imp⟩
    rw [← List.singleton_append, ← behind, List.takeWhile_append_dropWhile]
  · rintro ⟨rfl, plain⟩
    have ends : Ends p (close :: rest) := other
    obtain ⟨taken, left⟩ := takeWhile_append_ends plain ends
    exact ⟨taken.symm, left⟩

section Take
variable {lineStart : Bool} {cs code rest : List Char}

theorem takeHeader?_eq_some_iff : takeHeader? cs = some (code, rest) ↔
    cs = code ++ rest ∧ ∃ blanks inner, Blanks blanks ∧
      (∀ c ∈ inner, (c != ']' && c != '\n') = true) ∧
      code = blanks ++ '[' :: (inner ++ [']']) := by
  simp only [takeHeader?, takeRun, Option.bind_eq_bind, Option.bind_eq_some_iff,
    Option.pure_def, Option.some.injEq, Prod.mk.injEq]
  constructor
  · rintro ⟨opened, opens, _, closes, rfl, rfl⟩
    obtain ⟨text, plain⟩ := (stripLeading?_dropWhile rfl).1 ⟨rfl, closes⟩
    refine ⟨?_, _, _, blanks_takeWhile cs, plain, by simp⟩
    have whole := List.takeWhile_append_dropWhile (p := isLineBlank) (l := cs)
    rw [stripLeading?_eq_some_iff.1 opens, text] at whole
    simpa using whole.symm
  · rintro ⟨rfl, blanks, inner, blank, plain, rfl⟩
    have ends : Ends isLineBlank ('[' :: (inner ++ ']' :: rest)) := rfl
    have split : blanks ++ '[' :: (inner ++ [']']) ++ rest =
        blanks ++ '[' :: (inner ++ ']' :: rest) := by simp
    obtain ⟨taken, left⟩ := takeWhile_append_ends blank ends
    obtain ⟨within, behind⟩ :=
      (stripLeading?_dropWhile (p := fun c => c != ']' && c != '\n') rfl).2
        ⟨(rfl : inner ++ ']' :: rest = inner ++ ']' :: rest), plain⟩
    rw [split, taken, left]
    refine ⟨_, rfl, _, behind, ?_, rfl⟩
    rw [← within]
    simp

theorem takeArrow?_eq_some_iff : takeArrow? cs = some (code, rest) ↔
    cs = code ++ rest ∧ Ends (· != '\n') rest ∧
      ∃ inner, (∀ c ∈ inner, (c != '\n') = true) ∧ code = '-' :: '>' :: inner := by
  simp only [takeArrow?, takeRun, Option.bind_eq_bind, Option.bind_eq_some_iff,
    Option.pure_def, Option.some.injEq, Prod.mk.injEq, stripLeading?_eq_some_iff]
  constructor
  · rintro ⟨behind, rfl, rfl, rfl⟩
    refine ⟨?_, dropWhile_ends _ _, _, fun _ => List.mem_takeWhile_imp, rfl⟩
    simp [List.takeWhile_append_dropWhile]
  · rintro ⟨rfl, ends, inner, plain, rfl⟩
    obtain ⟨taken, left⟩ := takeWhile_append_ends plain ends
    exact ⟨inner ++ rest, by simp, by rw [taken], left⟩

theorem takeBraces?_eq_some_iff : takeBraces? cs = some (code, rest) ↔
    cs = code ++ rest ∧
      ∃ inner, (∀ c ∈ inner, (c != '}' && c != '\n') = true) ∧ code = '{' :: (inner ++ ['}']) := by
  simp only [takeBraces?, takeRun, Option.bind_eq_bind, Option.bind_eq_some_iff,
    Option.pure_def, Option.some.injEq, Prod.mk.injEq]
  constructor
  · rintro ⟨opened, opens, _, closes, rfl, rfl⟩
    obtain ⟨text, plain⟩ := (stripLeading?_dropWhile rfl).1 ⟨rfl, closes⟩
    refine ⟨?_, _, plain, by simp⟩
    have whole := stripLeading?_eq_some_iff.1 opens
    rw [text] at whole
    simpa using whole
  · rintro ⟨rfl, inner, plain, rfl⟩
    obtain ⟨within, behind⟩ :=
      (stripLeading?_dropWhile (p := fun c => c != '}' && c != '\n') rfl).2
        ⟨(rfl : inner ++ '}' :: rest = inner ++ '}' :: rest), plain⟩
    refine ⟨inner ++ '}' :: rest, ?_, rest, behind, ?_, rfl⟩
    · simp [stripLeading?]
    · rw [← within]
      simp

/-- The three kinds of regions begin with characters of their own. -/
theorem takeCode?_eq_some_iff : takeCode? lineStart cs = some (code, rest) ↔
    cs = code ++ rest ∧ Region lineStart code rest := by
  have headless (c : Char) (cs : List Char) (blank : isLineBlank c = false) (other : c ≠ '[') :
      takeHeader? (c :: cs) = none := by
    simp [takeHeader?, takeRun, blank, stripLeading?, Ne.symm other]
  rw [takeCode?, Option.or_eq_some_iff, Option.or_eq_some_iff, takeArrow?_eq_some_iff,
    takeBraces?_eq_some_iff]
  constructor
  · rintro (header | ⟨-, ⟨rfl, ends, inner, plain, rfl⟩ | ⟨-, rfl, inner, plain, rfl⟩⟩)
    · split at header
      · next start =>
        obtain ⟨text, blanks, inner, blank, plain, rfl⟩ := takeHeader?_eq_some_iff.1 header
        exact ⟨text, start ▸ .header blank plain⟩
      · cases header
    · exact ⟨rfl, .arrow plain ends⟩
    · exact ⟨rfl, .braces plain⟩
  · rintro ⟨rfl, region⟩
    cases region with
    | header blank plain =>
      exact .inl (takeHeader?_eq_some_iff.2 ⟨rfl, _, _, blank, plain, rfl⟩)
    | arrow plain ends =>
      refine .inr ⟨?_, .inl ⟨rfl, ends, _, plain, rfl⟩⟩
      rw [List.cons_append, headless _ _ rfl (by decide), ite_self]
    | braces plain =>
      refine .inr ⟨?_, .inr ⟨?_, rfl, _, plain, rfl⟩⟩
      · rw [List.cons_append, headless _ _ rfl (by decide), ite_self]
      · rfl

end Take

namespace Region
variable {lineStart : Bool} {code rest : List Char}

theorem some (region : Region lineStart code rest) : code ≠ [] := by
  cases region <;> simp

theorem oneLine (region : Region lineStart code rest) : '\n' ∉ code := by
  intro member
  cases region with
  | header blank plain =>
    simp only [List.mem_append, List.mem_cons, List.not_mem_nil, or_false] at member
    rcases member with within | same | within | same
    · cases blank _ within
    · cases same
    · cases plain _ within
    · cases same
  | arrow plain =>
    simp only [List.mem_cons] at member
    rcases member with same | same | within
    · cases same
    · cases same
    · cases plain _ within
  | braces plain =>
    simp only [List.mem_append, List.mem_cons, List.not_mem_nil, or_false] at member
    rcases member with same | within | same
    · cases same
    · cases plain _ within
    · cases same

theorem isWord_of_isLineBlank {c : Char} (blank : isLineBlank c = true) : isWord c = false := by
  rcases (by simpa [isLineBlank] using blank : c = ' ' ∨ c = '\t') with rfl | rfl <;> decide

/-- No word runs into a region. -/
theorem begins (region : Region lineStart code rest) : Ends isWord code := by
  cases region with
  | @header blanks _ _ blank =>
    cases blanks with
    | nil => rfl
    | cons c blanks => exact isWord_of_isLineBlank (blank c List.mem_cons_self)
  | arrow => rfl
  | braces => rfl

/-- No word runs out of a region. -/
theorem apart (region : Region lineStart code rest) : Apart code rest := by
  cases region with
  | header =>
    refine .inl ?_
    rw [← List.cons_append, ← List.append_assoc, List.getLast?_concat]
    rfl
  | arrow _ ends =>
    refine .inr (ends.mono fun c word => ?_)
    refine bne_iff_ne.2 ?_
    rintro rfl
    cases word
  | braces =>
    refine .inl ?_
    rw [← List.cons_append, List.getLast?_concat]
    rfl

end Region

/-! Regions behind each other -/

/-- Whether a line begins behind a text. -/
def atLineStart (lineStart : Bool) (cs : List Char) : Bool :=
  cs.foldl (fun _ c => c == '\n') lineStart

theorem atLineStart_oneLine {w : List Char} (some : w ≠ []) (plain : '\n' ∉ w)
    (lineStart : Bool) : atLineStart lineStart w = false := by
  induction w generalizing lineStart with
  | nil => exact absurd rfl some
  | cons c w ih =>
    rw [List.mem_cons, not_or] at plain
    have other : (c == '\n') = false := beq_eq_false_iff_ne.2 (Ne.symm plain.1)
    rw [atLineStart, List.foldl_cons, other]
    cases w with
    | nil => rfl
    | cons d w => exact ih (by simp) plain.2 false

section Rename
variable {f : List Char → List Char} {lineStart : Bool} {cs code rest lead text : List Char}

theorem renameInCode_pending (g : List Char → List Char) (w rest : List Char) (lineStart : Bool) :
    renameInCode.go g lineStart w.length (w ++ rest) =
      renameInCode.go g (atLineStart lineStart w) 0 rest := by
  induction w generalizing lineStart with
  | nil => rfl
  | cons c w ih =>
    rw [List.cons_append, List.length_cons, renameInCode.go, ih]
    rfl

theorem renameInCode_region (g : List Char → List Char) (region : Region lineStart code rest) :
    renameInCode.go g lineStart 0 (code ++ rest) = g code ++ renameInCode.go g false 0 rest := by
  have taken := takeCode?_eq_some_iff.2 ⟨rfl, region⟩
  have line := atLineStart_oneLine region.some region.oneLine lineStart
  cases code with
  | nil => exact absurd rfl region.some
  | cons c w =>
    have passed := renameInCode_pending g w rest (c == '\n')
    rw [List.cons_append] at taken ⊢
    rw [renameInCode.go, taken]
    simp only [List.length_cons, Nat.add_sub_cancel]
    rw [passed]
    change _ ++ renameInCode.go g (atLineStart lineStart (c :: w)) 0 rest = _
    rw [line]

theorem renameInCode_other (g : List Char → List Char) {c : Char}
    (none : takeCode? lineStart (c :: cs) = none) :
    renameInCode.go g lineStart 0 (c :: cs) = c :: renameInCode.go g (c == '\n') 0 cs := by
  rw [renameInCode.go, none]

theorem takeCode?_word {c : Char} (word : isWord c = true) (cs : List Char) :
    takeCode? lineStart (c :: cs) = none := by
  cases taken : takeCode? lineStart (c :: cs) with
  | none => rfl
  | some read =>
    obtain ⟨text, region⟩ := takeCode?_eq_some_iff.1 taken
    have begins := region.begins
    generalize read.1 = code at *
    cases code with
    | nil => exact absurd rfl region.some
    | cons d code =>
      obtain ⟨rfl, -⟩ := List.cons.inj text
      have other : isWord c = false := begins
      rw [word] at other
      cases other

theorem renameInCode_word (g : List Char → List Char) {w : List Char}
    (chars : ∀ c ∈ w, isWord c = true) (cs : List Char) (lineStart : Bool) :
    renameInCode.go g lineStart 0 (w ++ cs) =
      w ++ renameInCode.go g (atLineStart lineStart w) 0 cs := by
  induction w generalizing lineStart with
  | nil => rfl
  | cons c w ih =>
    obtain ⟨word, chars⟩ := List.forall_mem_cons.1 chars
    rw [List.cons_append, renameInCode_other g (takeCode?_word word _), ih chars]
    rfl

/-- What becomes of a text behind a lead. Either the regions of the lead end there, or the last
of them reaches into the text. -/
inductive Reaches (f : List Char → List Char) (lineStart : Bool) (lead text : List Char) :
    List Char → Prop
  | ends {out : List Char} (rewords : Rewords f lead out) :
      Reaches f lineStart lead text
        (out ++ renameInCode.go (mapWords f) (atLineStart lineStart lead) 0 text)
  | across {skipped opened covered rest out : List Char} {start : Bool}
      (before : lead = skipped ++ opened) (behind : text = covered ++ rest) (opens : opened ≠ [])
      (covers : covered ≠ []) (region : Region start (opened ++ covered) rest)
      (rewords : Rewords f skipped out) :
      Reaches f lineStart lead text
        (out ++ (mapWords f (opened ++ covered) ++ renameInCode.go (mapWords f) false 0 rest))

theorem Reaches.prepend {first out ds : List Char} (rewords : Rewords f first out)
    (apart : Apart first lead) (reaches : Reaches f (atLineStart lineStart first) lead text ds) :
    Reaches f lineStart (first ++ lead) text (out ++ ds) := by
  cases reaches with
  | ends further =>
    have both : Reaches f lineStart (first ++ lead) text _ := .ends (rewords.append apart further)
    rwa [atLineStart, List.foldl_append, List.append_assoc] at both
  | across before behind opens covers region further =>
    subst before
    have both : Reaches f lineStart _ text _ := .across (List.append_assoc first _ _).symm behind
      opens covers region (rewords.append apart.front further)
    rwa [List.append_assoc] at both

theorem renameInCode_reaches (f : List Char → List Char) (lineStart : Bool)
    (apart : Apart lead text) :
    Reaches f lineStart lead text (renameInCode.go (mapWords f) lineStart 0 (lead ++ text)) := by
  induction h : lead.length using Nat.strongRecOn generalizing lead lineStart with
  | _ n ih =>
    subst h
    cases lead with
    | nil => exact .ends .nil
    | cons c lead =>
      by_cases word : isWord c = true
      · -- The word as a whole, since within it no region begins.
        obtain ⟨w, cs, split, run, ends⟩ :
            ∃ w cs, c :: lead = w ++ cs ∧ IsRun w ∧ Ends isWord cs := by
          refine ⟨c :: lead.takeWhile isWord, lead.dropWhile isWord, ?_, ⟨by simp, ?_⟩,
            dropWhile_ends _ _⟩
          · rw [List.cons_append, List.takeWhile_append_dropWhile]
          · exact List.forall_mem_cons.2 ⟨word, fun _ => List.mem_takeWhile_imp⟩
        rw [split] at apart ih ⊢
        have shorter : cs.length < (w ++ cs).length := by
          have := List.length_pos_of_ne_nil run.some
          rw [List.length_append]
          omega
        have alone : Rewords f w w := .refl w
        rw [List.append_assoc, renameInCode_word _ run.chars]
        exact .prepend alone (.inr ends) (ih cs.length shorter _ apart.back rfl)
      · have other : isWord c = false := Bool.eq_false_iff.2 word
        cases taken : takeCode? lineStart (c :: lead ++ text) with
        | none =>
          have further := ih lead.length (Nat.lt_succ_self _) (c == '\n')
            apart.tail rfl
          rw [List.cons_append] at taken ⊢
          rw [renameInCode_other _ taken]
          have alone : Rewords f [c] [c] := .other other .nil
          exact .prepend alone (.inl other) further
        | some read =>
          obtain ⟨code, rest⟩ := read
          obtain ⟨whole, region⟩ := takeCode?_eq_some_iff.1 taken
          have line := atLineStart_oneLine region.some region.oneLine lineStart
          rw [whole, renameInCode_region _ region]
          rcases List.append_eq_append_iff.1 whole with ⟨covered, rfl, rfl⟩ | ⟨cs, split, rfl⟩
          · by_cases covers : covered = []
            · subst covers
              rw [List.append_nil] at line ⊢
              have all : Reaches f lineStart (c :: lead) rest _ := .ends (.mapWords _)
              rwa [line] at all
            · exact .across (List.nil_append _).symm rfl (by simp) covers region .nil
          · have shorter : cs.length < (c :: lead).length := by
              have := List.length_pos_of_ne_nil region.some
              rw [split, List.length_append]
              omega
            rw [split] at apart
            have further := ih cs.length shorter false apart.back rfl
            rw [split]
            exact .prepend (.mapWords code) region.apart.front (line ▸ further)

/-- In all code of a text words are kept or replaced. -/
theorem renameInCode_rewords (f : List Char → List Char) (lineStart : Bool) (cs : List Char) :
    Rewords f cs (renameInCode.go (mapWords f) lineStart 0 cs) := by
  have whole : Apart cs [] := .inr rfl
  have reaches := renameInCode_reaches f lineStart whole
  rw [List.append_nil] at reaches
  generalize renameInCode.go (mapWords f) lineStart 0 cs = out at reaches
  cases reaches with
  | ends rewords => rwa [renameInCode.go, List.append_nil]
  | across _ behind _ covers => exact absurd (List.append_eq_nil_iff.1 behind.symm).1 covers

end Rename

/-! Expressions in regions -/

/-- Whether a bracket is open behind a character. -/
def bracketStep (opening close : Char) (isOpen : Bool) (c : Char) : Bool :=
  c == opening || (isOpen && c != close && c != '\n')

/-- Whether the last opening bracket of a text has no counterpart in its line. -/
def isOpen (opening close : Char) (cs : List Char) : Bool :=
  cs.foldl (bracketStep opening close) false

section Open
variable {opening close : Char}

theorem isOpen_plain {inner : List Char} (plain : ∀ c ∈ inner, (c != close && c != '\n') = true)
    (lead : List Char) : isOpen opening close (lead ++ opening :: inner) = true := by
  have begins (s : Bool) : bracketStep opening close s opening = true := by simp [bracketStep]
  rw [isOpen, List.foldl_append, List.foldl_cons, begins]
  induction inner with
  | nil => rfl
  | cons c inner ih =>
    obtain ⟨other, plain⟩ := List.forall_mem_cons.1 plain
    have stays : bracketStep opening close true c = true := by
      rw [bracketStep, Bool.true_and, other, Bool.or_true]
    rw [List.foldl_cons, stays, ih plain]

theorem isOpen_append {cs : List Char} (opens : isOpen opening close cs = true)
    (lead : List Char) : isOpen opening close (lead ++ cs) = true := by
  have later (cs : List Char) (opens : cs.foldl (bracketStep opening close) false = true)
      (s : Bool) : cs.foldl (bracketStep opening close) s = true := by
    induction cs generalizing s with
    | nil => cases opens
    | cons c cs ih =>
      rw [List.foldl_cons] at opens ⊢
      by_cases first : c = opening
      · have both (s : Bool) : bracketStep opening close s c = true := by simp [bracketStep, first]
        rw [both] at opens ⊢
        exact opens
      · have closed : bracketStep opening close false c = false := by simp [bracketStep, first]
        rw [closed] at opens
        exact ih opens _
  rw [isOpen, List.foldl_append]
  exact later cs opens _

end Open

section Covers
variable {f : List Char → List Char} {lineStart start : Bool} {lead mid tail : List Char}

/-- A text in one line, no header, in which no region closes that was opened in front of it. -/
structure Within (lead mid : List Char) : Prop where
  some : mid ≠ []
  starts : ∀ c ∈ mid.head?, isLineBlank c = false ∧ c ≠ '['
  oneLine : '\n' ∉ mid
  brackets : isOpen '[' ']' lead = true → ']' ∉ mid
  braces : isOpen '{' '}' lead = true → '}' ∉ mid

theorem Within.back {skipped : List Char} (within : Within (skipped ++ lead) mid) :
    Within lead mid where
  some := within.some
  starts := within.starts
  oneLine := within.oneLine
  brackets opens := within.brackets (isOpen_append opens _)
  braces opens := within.braces (isOpen_append opens _)

/-- The text in front of the closing bracket of a header holds the opening one. -/
theorem header_opens {blanks inner opened covered : List Char} (blank : Blanks blanks)
    (split : opened ++ covered = blanks ++ '[' :: inner)
    (starts : ∀ c ∈ covered.head?, isLineBlank c = false ∧ c ≠ '[') :
    ∃ front, opened = blanks ++ '[' :: front ∧ inner = front ++ covered := by
  rcases List.append_eq_append_iff.1 split with ⟨more, rfl, behind⟩ | ⟨more, rfl, behind⟩
  · cases more with
    | nil =>
      subst behind
      exact absurd rfl (starts '[' rfl).2
    | cons c more =>
      subst behind
      have plain := (starts c rfl).1
      rw [blank c (by simp)] at plain
      cases plain
  · cases more with
    | nil =>
      rw [List.nil_append] at behind
      subst behind
      exact absurd rfl (starts '[' rfl).2
    | cons c more =>
      rw [List.cons_append] at behind
      obtain ⟨rfl, rfl⟩ := List.cons.inj behind
      exact ⟨more, rfl, rfl⟩

/-- A region that was opened in front of such a text does not end in it. -/
theorem Region.covers {opened covered rest : List Char}
    (region : Region start (opened ++ covered) rest) (opens : opened ≠ []) (covers : covered ≠ [])
    (text : mid ++ tail = covered ++ rest) (within : Within opened mid) :
    ∃ more, covered = mid ++ more ∧ tail = more ++ rest := by
  rcases List.append_eq_append_iff.1 text with ⟨more, reaches, behind⟩ | ⟨left, split, behind⟩
  · exact ⟨more, reaches, behind⟩
  · by_cases none : left = []
    · subst none
      rw [List.append_nil] at split
      exact ⟨[], by simp [split], behind.symm⟩
    · -- The region would end in front of a line feed of the text or with a bracket of it.
      exfalso
      subst split
      obtain ⟨front, last, rfl⟩ := (List.eq_nil_or_concat' covered).resolve_left covers
      have member : last ∈ front ++ [last] ++ left := by simp
      generalize code : opened ++ (front ++ [last]) = whole at region
      rw [← List.append_assoc] at code
      cases region with
      | header blank plain =>
        rw [← List.cons_append, ← List.append_assoc] at code
        obtain ⟨split, same⟩ := List.append_inj' code rfl
        cases same
        have starts : ∀ c ∈ front.head?, isLineBlank c = false ∧ c ≠ '[' := by
          intro c head
          apply within.starts
          simp [List.head?_append, Option.mem_def.1 head]
        obtain ⟨inner, rfl, rfl⟩ := header_opens blank split starts
        refine within.brackets (isOpen_plain ?_ _) member
        exact fun c member => plain c (List.mem_append_left _ member)
      | arrow plain ends =>
        subst behind
        cases left with
        | nil => exact none rfl
        | cons c left =>
          have feed : c = '\n' := by simpa [Ends] using ends
          exact within.oneLine (by simp [feed])
      | braces plain =>
        rw [← List.cons_append] at code
        obtain ⟨split, same⟩ := List.append_inj' code rfl
        cases same
        cases opened with
        | nil => exact opens rfl
        | cons c opened =>
          obtain ⟨rfl, rfl⟩ := List.cons.inj split
          refine within.braces (isOpen_plain ?_ []) member
          exact fun c member => plain c (List.mem_append_left _ member)

/-- A text with its regions replaced, one of which holds the middle. -/
inductive Holds (f : List Char → List Char) (lead mid tail : List Char) : List Char → Prop
  | intro {skipped opened more rest out : List Char} {start : Bool}
      (before : lead = skipped ++ opened) (behind : tail = more ++ rest)
      (region : Region start (opened ++ (mid ++ more)) rest) (rewords : Rewords f skipped out) :
      Holds f lead mid tail (out ++ (mapWords f (opened ++ (mid ++ more)) ++
        renameInCode.go (mapWords f) false 0 rest))

theorem holds_of_covers (f : List Char → List Char) (some : mid ≠ [])
    (fires : ∃ more rest, tail = more ++ rest ∧
      Region (atLineStart lineStart lead) (mid ++ more) rest)
    (covers : ∀ skipped opened covered rest start, lead = skipped ++ opened → opened ≠ [] →
      covered ≠ [] → mid ++ tail = covered ++ rest → Region start (opened ++ covered) rest →
      ∃ more, covered = mid ++ more ∧ tail = more ++ rest) :
    Holds f lead mid tail
      (renameInCode.go (mapWords f) lineStart 0 (lead ++ (mid ++ tail))) := by
  obtain ⟨more, rest, rfl, region⟩ := fires
  have apart : Apart lead (mid ++ more) := .inr region.begins
  have reaches := renameInCode_reaches f lineStart (apart.front.extend some (more ++ rest))
  generalize renameInCode.go (mapWords f) lineStart 0 (lead ++ (mid ++ (more ++ rest))) = out
    at reaches
  cases reaches with
  | ends rewords =>
    rw [← List.append_assoc mid, renameInCode_region _ region]
    exact .intro (List.append_nil lead).symm rfl region rewords
  | across before behind opens covered region rewords =>
    obtain ⟨_, rfl, left⟩ := covers _ _ _ _ _ before opens covered behind region
    exact .intro before left region rewords

theorem Within.holds (within : Within lead mid) (f : List Char → List Char) (lineStart : Bool)
    (tail : List Char)
    (fires : ∀ start, ∃ more rest, tail = more ++ rest ∧ Region start (mid ++ more) rest) :
    Holds f lead mid tail
      (renameInCode.go (mapWords f) lineStart 0 (lead ++ (mid ++ tail))) := by
  refine holds_of_covers f within.some (fires _) ?_
  rintro skipped opened covered rest start rfl opens some text region
  exact region.covers opens some text within.back

/-- No region runs into a header, since none goes on behind a line feed. -/
theorem holds_header (f : List Char → List Char) {more rest : List Char} (some : mid ≠ [])
    (line : atLineStart lineStart lead = true) (region : Region true (mid ++ more) rest) :
    Holds f lead mid (more ++ rest)
      (renameInCode.go (mapWords f) lineStart 0 (lead ++ (mid ++ (more ++ rest)))) := by
  refine holds_of_covers f some ⟨more, rest, rfl, line ▸ region⟩ ?_
  rintro skipped opened covered rest start rfl opens - - region
  have plain : '\n' ∉ opened := fun member => region.oneLine (List.mem_append_left _ member)
  rw [atLineStart, List.foldl_append] at line
  have other := atLineStart_oneLine opens plain (skipped.foldl (fun _ c => c == '\n') lineStart)
  rw [atLineStart, line] at other
  cases other

/-- An expression in a region is replaced as a whole. -/
theorem Holds.expression {front e out : List Char} (holds : Holds f lead (front ++ e) tail out)
    (left : Apart (lead ++ front) e) (right : Apart e tail) (some : e ≠ []) :
    ∃ xs ys, out = xs ++ (mapWords f e ++ ys) ∧ Rewords f (lead ++ front) xs ∧
      Rewords f tail ys := by
  obtain @⟨skipped, opened, more, rest, out, _, rfl, rfl, region, rewords⟩ := holds
  rw [List.append_assoc] at left
  have shape : opened ++ (front ++ e ++ more) = opened ++ front ++ (e ++ more) := by simp
  have begins : Apart skipped (opened ++ front) := by
    rw [shape] at region
    exact Apart.front (.inr region.begins)
  have stops : Apart more rest := by
    rw [← List.append_assoc] at region
    exact region.apart.back
  refine ⟨out ++ mapWords f (opened ++ front), mapWords f more ++
    renameInCode.go (mapWords f) false 0 rest, ?_, ?_, ?_⟩
  · rw [shape, mapWords_append (left.back.extend some more), mapWords_append right.front]
    simp
  · rw [List.append_assoc]
    exact rewords.append begins (.mapWords _)
  · exact (Rewords.mapWords more).append stops (renameInCode_rewords f false rest)

end Covers

/-- An expression that stands in code, with the text in front of it and behind it: in a header,
behind the arrow of a skip directive, or in braces. A header or a pair of braces ends with the
first closing bracket, also where that one is quoted. -/
inductive InCode (lead e : List Char) : (front after : List Char) → Prop
  | header {blanks inner behind after : List Char} (line : atLineStart true lead = true)
      (blank : Blanks blanks)
      (plain : ∀ c ∈ inner ++ e ++ behind, (c != ']' && c != '\n') = true) :
      InCode lead e (blanks ++ '[' :: inner) (behind ++ ']' :: after)
  | guard {line inner after : List Char} (oneLine : '\n' ∉ inner ++ e)
      (brackets : isOpen '[' ']' (lead ++ line) = true → ']' ∉ inner ++ e)
      (braces : isOpen '{' '}' (lead ++ line) = true → '}' ∉ inner ++ e) :
      InCode lead e (line ++ '-' :: '>' :: inner) after
  | span {line inner behind after : List Char}
      (plain : ∀ c ∈ inner ++ e ++ behind, (c != '}' && c != '\n') = true)
      (brackets : isOpen '[' ']' (lead ++ line) = true → ']' ∉ inner ++ e) :
      InCode lead e (line ++ '{' :: inner) (behind ++ '}' :: after)

section InCode
variable {lead e front after : List Char}

theorem InCode.more (code : InCode lead e front after) (further : List Char) :
    InCode lead e front (after ++ further) := by
  cases code with
  | header line blank plain =>
    rw [List.append_assoc, List.cons_append]
    exact .header line blank plain
  | guard oneLine brackets braces => exact .guard oneLine brackets braces
  | span plain brackets =>
    rw [List.append_assoc, List.cons_append]
    exact .span plain brackets

/-- An expression in code is renamed as a whole, and what stands around it word by word. -/
theorem InCode.renamed (code : InCode lead e front after) (f : List Char → List Char)
    (left : Apart (lead ++ front) e) (right : Apart e after) (some : e ≠ []) :
    ∃ xs ys, renameInCode (mapWords f) (lead ++ (front ++ (e ++ after))) =
        xs ++ (mapWords f e ++ ys) ∧ Rewords f (lead ++ front) xs ∧ Rewords f after ys := by
  have oneLine {close : Char} {cs : List Char}
      (plain : ∀ c ∈ cs, (c != close && c != '\n') = true) : close ∉ cs ∧ '\n' ∉ cs := by
    constructor <;> intro member <;> simpa using plain _ member
  cases code with
  | @header blanks inner behind after line blank plain =>
    have region : Region true (blanks ++ '[' :: inner ++ e ++ (behind ++ [']'])) after := by
      have shape : blanks ++ '[' :: inner ++ e ++ (behind ++ [']']) =
          blanks ++ '[' :: (inner ++ e ++ behind ++ [']']) := by simp
      rw [shape]
      exact .header blank plain
    have holds := holds_header f (by simp) line region
    have split : behind ++ ']' :: after = behind ++ [']'] ++ after := by simp
    rw [split] at right ⊢
    rw [← List.append_assoc (blanks ++ '[' :: inner)]
    exact holds.expression left right some
  | @guard line inner after plain brackets braces =>
    have within : Within (lead ++ line) ('-' :: '>' :: inner ++ e) := by
      refine ⟨by simp, ?_, by simpa using plain, ?_, ?_⟩
      · rintro c ⟨⟩
        decide
      · exact fun opens => by simpa using brackets opens
      · exact fun opens => by simpa using braces opens
    have holds := within.holds f true after fun start => by
      refine ⟨after.takeWhile (· != '\n'), after.dropWhile (· != '\n'),
        List.takeWhile_append_dropWhile.symm, ?_⟩
      have shape : '-' :: '>' :: inner ++ e ++ after.takeWhile (· != '\n') =
          '-' :: '>' :: (inner ++ e ++ after.takeWhile (· != '\n')) := by simp
      rw [shape]
      refine .arrow (fun c member => ?_) (dropWhile_ends _ _)
      rcases List.mem_append.1 member with within | behind
      · refine bne_iff_ne.2 ?_
        rintro rfl
        exact plain within
      · exact List.mem_takeWhile_imp (p := (· != '\n')) behind
    have shape : lead ++ (line ++ '-' :: '>' :: inner ++ (e ++ after)) =
        lead ++ line ++ ('-' :: '>' :: inner ++ e ++ after) := by simp
    rw [shape, ← List.append_assoc lead] at *
    exact holds.expression left right some
  | @span line inner behind after plain brackets =>
    have within : Within (lead ++ line) ('{' :: inner ++ e) := by
      have inside := oneLine fun c member => plain c (List.mem_append_left behind member)
      refine ⟨by simp, ?_, by simpa using inside.2, ?_, fun _ => by simpa using inside.1⟩
      · rintro c ⟨⟩
        decide
      · exact fun opens => by simpa using brackets opens
    have holds := within.holds f true (behind ++ '}' :: after) fun start => by
      refine ⟨behind ++ ['}'], after, by simp, ?_⟩
      have shape : '{' :: inner ++ e ++ (behind ++ ['}']) =
          '{' :: (inner ++ e ++ behind ++ ['}']) := by simp
      rw [shape]
      exact .braces plain
    have shape : lead ++ (line ++ '{' :: inner ++ (e ++ (behind ++ '}' :: after))) =
        lead ++ line ++ ('{' :: inner ++ e ++ (behind ++ '}' :: after)) := by simp
    rw [shape, ← List.append_assoc lead] at *
    exact holds.expression left right some

end InCode

end Questionnaire.Definition
