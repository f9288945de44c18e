import Questionnaire.Proofs.Definition.Markers

/-! What an unrolled text declares. Where every copy of a loop body opens with a header of its
own, the headers of the text are those of the copies, the first of each annotated, with the
markers behind them, between those that stand outside of loops. A block without an iteration
leaves only its end marker, which belongs to the text around it. -/
namespace Questionnaire

open Text

namespace Definition

/-- Headers that belong to no loop with an iteration. What they mark are the ends of the blocks
without one, numbered from `first` on and below `index`, none of them twice. -/
structure Idle (first index : Nat) (hs : List Head) : Prop where
  unannotated : ∀ h ∈ hs, h.directives.loopEntry = none
  ends : ∀ h ∈ hs, ∀ m ∈ LoopMarker.ofId? h.id, ∃ k < index, first ≤ k ∧ m = .endOfLoop k
  once : (hs.filterMap (LoopMarker.ofId? ·.id)).Nodup

instance (first index : Nat) (hs : List Head) : Decidable (Idle first index hs) :=
  decidable_of_iff ((∀ h ∈ hs, h.directives.loopEntry = none) ∧
    (∀ h ∈ hs, ∀ m ∈ LoopMarker.ofId? h.id, ∃ k < index, first ≤ k ∧ m = .endOfLoop k) ∧
    (hs.filterMap (LoopMarker.ofId? ·.id)).Nodup)
    ⟨fun ⟨unannotated, ends, once⟩ => ⟨unannotated, ends, once⟩,
      fun idle => ⟨idle.unannotated, idle.ends, idle.once⟩⟩

/-- A copy of a loop body whose first header is the one that gets the annotation: no header
stands in front of it, every grid that is opened closes, and it is read as what it looks like.
Nothing else in the copy is annotated or a marker. A header behind a lone carriage return is
read without beginning a line that can open the copy, and a grid that is left open takes the
marker behind the copy into its fields. -/
structure OpensWith (cs front rest : List Char) : Prop where
  opening : opening? cs = some (front, rest)
  silent : heads front = []
  closed : closesGrids front = true
  closes : closesGrids (endsLine rest) = true
  declares : Declares rest
  unmarked : ∀ h ∈ heads (endsLine rest), LoopMarker.ofId? h.id = none
  unannotated : ∀ h ∈ (heads (endsLine rest)).tail, h.directives.loopEntry = none

instance (cs front rest : List Char) : Decidable (OpensWith cs front rest) :=
  decidable_of_iff (opening? cs = some (front, rest) ∧ heads front = [] ∧
    closesGrids front = true ∧ closesGrids (endsLine rest) = true ∧ Declares rest ∧
    (∀ h ∈ heads (endsLine rest), LoopMarker.ofId? h.id = none) ∧
    ∀ h ∈ (heads (endsLine rest)).tail, h.directives.loopEntry = none)
    ⟨fun ⟨opening, silent, closed, closes, declares, unmarked, unannotated⟩ =>
      ⟨opening, silent, closed, closes, declares, unmarked, unannotated⟩,
      fun opens => ⟨opens.opening, opens.silent, opens.closed, opens.closes, opens.declares,
        opens.unmarked, opens.unannotated⟩⟩

/-- The headers of one iteration: those of its copy, of which the first carries the annotation,
and the continuation marker. -/
inductive Iterates (loop : LoopHeader) (iteration : Nat) (copy : List Char) : List Head → Prop
  | intro {entry : Head} {further : List Head}
      (annotated : Annotates loop iteration entry.id.toList entry)
      (ids : (entry :: further).map Head.id = (heads (endsLine copy)).map Head.id)
      (unannotated : ∀ h ∈ further, h.directives.loopEntry = none)
      (unmarked : ∀ h ∈ entry :: further, LoopMarker.ofId? h.id = none) :
      Iterates loop iteration copy
        (entry :: further ++ [(LoopMarker.continuation loop.index iteration).head])

namespace LoopBlock

/-- A copy of the body with its names in the form of an iteration. -/
def copy (b : LoopBlock) (iteration : Nat) : List Char :=
  renameDeclared (declaredIds b.body) iteration (writeIndex b.body iteration)

/-- The number of copies that a block stands for. -/
def count (b : LoopBlock) : Nat := ((b.attribute? "max").bind readUInt32?).getD 0

/-- What stands in the first copy in front of its opening. -/
def front (b : LoopBlock) : List Char := ((opening? (b.copy 1)).map Prod.fst).getD []

/-- A block with an iteration behind a text, with an identifier as its bound and copies that can
be annotated. Its opening begins a line. -/
structure Regular (b : LoopBlock) (first index : Nat) (lead : List Char) : Prop where
  iterated : 0 < b.count
  bound : ∀ source, b.attribute? "bound" = some source → isIdentifier source = true
  copies : ∀ i < b.count, ∃ front rest, OpensWith (b.copy (i + 1)) front rest
  lead : ∃ whole bs, lead ++ b.front = whole ++ bs ∧ EndsLine whole ∧ Blanks bs ∧
    closesGrids whole = true ∧ Idle first index (heads whole)

end LoopBlock

section Unrolled
variable {b : LoopBlock} {loop : LoopHeader} {i : Nat} {front rest text : List Char}

theorem Opens.ne_nil {cs : List Char} {e : EntryPoint} (opens : Opens cs e) : cs ≠ [] := by
  cases opens <;> simp [headerText, GridBlock.toChars, GridBlock.keyword]

/-- The text of an iteration: what stands in front of the opening, the annotated opening and
the marker. -/
theorem unrollOnce?_text (copy : OpensWith (b.copy i) front rest)
    (unrolled : unrollOnce? (declaredIds b.body) loop b.body i = some text) :
    ∃ e, Opens rest e ∧ ∀ lead whole bs, lead ++ front = whole ++ bs →
      lead ++ text = whole ++ (e.annotate loop i bs ++
        markerLine (.continuation loop.index i)) := by
  obtain ⟨-, -, e, ahead⟩ := opening?_sound copy.opening
  have point : entryPoint? (b.copy i) = some { e with before := front ++ e.before } := by
    rw [entryPoint?_eq, copy.opening, Option.bind_some, ahead]
    rfl
  rw [unrollOnce?] at unrolled
  change (entryPoint? (b.copy i)).bind _ = _ at unrolled
  rw [point] at unrolled
  cases unrolled
  refine ⟨e, entryAhead?_opens ahead, fun lead whole bs split => ?_⟩
  have some : e.before ++ (noteOf loop i e.id ++ e.after) ≠ [] := by
    rw [noteOf, annotation_toList]
    simp [noteText]
  have inner : front ++ e.before ++ (noteOf loop i e.id) ++ e.after =
      front ++ (e.before ++ (noteOf loop i e.id ++ e.after)) := by simp
  change lead ++ (endsLine (front ++ e.before ++ noteOf loop i e.id ++ e.after) ++ _) = _
  rw [inner, endsLine_append some, EntryPoint.annotate, endsLine_append some,
    ← List.append_assoc, ← List.append_assoc, split]
  simp

theorem heads_iteration (copy : OpensWith (b.copy i) front rest)
    (unrolled : unrollOnce? (declaredIds b.body) loop b.body i = some text)
    (words : Words loop i) {lead whole bs : List Char} (split : lead ++ front = whole ++ bs)
    (ends : EndsLine whole) (closed : closesGrids whole = true) (blanks : Blanks bs) :
    ∃ hs, Iterates loop i (b.copy i) hs ∧
      ∀ ds, heads (lead ++ (text ++ ds)) = heads whole ++ (hs ++ heads ds) := by
  obtain ⟨e, opens, shape⟩ := unrollOnce?_text copy unrolled
  obtain ⟨closes, id, plain, entry, further, bare, named, noted, annotates⟩ :=
    opens.annotated copy.declares copy.closes words blanks
  obtain ⟨whole', linesEnd, -⟩ := opening?_sound copy.opening
  have same : heads (endsLine (b.copy i)) = plain :: further := by
    rw [whole', endsLine_append opens.ne_nil, heads_append linesEnd copy.closed, copy.silent, bare]
    rfl
  have unmarked := copy.unmarked
  have unannotated := copy.unannotated
  rw [bare] at unmarked unannotated
  have entryId : entry.id = plain.id := annotates.named.trans named.symm
  refine ⟨_, @Iterates.intro loop i (b.copy i) entry further ?_ ?_ unannotated ?_, fun ds => ?_⟩
  · rwa [annotates.named, String.toList_ofList]
  · rw [same, List.map_cons, List.map_cons, entryId]
  · obtain ⟨first, later⟩ := List.forall_mem_cons.1 unmarked
    exact List.forall_mem_cons.2 ⟨entryId ▸ first, later⟩
  · have marker := heads_marker (.continuation loop.index i) blanks_nil ds
    rw [List.nil_append] at marker
    have stop : EndsLine (e.annotate loop i bs) := endsLine_ends _
    rw [← List.append_assoc, shape lead whole bs split, List.append_assoc, heads_append ends closed,
      List.append_assoc, heads_append stop closes, noted, marker]
    simp

theorem heads_iterations {is : List Nat} {texts : List (List Char)}
    (copies : ∀ i ∈ is, ∃ front rest, OpensWith (b.copy (i + 1)) front rest)
    (words : ∀ i ∈ is, Words loop (i + 1))
    (unrolled : List.Forall₂ (fun i text =>
      unrollOnce? (declaredIds b.body) loop b.body (i + 1) = some text) is texts) :
    ∃ hss, List.Forall₂ (fun i hs => Iterates loop (i + 1) (b.copy (i + 1)) hs) is hss ∧
      ∀ ds, heads (texts.flatten ++ ds) = hss.flatten ++ heads ds := by
  induction unrolled with
  | nil => exact ⟨[], .nil, fun ds => rfl⟩
  | @cons i text is texts once _ ih =>
    obtain ⟨here, copies⟩ := List.forall_mem_cons.1 copies
    obtain ⟨word, words⟩ := List.forall_mem_cons.1 words
    obtain ⟨front, rest, copy⟩ := here
    obtain ⟨-, ends, -⟩ := opening?_sound copy.opening
    have split : [] ++ front = front ++ [] := by simp
    obtain ⟨hs, iterates, first⟩ := heads_iteration copy once word split ends copy.closed blanks_nil
    obtain ⟨hss, iterations, later⟩ := ih copies words
    refine ⟨hs :: hss, .cons iterates iterations, fun ds => ?_⟩
    have first := first (texts.flatten ++ ds)
    rw [List.nil_append, copy.silent, List.nil_append] at first
    rw [List.flatten_cons, List.flatten_cons, List.append_assoc, List.append_assoc, first, later]

end Unrolled

theorem forall₂_of_mapM {α β : Type} {f : α → Option β} {xs : List α} {ys : List β}
    (mapped : xs.mapM f = some ys) : List.Forall₂ (fun x y => f x = some y) xs ys := by
  induction xs generalizing ys with
  | nil =>
    cases mapped
    exact .nil
  | cons x xs ih =>
    rw [List.mapM_cons] at mapped
    obtain ⟨y, first, mapped⟩ := Option.bind_eq_some_iff.1 mapped
    obtain ⟨more, later, mapped⟩ := Option.bind_eq_some_iff.1 mapped
    cases mapped
    exact .cons first (ih later)

/-- The headers of a block and of what stands in front of it. -/
theorem heads_unroll {b : LoopBlock} {loop : LoopHeader} {first index : Nat}
    {lead expanded : List Char} (regular : b.Regular first index lead)
    (unrolled : unroll? loop b.body = some expanded) (count : b.count = loop.maximum)
    (words : ∀ i < loop.maximum, Words loop (i + 1)) :
    ∃ before hss, Idle first index before ∧
      List.Forall₂ (fun i hs => Iterates loop (i + 1) (b.copy (i + 1)) hs)
        (List.range loop.maximum) hss ∧
      ∀ ds, heads (lead ++ (expanded ++ ds)) =
        before ++ (hss.flatten ++ (LoopMarker.endOfLoop loop.index).head :: heads ds) := by
  obtain ⟨iterated, -, copies, whole, bs, split, ends, blanks, closed, idle⟩ := regular
  obtain ⟨texts, mapped, built⟩ := Option.bind_eq_some_iff.1 unrolled
  cases built
  have once := forall₂_of_mapM mapped
  rw [count] at iterated copies
  have marker (ds : List Char) := heads_marker (.endOfLoop loop.index) blanks_nil ds
  simp only [List.nil_append] at marker
  obtain ⟨n, maximum⟩ := Nat.exists_eq_add_of_lt iterated
  rw [Nat.zero_add] at maximum
  rw [maximum, List.range_succ_eq_map] at once
  rw [maximum] at copies words
  cases once with
  | @cons _ text _ texts first later =>
    obtain ⟨front, rest, copy⟩ := copies 0 n.succ_pos
    have opening : b.front = front := by
      rw [LoopBlock.front, copy.opening]
      rfl
    rw [opening] at split
    obtain ⟨hs, iterates, front⟩ :=
      heads_iteration copy first (words 0 n.succ_pos) split ends closed blanks
    have below : ∀ i ∈ (List.range n).map Nat.succ, i < n + 1 := by
      intro i member
      obtain ⟨j, inside, rfl⟩ := List.mem_map.1 member
      exact Nat.succ_lt_succ (List.mem_range.1 inside)
    obtain ⟨hss, iterations, behind⟩ := heads_iterations
      (fun i member => copies i (below i member)) (fun i member => words i (below i member)) later
    refine ⟨heads whole, hs :: hss, idle, ?_, fun ds => ?_⟩
    · rw [maximum, List.range_succ_eq_map]
      exact .cons iterates iterations
    · have shape : lead ++ ((text :: texts).flatten ++ markerLine (.endOfLoop loop.index) ++ ds) =
          lead ++ (text ++ (texts.flatten ++ (markerLine (.endOfLoop loop.index) ++ ds))) := by
        simp
      rw [shape, front, behind, marker]
      simp

/-! ### The whole text -/

/-- The loop blocks of a text, in order. -/
def loopBlocks (cs : List Char) : List LoopBlock :=
  match h : LoopBlock.find? cs with
  | none => []
  | some (_, b, rest) =>
    have := LoopBlock.find?_length h
    b :: loopBlocks rest
termination_by cs.length

section Unroll
variable {limits : Limits} {sourceId : String} {index : Nat} {before cs plain rest : List Char}
  {b : LoopBlock}

theorem unrollAll_none (none : LoopBlock.find? cs = none) :
    unrollAll limits sourceId index before cs = .ok cs := by
  rw [unrollAll.eq_def]
  split
  · rfl
  · next found => rw [none] at found; cases found

theorem unrollAll_some (found : LoopBlock.find? cs = some (plain, b, rest)) :
    unrollAll limits sourceId index before cs =
      (readHeader limits index b fun fault =>
        .definition fault (blockSpan (before ++ plain) b) sourceId).bind fun loop =>
      (unroll? loop b.body).elim
        (.error (.definition .loopWithoutEntry (blockSpan (before ++ plain) b) sourceId))
        fun expanded =>
          (unrollAll limits sourceId (index + 1) (before ++ plain ++ b.toChars) rest).bind
            fun further => .ok (plain ++ expanded ++ further) := by
  rw [unrollAll.eq_def]
  split
  · next none => rw [found] at none; cases none
  · next other =>
    rw [found] at other
    cases other
    refine congrArg _ (funext fun loop => ?_)
    beta_reduce
    cases unroll? loop b.body <;> rfl

theorem loopBlocks_none (none : LoopBlock.find? cs = none) : loopBlocks cs = [] := by
  rw [loopBlocks.eq_def]
  split
  · rfl
  · next found => rw [none] at found; cases found

theorem loopBlocks_some (found : LoopBlock.find? cs = some (plain, b, rest)) :
    loopBlocks cs = b :: loopBlocks rest := by
  rw [loopBlocks.eq_def]
  split
  · next none => rw [found] at none; cases none
  · next other =>
    rw [found] at other
    cases other
    rfl

end Unroll

/-- A text behind a lead in which every loop block with an iteration is regular and nothing
outside of them belongs to a loop. The lead is what has been unrolled since the last such block:
a block without an iteration adds its end marker to it, wherever in a line it stands. -/
inductive Regular : (first index : Nat) → (lead cs : List Char) → Prop
  | done {first index : Nat} {lead cs : List Char} (none : LoopBlock.find? cs = none)
      (idle : Idle first index (heads (lead ++ cs))) : Regular first index lead cs
  | empty {first index : Nat} {lead cs front rest : List Char} {b : LoopBlock}
      (found : LoopBlock.find? cs = some (front, b, rest)) (none : b.count = 0)
      (further : Regular first (index + 1) (lead ++ front ++ markerLine (.endOfLoop index)) rest) :
      Regular first index lead cs
  | block {first index : Nat} {lead cs front rest : List Char} {b : LoopBlock}
      (found : LoopBlock.find? cs = some (front, b, rest))
      (regular : b.Regular first index (lead ++ front))
      (further : Regular (index + 1) (index + 1) [] rest) : Regular first index lead cs

/-- A block with the numbers that are written into its copies. -/
structure LoopHeader.Of (loop : LoopHeader) (b : LoopBlock) : Prop where
  bound : b.attribute? "bound" = some loop.bound
  maximum : (b.attribute? "max").bind readUInt32? = some loop.maximum

/-- The headers of a text with its blocks unrolled, numbered from `index` on. Those in front of
the first block with an iteration may end the blocks without one from `first` on. -/
inductive Expands : (first index : Nat) → List LoopBlock → List Head → Prop
  | done {first index : Nat} {hs : List Head} (idle : Idle first index hs) :
      Expands first index [] hs
  | empty {first index : Nat} {b : LoopBlock} {blocks : List LoopBlock} {hs : List Head}
      (none : b.count = 0) (further : Expands first (index + 1) blocks hs) :
      Expands first index (b :: blocks) hs
  | block {first index : Nat} {b : LoopBlock} {blocks : List LoopBlock}
      {before after : List Head} {hss : List (List Head)} {loop : LoopHeader} (header : loop.Of b)
      (iterated : 0 < b.count) (numbered : loop.index = index) (fits : index ≤ largestUInt64)
      (idle : Idle first index before)
      (iterations : List.Forall₂ (fun i hs => Iterates loop (i + 1) (b.copy (i + 1)) hs)
        (List.range loop.maximum) hss)
      (further : Expands (index + 1) (index + 1) blocks after) :
      Expands first index (b :: blocks)
        (before ++ (hss.flatten ++ (LoopMarker.endOfLoop index).head :: after))

theorem readHeader_ok {limits : Limits} {index : Nat} {b : LoopBlock}
    {fail : DefinitionFault → SurveyError} {loop : LoopHeader}
    (read : readHeader limits index b fail = .ok loop) : loop.index = index ∧ loop.Of b := by
  simp only [readHeader, bind, Except.bind] at read
  cases nested : containsLiteral LoopBlock.openTag b.body with
  | true =>
    rw [nested] at read
    contradiction
  | false =>
    rw [nested] at read
    simp only [Bool.false_eq_true, if_false] at read
    split at read
    · contradiction
    · next bound bounded =>
      split at read
      · contradiction
      · next maximum limited =>
        split at read
        · contradiction
        · cases read
          exact ⟨rfl, bounded, limited⟩

theorem readUnsigned?_le {largest n : Nat} {cs : List Char}
    (read : readUnsigned? largest cs = some n) : n ≤ largest := by
  unfold readUnsigned? at read
  obtain ⟨-, least⟩ := Option.filter_eq_some_iff.1 read
  exact of_decide_eq_true least

theorem LoopHeader.Of.maximum_le {loop : LoopHeader} {b : LoopBlock} (header : loop.Of b) :
    loop.maximum ≤ largestUInt32 := by
  obtain ⟨text, -, read⟩ := Option.bind_eq_some_iff.1 header.maximum
  exact readUnsigned?_le read

theorem LoopHeader.Of.count {loop : LoopHeader} {b : LoopBlock} (header : loop.Of b) :
    b.count = loop.maximum := by
  rw [LoopBlock.count, header.maximum]
  rfl

theorem LoopHeader.Of.words {loop : LoopHeader} {b : LoopBlock} {first index : Nat}
    {lead : List Char} (header : loop.Of b) (regular : b.Regular first index lead)
    (fits : loop.index ≤ largestUInt64) : ∀ i < loop.maximum, Words loop (i + 1) := by
  intro i inside
  exact ⟨regular.bound _ header.bound, fits, header.maximum_le,
    Nat.le_trans inside header.maximum_le⟩

theorem except_bind_ok {ε α β : Type} {x : Except ε α} {f : α → Except ε β} {b : β}
    (done : x.bind f = .ok b) : ∃ a, x = .ok a ∧ f a = .ok b := by
  cases x with
  | error => cases done
  | ok a => exact ⟨a, rfl, done⟩

theorem unroll?_empty {loop : LoopHeader} {body expanded : List Char} (none : loop.maximum = 0)
    (unrolled : unroll? loop body = some expanded) :
    expanded = markerLine (.endOfLoop loop.index) := by
  obtain ⟨texts, mapped, built⟩ := Option.bind_eq_some_iff.1 unrolled
  rw [none] at mapped
  cases mapped
  cases built
  rfl

/-- The first block of a text is read under its number and unrolled in its place. -/
theorem unrollAll_ok {limits : Limits} {sourceId : String} {index : Nat}
    {front rest before cs unrolled : List Char} {b : LoopBlock}
    (found : LoopBlock.find? cs = some (front, b, rest))
    (expanded : unrollAll limits sourceId index before cs = .ok unrolled) :
    ∃ loop copies behind, loop.index = index ∧ loop.Of b ∧ unroll? loop b.body = some copies ∧
      unrollAll limits sourceId (index + 1) (before ++ front ++ b.toChars) rest = .ok behind ∧
      unrolled = front ++ copies ++ behind := by
  rw [unrollAll_some found] at expanded
  obtain ⟨loop, read, expanded⟩ := except_bind_ok expanded
  obtain ⟨numbered, header⟩ := readHeader_ok read
  cases copied : unroll? loop b.body with
  | none => rw [copied] at expanded; contradiction
  | some copies =>
    rw [copied] at expanded
    obtain ⟨behind, later, expanded⟩ := except_bind_ok expanded
    cases expanded
    exact ⟨loop, copies, behind, numbered, header, copied, later, rfl⟩

/-- Unrolling a regular text gives the headers of its blocks, each under its number. -/
theorem Regular.expands {first index : Nat} {lead cs : List Char}
    (regular : Regular first index lead cs) {limits : Limits} {sourceId : String}
    {before unrolled : List Char}
    (expanded : unrollAll limits sourceId index before cs = .ok unrolled)
    (fits : index + (loopBlocks cs).length ≤ largestUInt64 + 1) :
    Expands first index (loopBlocks cs) (heads (lead ++ unrolled)) := by
  induction regular generalizing before unrolled with
  | done none idle =>
    rw [unrollAll_none none] at expanded
    cases expanded
    rw [loopBlocks_none none]
    exact .done idle
  | empty found none _ ih =>
    rw [loopBlocks_some found, List.length_cons] at fits
    obtain ⟨loop, copies, behind, numbered, header, copied, later, rfl⟩ :=
      unrollAll_ok found expanded
    obtain rfl := unroll?_empty (header.count.symm.trans none) copied
    subst numbered
    have expands := ih later (by omega)
    rw [loopBlocks_some found]
    refine .empty none ?_
    rwa [← List.append_assoc, ← List.append_assoc]
  | block found regular _ ih =>
    rw [loopBlocks_some found, List.length_cons] at fits
    obtain ⟨loop, copies, behind, numbered, header, copied, later, rfl⟩ :=
      unrollAll_ok found expanded
    subst numbered
    have fit : loop.index ≤ largestUInt64 := by omega
    have words := header.words regular fit
    obtain ⟨front, hss, idle, iterations, whole⟩ := heads_unroll regular copied header.count words
    have expands := ih later (by omega)
    rw [List.append_assoc, ← List.append_assoc, whole, loopBlocks_some found]
    exact .block header regular.iterated rfl fit idle iterations expands

end Definition

end Questionnaire
