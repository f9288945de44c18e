import Questionnaire.Proofs.Navigation.Retrace

/-! Where a stored history can take a navigator. Resuming only asks whether the last visit is
of something that the survey knows, and stepping back does not ask the survey at all. So what
is shown from there on is sound exactly if the stored visits still fit the survey. -/
namespace Questionnaire

/-- A question that can be navigated to: no row of a grid and no marker. -/
def Survey.HasQuestion (s : Survey) (id : String) : Prop :=
  ∃ r, s.record? id = some r ∧ r.marker? = none

/-- A question behind which the survey goes on. -/
def Survey.HasOpenQuestion (s : Survey) (id : String) : Prop :=
  ∃ r, s.record? id = some r ∧ r.marker? = none ∧ r.isTerminal = false

instance (s : Survey) (id : String) : Decidable (s.HasQuestion id) :=
  decidable_of_iff ((s.record? id).any (·.marker?.isNone) = true) (by
    simp [Survey.HasQuestion, Option.any_eq_true])

instance (s : Survey) (id : String) : Decidable (s.HasOpenQuestion id) :=
  decidable_of_iff ((s.record? id).any (fun r => r.marker?.isNone && !r.isTerminal) = true) (by
    simp [Survey.HasOpenQuestion, Option.any_eq_true])

/-- The last visit is one of a question, and all visits before it, but for continuation
markers, are visits of questions that do not end the survey. -/
def Survey.Fits (s : Survey) (visited : List String) : Prop :=
  (∀ id ∈ visited.getLast?, s.HasQuestion id) ∧
    ∀ id ∈ visited.dropLast, LoopMarker.isContinuation id = false → s.HasOpenQuestion id

instance (s : Survey) (visited : List String) : Decidable (s.Fits visited) :=
  inferInstanceAs (Decidable (_ ∧ _))

/-- The restored visits are those of the stored list, whatever the framed form says. -/
theorem History.restore_ids {stored : Json} {framed : Option Json} {h : History}
    (restored : History.restore stored framed = .ok h) :
    ∃ plain, History.ofJson stored = .ok plain ∧ h.ids = plain.ids := by
  simp only [History.restore, bind, Except.bind, pure, Except.pure] at restored
  split at restored
  · contradiction
  · next plain read =>
    refine ⟨plain, read, ?_⟩
    split at restored
    · next framed _ =>
      obtain rfl := Except.ok.inj restored
      split
      · next same => exact beq_iff_eq.1 same
      · rfl
    · obtain rfl := Except.ok.inj restored
      rfl

namespace Navigator
variable {s : Survey} {n m : Navigator} {id : String}

/-- What is shown is a question of the survey, and the navigator is at the end exactly if that
question ends the survey. -/
def InPlace (s : Survey) (n : Navigator) : Prop :=
  ∃ id r, n.current? = some id ∧ s.record? id = some r ∧ r.marker? = none ∧
    (n.state = .terminal id ↔ r.isTerminal = true)

theorem inPlace_active (active : n.state = .active id) :
    n.InPlace s ↔ s.HasOpenQuestion id := by
  have shown : n.current? = some id := by rw [Navigator.current?, active]; rfl
  have going : n.state ≠ .terminal id := by simp [active]
  constructor
  · rintro ⟨other, r, current, found, unmarked, terminal⟩
    obtain rfl := Option.some.inj (shown.symm.trans current)
    exact ⟨r, found, unmarked, by simpa [going] using terminal⟩
  · rintro ⟨r, found, unmarked, continues⟩
    exact ⟨id, r, shown, found, unmarked, by simp [going, continues]⟩

/-- Stepping back a number of times begins with one step. -/
theorem retreat_succ (n : Navigator) (count : Nat) :
    (n.retreat (count + 1)).2 = (n.back.2.retreat count).2 := by
  induction count with
  | zero => rfl
  | succ count ih => exact congrArg (fun n => n.back.2) ih

theorem forall_retreat {motive : Navigator → Prop} (n : Navigator) :
    (∀ count, motive (n.retreat count).2) ↔
      motive n ∧ ∀ count, motive (n.back.2.retreat count).2 := by
  simp only [← retreat_succ]
  exact ⟨fun all => ⟨all 0, fun count => all (count + 1)⟩, fun ⟨here, later⟩ count => by
    cases count with
    | zero => exact here
    | succ count => exact later count⟩

theorem back_stays (none : n.history.back? = .none) : n.back.2 = n := by
  unfold back
  rw [none]
  split <;> rfl

theorem back_lands {f : Frame} {earlier : List Frame} (going : n.state ≠ .idle)
    (dropped : n.history.visits.tail.dropWhile (fun f => LoopMarker.isContinuation f.id) =
      f :: earlier) :
    n.back.2 = { n with history := ⟨f :: earlier, f.queued⟩, state := .active f.id } := by
  have returned : n.history.back? = some (f.id, ⟨f :: earlier, f.queued⟩) := by
    rw [History.back?, dropped]
  unfold back
  split
  · contradiction
  all_goals rw [returned]

/-- The steps back land on one earlier visit after the other, passing over continuation
markers, and stop at the first one. -/
theorem retreats_inPlace {visits : List Frame} (going : n.state ≠ .idle)
    (before : n.history.visits.tail.dropWhile (fun f => LoopMarker.isContinuation f.id) =
      visits.dropWhile fun f => LoopMarker.isContinuation f.id) :
    (∀ count, (n.retreat count).2.InPlace s) ↔ n.InPlace s ∧
      ∀ f ∈ visits, LoopMarker.isContinuation f.id = false → s.HasOpenQuestion f.id := by
  -- The list may begin with markers that the next step back passes over, so it is compared
  -- with what lies below the shown visit only behind those.
  induction visits generalizing n with
  | nil =>
    have stays : n.back.2 = n := back_stays (by rw [History.back?, before]; rfl)
    have stay (count : Nat) : (n.retreat count).2 = n := by
      induction count with
      | zero => rfl
      | succ count ih => rw [retreat_succ, stays, ih]
    simp [stay]
  | cons f visits ih =>
    rw [List.forall_mem_cons]
    cases marker : LoopMarker.isContinuation f.id with
    | true =>
      have passed : n.history.visits.tail.dropWhile (fun f => LoopMarker.isContinuation f.id) =
          visits.dropWhile fun f => LoopMarker.isContinuation f.id := by
        rw [before, List.dropWhile_cons, if_pos marker]
      simpa using ih going passed
    | false =>
      rw [List.dropWhile_cons_of_neg (by simp [marker])] at before
      have lands := back_lands going before
      have here : n.back.2.InPlace s ↔ s.HasOpenQuestion f.id := inPlace_active (by rw [lands])
      have later := ih (n := n.back.2) (by simp [lands]) (by rw [lands]; rfl)
      rw [forall_retreat, later, here]
      simp

theorem resume_ok {h : History} (resumed : n.resume h s = (.ok id, m)) :
    h.current? = some id ∧ m.history = h ∧ ∃ r, s.get? id = some r ∧
      m.state = if r.isTerminal then .terminal id else .active id := by
  unfold resume at resumed
  split at resumed
  · cases resumed
  · next last visited =>
    split at resumed
    · cases resumed
    · next r known =>
      cases resumed
      exact ⟨visited, rfl, r, known, rfl⟩

theorem resume_going {h : History} (resumed : n.resume h s = (.ok id, m)) : m.state ≠ .idle := by
  obtain ⟨-, -, r, -, state⟩ := resume_ok resumed
  rw [state]
  split <;> simp

/-- A resumed navigator is in its place if the last visit is one of a question. -/
theorem resume_inPlace {h : History} (resumed : n.resume h s = (.ok id, m)) :
    m.InPlace s ↔ s.HasQuestion id := by
  obtain ⟨-, -, r, known, state⟩ := resume_ok resumed
  have shown : m.current? = some id := by
    rw [Navigator.current?, state]
    split <;> rfl
  constructor
  · rintro ⟨other, r, current, found, unmarked, -⟩
    obtain rfl := Option.some.inj (shown.symm.trans current)
    exact ⟨r, found, unmarked⟩
  · rintro ⟨r', found, unmarked⟩
    obtain rfl := Option.some.inj (known.symm.trans (Survey.get?_of_record? found))
    refine ⟨id, r, shown, found, unmarked, ?_⟩
    rw [state]
    cases r.isTerminal <;> simp

theorem fits_ids {h : History} (visited : h.current? = some id) :
    s.Fits h.ids ↔ s.HasQuestion id ∧
      ∀ f ∈ h.visits.tail, LoopMarker.isContinuation f.id = false → s.HasOpenQuestion f.id := by
  obtain ⟨f, last, rfl⟩ := Option.map_eq_some_iff.1 visited
  obtain ⟨earlier, visits⟩ := List.head?_eq_some_iff.1 last
  have ids : h.ids = (earlier.reverse.map Frame.id) ++ [f.id] := by
    simp [History.ids, History.frames, visits]
  simp [Survey.Fits, ids, visits]

/-- After a navigator has resumed a stored history, it is in its place however often it steps
back, if and only if the stored visits fit the survey. -/
theorem resume_inPlace_iff {stored : Json} {framed : Option Json} {h : History}
    (restored : History.restore stored framed = .ok h) (resumed : n.resume h s = (.ok id, m)) :
    (∀ count, (m.retreat count).2.InPlace s) ↔
      ∃ plain, History.ofJson stored = .ok plain ∧ s.Fits plain.ids := by
  obtain ⟨plain, read, same⟩ := History.restore_ids restored
  obtain ⟨visited, rfl, -⟩ := resume_ok resumed
  rw [retreats_inPlace (resume_going resumed) rfl, resume_inPlace resumed, ← fits_ids visited, same,
    read]
  simp

/-- A resumed tour of the survey, with the marker that it passed. -/
theorem resume_inPlace_tour : ∃ s h m, (Survey.compile {} "tour" tourText).toOption = some s ∧
    History.restore (.ofTexts ["A", "B_1_1", "__CONT_0_1", "END"]) none = .ok h ∧
    (ofSurvey s {}).resume h s = (.ok "END", m) ∧ ∀ count, (m.retreat count).2.InPlace s := by
  have toured : (Survey.compile {} "tour" tourText).toOption.map (fun s =>
      (decide (s.Fits ["A", "B_1_1", "__CONT_0_1", "END"]), (s.get? "END").isSome)) =
      some (true, true) := by
    decide +kernel
  obtain ⟨s, accepted, toured⟩ := Option.map_eq_some_iff.1 toured
  simp only [Prod.mk.injEq, decide_eq_true_eq, Option.isSome_iff_exists] at toured
  obtain ⟨fits, r, known⟩ := toured
  have resumed (h : History) (visited : h.current? = some "END") :
      (ofSurvey s {}).resume h s = (.ok "END", ((ofSurvey s {}).resume h s).2) := by
    simp [resume, visited, known]
  let h : History := ["A", "B_1_1", "__CONT_0_1", "END"].foldl History.visit {}
  have restored : History.restore (.ofTexts ["A", "B_1_1", "__CONT_0_1", "END"]) none = .ok h :=
    rfl
  exact ⟨s, h, _, accepted, restored, resumed h rfl,
    (resume_inPlace_iff restored (resumed h rfl)).2 ⟨h, rfl, fits⟩⟩

/-- A question that has become an end of the survey since it was visited. -/
def endedText : String := "[A]\n[B,end]\n[C]"

/-- Stepping back lands on an end of the survey without being at the end. -/
theorem resume_behind_end : ∃ s h m, (Survey.compile {} "s" endedText).toOption = some s ∧
    History.restore (.ofTexts ["A", "B", "C"]) none = .ok h ∧
    (ofSurvey s {}).resume h s = (.ok "C", m) ∧ ¬ ∀ count, (m.retreat count).2.InPlace s := by
  have ended : (Survey.compile {} "s" endedText).toOption.map (fun s =>
      (decide (s.HasOpenQuestion "B"), (s.get? "C").isSome)) = some (false, true) := by
    decide +kernel
  obtain ⟨s, accepted, ended⟩ := Option.map_eq_some_iff.1 ended
  simp only [Prod.mk.injEq, decide_eq_false_iff_not, Option.isSome_iff_exists] at ended
  obtain ⟨unfit, r, known⟩ := ended
  have resumed (h : History) (visited : h.current? = some "C") :
      (ofSurvey s {}).resume h s = (.ok "C", ((ofSurvey s {}).resume h s).2) := by
    simp [resume, visited, known]
  let h : History := ["A", "B", "C"].foldl History.visit {}
  have restored : History.restore (.ofTexts ["A", "B", "C"]) none = .ok h := rfl
  refine ⟨s, h, _, accepted, restored, resumed h rfl, fun inPlace => unfit ?_⟩
  obtain ⟨-, history, -⟩ := resume_ok (resumed h rfl)
  have lands := back_lands (resume_going (resumed h rfl))
    (show _ = Frame.mk "B" [] :: [⟨"A", []⟩] by rw [history]; rfl)
  exact (inPlace_active (congrArg Navigator.state lands)).1 (inPlace 1)

end Navigator

end Questionnaire
