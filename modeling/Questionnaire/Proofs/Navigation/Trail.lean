import Questionnaire.Proofs.Navigation.Walk

/-! The state of a navigator can be read off its history: it shows the question visited
last. Moving keeps it so, because a question is only left forwards while it does not end
the survey, and stepping back only returns to a question that was left. -/
namespace Questionnaire

/-- A visit from which the survey went on. -/
def Frame.IsLeft (s : Survey) (f : Frame) : Prop :=
  ∃ r, s.record? f.id = some r ∧ (LoopMarker.isContinuation f.id = true ∨ r.isTerminal = false)

structure History.OnTrail (s : Survey) (h : History) : Prop where
  last : ∀ f ∈ h.visits.head?, ∃ r, s.record? f.id = some r
  left : ∀ f ∈ h.visits.tail, f.IsLeft s

namespace Navigator

/-- The state in which the question visited last is shown. -/
def stateIn (s : Survey) (h : History) : NavigationState :=
  match h.current?.bind s.record? with
  | some r => r.shownState
  | none => .idle

structure OnTrail (s : Survey) (n : Navigator) : Prop where
  history : n.history.OnTrail s
  state : n.state = stateIn s n.history

variable {s : Survey} {n passed : Navigator} {id : String} {r : Record}

theorem onTrail_ofSurvey (s : Survey) (limits : Limits) : (ofSurvey s limits).OnTrail s where
  history := by constructor <;> simp [ofSurvey]
  state := rfl

theorem shownState_id? (r : Record) : r.shownState.id? = some r.id := by
  unfold Record.shownState
  split <;> rfl

/-- The question that is shown is the one visited last, a record of the survey. -/
theorem OnTrail.current? (trail : n.OnTrail s) (shown : n.current? = some id) :
    n.history.current? = some id ∧ ∃ r, s.record? id = some r ∧ n.state = r.shownState := by
  rw [Navigator.current?, trail.state, stateIn] at shown
  rw [trail.state, stateIn]
  cases last : n.history.current? with
  | none =>
    rw [last] at shown
    cases shown
  | some other =>
    rw [last, Option.bind_some] at shown
    rw [Option.bind_some]
    cases found : s.record? other with
    | none =>
      rw [found] at shown
      cases shown
    | some r =>
      rw [found] at shown
      have same := (Survey.mem_of_record? found).2
      obtain rfl : r.id = id := Option.some.inj ((shownState_id? r).symm.trans shown)
      subst same
      exact ⟨rfl, r, found, rfl⟩

/-- Every visit of a navigator that shows a question to be answered may be left. -/
theorem OnTrail.leave {last : String} (trail : n.OnTrail s) (active : n.state = .active last) :
    ∀ f ∈ n.history.visits, f.IsLeft s := by
  have shown : n.current? = some last := by rw [Navigator.current?, active]; rfl
  obtain ⟨current, r, found, state⟩ := trail.current? shown
  have open' : r.isTerminal = false := by
    rw [active, Record.shownState] at state
    split at state
    · contradiction
    · next open' => simpa using open'
  intro f member
  have left := trail.history.left
  rw [History.current?] at current
  cases visits : n.history.visits with
  | nil => rw [visits] at member; cases member
  | cons first earlier =>
    rw [visits] at member left current
    rcases List.mem_cons.1 member with rfl | member
    · obtain rfl : f.id = last := Option.some.inj current
      exact ⟨r, found, .inr open'⟩
    · exact left f member

theorem isLeft_of_isPassage (compiled : s.Compiled) {f : Frame} (passage : f.IsPassage s) :
    f.IsLeft s := by
  obtain ⟨r, index, iteration, found, marked⟩ := passage
  have known := compiled.marker (Survey.mem_of_record? found).1 marked
  rw [(Survey.mem_of_record? found).2] at known
  exact ⟨r, found, .inl (by rw [LoopMarker.isContinuation, known])⟩

theorem Passes.arrive (passes : n.Passes s passed) (compiled : s.Compiled)
    (left : ∀ f ∈ n.history.visits, f.IsLeft s) (found : s.record? id = some r) :
    (passed.arrive r).OnTrail s := by
  have same := (Survey.mem_of_record? found).2
  subst same
  obtain ⟨passages, visits, marked⟩ := passes.visits
  refine ⟨⟨?_, ?_⟩, ?_⟩
  · intro f member
    cases member
    exact ⟨r, found⟩
  · intro f member
    change f ∈ passed.history.visits at member
    rw [visits] at member
    rcases List.mem_append.1 member with passage | earlier
    · exact isLeft_of_isPassage compiled (marked f passage)
    · exact left f earlier
  · have last : (passed.arrive r).history.current? = some r.id := rfl
    rw [stateIn, last, Option.bind_some, found]
    rfl

section
variable (trail : n.OnTrail s)
include trail

theorem OnTrail.back : n.back.2.OnTrail s := by
  obtain ⟨f, earlier, dropped, moved⟩ | stayed := back_cases n
  · rw [moved]
    have behind : f :: earlier <:+ n.history.visits.tail := by
      rw [← dropped]
      exact List.dropWhile_suffix _
    have returned : f ∈ n.history.visits.tail := behind.subset List.mem_cons_self
    -- Markers are skipped on the way back, so the visit is one of a question.
    obtain ⟨r, found, continuation | open'⟩ := trail.history.left f returned
    · have some : n.history.visits.tail.dropWhile
          (fun f => LoopMarker.isContinuation f.id) ≠ [] := by
        rw [dropped]
        exact List.cons_ne_nil _ _
      have kept := List.head_dropWhile_not _ some
      simp only [dropped, List.head_cons, continuation] at kept
      contradiction
    · refine ⟨⟨?_, fun g member => trail.history.left g (behind.subset (.tail _ member))⟩, ?_⟩
      · intro g member
        cases member
        exact ⟨r, found⟩
      · change NavigationState.active f.id = stateIn s ⟨f :: earlier, f.queued⟩
        have last : History.current? ⟨f :: earlier, f.queued⟩ = some f.id := rfl
        rw [stateIn, last, Option.bind_some, found]
        change _ = r.shownState
        rw [Record.shownState, open', (Survey.mem_of_record? found).2]
        rfl
  · rwa [stayed]

theorem OnTrail.refreshBounds (question : String) (source : Source) :
    (n.refreshBounds question source).OnTrail s := ⟨trail.history, trail.state⟩

end

theorem OnTrail.start (env : Surroundings) (trail : n.OnTrail env.survey)
    (compiled : env.survey.Compiled) : (n.start env).2.OnTrail env.survey := by
  obtain ⟨id, passed, r, passes, found, -, started⟩ | ⟨e, failed⟩ := start_cases n env
  · rw [started]
    exact passes.arrive compiled (fun f member => by cases member) found
  · rwa [failed]

theorem OnTrail.next (env : Surroundings) (trail : n.OnTrail env.survey)
    (compiled : env.survey.Compiled) : (n.next env).2.OnTrail env.survey := by
  obtain ⟨last, _, id, passed, r, active, passes, found, -, moved⟩ | stayed | ⟨e, failed⟩ :=
    next_cases n env
  · rw [moved]
    exact passes.arrive compiled (trail.leave active) found
  · rwa [stayed]
  · rwa [failed]

/-- A history that a survey has led to leads any navigator of the survey back there. -/
theorem resume_onTrail {h : History} (trail : h.OnTrail s) (n : Navigator)
    (visited : h.current? = some id) :
    n.resume h s = (.ok id, { n with state := stateIn s h, history := h }) := by
  obtain ⟨r, found⟩ : ∃ r, s.record? id = some r := by
    obtain ⟨f, first, rfl⟩ := Option.map_eq_some_iff.1 visited
    exact trail.last f first
  have known : s.get? id = some r := Survey.get?_of_record? found
  simp only [resume, visited, known, stateIn, Option.bind_some, found]
  rw [Record.shownState, (Survey.mem_of_record? found).2]

end Navigator

end Questionnaire
