import Questionnaire.Proofs.Navigation.Course

/-! What can be relied on wherever a navigator stands: what it shows is the question visited
last, a survey only ends at a terminal question, no bound exceeds its maximum, and a question
is only shown while its condition holds and the iteration that it begins runs. -/
namespace Questionnaire

/-- The iteration is among those that the present answer asks for, and that the survey
allows. -/
def LoopEntry.Runs (env : Surroundings) (e : LoopEntry) : Prop :=
  ∃ loop count, env.survey.loops.find? (·.index == e.loopIndex) = some loop ∧
    ((env.source loop.boundSource).bind Value.asNumber?).bind Decimal.count? = some count ∧
    e.iteration ≤ count ∧ e.iteration ≤ loop.maximum

/-- The present answers let a question be shown. -/
structure Surroundings.Admits (env : Surroundings) (r : Record) : Prop where
  unmarked : r.marker? = none
  permitted : ∀ condition, r.directives.displayIf = some condition → env.holds condition = true
  runs : ∀ e, r.directives.loopEntry = some e → e.Runs env

theorem Loop.readBound_eq_ok {loop : Loop} {source : Source} {bound : Nat}
    (read : loop.readBound source = .ok bound) :
    ∃ count, ((source loop.boundSource).bind Value.asNumber?).bind Decimal.count? = some count ∧
      bound = min count loop.maximum := by
  unfold readBound at read
  split at read
  · next count counted =>
    cases read
    exact ⟨count, counted, rfl⟩
  · contradiction

/-- A record with the identifier of a marker is no end of the survey. -/
theorem Survey.Unreserved.open {s : Survey} (unreserved : s.Unreserved) {r : Record}
    (member : r ∈ s.records) (marker : LoopMarker.isContinuation r.id = true) :
    r.isTerminal = false := by
  unfold LoopMarker.isContinuation at marker
  split at marker
  · next known =>
    have bare := (unreserved r member _ known).2
    have different : r.id ≠ terminalId := by
      intro same
      rw [same, show LoopMarker.ofId? terminalId = none from by decide] at known
      contradiction
    rw [Record.isTerminal, bare, beq_false_of_ne different]
    rfl
  · contradiction

namespace Navigator
variable {s : Survey} {env : Surroundings} {n m : Navigator} {id : String} {r : Record}

theorem Enters.runs (enters : n.Enters env r m) (serves : n.Serves env.survey) :
    ∀ e, r.directives.loopEntry = some e → e.Runs env := by
  intro e annotated
  cases enters with
  | bare plain =>
    rw [plain] at annotated
    contradiction
  | running known read admitted =>
    obtain rfl := Option.some.inj (known.symm.trans annotated)
    obtain ⟨found, accepted, -⟩ := readBound_eq_ok read
    have held := (find?_unread serves _).symm.trans (congrArg (Option.map Loop.unread) found)
    obtain ⟨loop, listed, same⟩ := Option.map_eq_some_iff.1 held
    obtain ⟨count, counted, rfl⟩ := Loop.readBound_eq_ok accepted
    rw [Loop.admits, Bool.and_eq_true, decide_eq_true_eq, decide_eq_true_eq] at admitted
    obtain ⟨asked, allowed⟩ := admitted
    rw [← Loop.eq_of_unread Loop.boundSource (fun _ => rfl) same] at counted
    rw [← Loop.eq_of_unread Loop.maximum (fun _ => rfl) same] at allowed
    exact ⟨loop, _, listed, counted, asked.trans (Nat.min_le_left _ _), allowed⟩

/-- However a walk has come to a question, by a jump, from the queue or as the successor of
another record, the answers let it be shown. -/
theorem Walk.Arrives.admits {w : Walk} (arrives : Walk.Arrives env w id m)
    (serves : w.navigator.Serves env.survey) :
    ∃ r, env.survey.record? id = some r ∧ env.Admits r := by
  induction arrives with
  | here step =>
    cases step with
    | shown candidate found unmarked enters permitted =>
      refine ⟨_, found, unmarked, ?_, enters.runs (candidate.passes.serves serves)⟩
      intro condition conditional
      rwa [Surroundings.permits, conditional, Option.all_some] at permitted
  | later step _ ih => exact ih (step.passes.serves serves)

structure Invariant (s : Survey) (n : Navigator) : Prop where
  current : n.current? = n.history.current?
  idle : n.state = .idle ↔ n.history.visits = []
  shown : ∀ id, n.history.current? = some id → ∃ r, s.record? id = some r ∧ r.marker? = none ∧
    (n.state = .terminal id ↔ r.isTerminal = true)
  earlier : ∀ f ∈ n.history.visits.tail, ∃ r, s.record? f.id = some r ∧ r.isTerminal = false
  bounds : ∀ loop ∈ n.loops, ∀ bound, loop.bound = some bound → bound ≤ loop.maximum

/-- The last visit is one of a question, which is what the state says. -/
theorem Settled.last (settled : n.Settled s) (visited : n.history.current? = some id) :
    ∃ r, s.record? id = some r ∧ r.marker? = none ∧ n.state = r.shownState := by
  obtain ⟨f, top, rfl⟩ := Option.map_eq_some_iff.1 visited
  obtain ⟨r, found, unmarked⟩ := settled.recorded.shown f top
  refine ⟨r, found, unmarked, ?_⟩
  rw [settled.state, stateIn, visited, Option.bind_some, found]

theorem Settled.invariant (settled : n.Settled s) (unreserved : s.Unreserved) :
    n.Invariant s := by
  have idle (none : n.history.current? = none) : n.state = .idle := by
    rw [settled.state, stateIn, none]
    rfl
  have unvisited : n.history.current? = none ↔ n.history.visits = [] := by
    rw [History.current?, Option.map_eq_none_iff, List.head?_eq_none_iff]
  refine ⟨?_, ?_, ?_, ?_, settled.within⟩
  · cases visited : n.history.current? with
    | none => rw [Navigator.current?, idle visited]; rfl
    | some id =>
      obtain ⟨r, found, -, state⟩ := settled.last visited
      rw [Navigator.current?, state, shownState_id?, (Survey.mem_of_record? found).2]
  · rw [← unvisited]
    refine ⟨fun state => ?_, idle⟩
    cases visited : n.history.current? with
    | none => rfl
    | some id =>
      obtain ⟨r, -, -, shown⟩ := settled.last visited
      have known := shownState_id? r
      rw [← shown, state] at known
      cases known
  · intro id visited
    obtain ⟨r, found, unmarked, state⟩ := settled.last visited
    refine ⟨r, found, unmarked, ?_⟩
    rw [state, Record.shownState, (Survey.mem_of_record? found).2]
    cases r.isTerminal <;> simp
  · intro f member
    obtain ⟨r, found, continuation | open'⟩ := settled.toOnTrail.history.left f member
    · obtain ⟨listed, same⟩ := Survey.mem_of_record? found
      rw [← same] at continuation
      exact ⟨r, found, unreserved.open listed continuation⟩
    · exact ⟨r, found, open'⟩

/-- Whatever a navigator was asked for, the invariant holds of it, and when it then starts or
moves on, what it shows is a question that the answers of that moment admit. -/
theorem run_invariant (compiled : s.Compiled) (unreserved : s.Unreserved) (limits : Limits)
    (moves : List Move) :
    let n := (ofSurvey s limits).run s moves
    n.Invariant s ∧ ∀ evaluator source,
      (∀ id m, n.start ⟨s, evaluator, source⟩ = (.ok id, m) →
        ∃ r, s.record? id = some r ∧ Surroundings.Admits ⟨s, evaluator, source⟩ r) ∧
      (∀ id m, n.next ⟨s, evaluator, source⟩ = (.ok (some id), m) →
        ∃ r, s.record? id = some r ∧ Surroundings.Admits ⟨s, evaluator, source⟩ r) := by
  intro n
  have settled : n.Settled s := (ofSurvey_settled compiled limits).run compiled moves
  refine ⟨settled.invariant unreserved, fun evaluator source => ⟨?_, ?_⟩⟩
  · intro id m started
    obtain ⟨first, arrives⟩ := start_arrives started
    exact arrives.admits settled.serves
  · intro id m moved
    obtain ⟨last, r, -, -, arrives⟩ := next_arrives moved
    exact arrives.admits settled.serves

theorem run_invariant_tour : ∃ s, (Survey.compile {} "tour" tourText).toOption = some s ∧
    let n := (ofSurvey s {}).run s [.start {} fun _ => none, .refreshBounds "A" (answering "A" "1")]
    n.Invariant s ∧ (∃ r, s.record? "A" = some r ∧
      Surroundings.Admits ⟨s, {}, answering "choice.A" "1"⟩ r) ∧
    ∃ r, s.record? "B_1_1" = some r ∧ Surroundings.Admits ⟨s, {}, answering "A" "1"⟩ r := by
  have toured : (Survey.compile {} "tour" tourText).toOption.map (fun s =>
      let n := (ofSurvey s {}).run s
        [.start {} fun _ => none, .refreshBounds "A" (answering "A" "1")]
      (decide s.Unreserved, (n.next ⟨s, {}, answering "choice.A" "1"⟩).1.toOption,
        (n.next ⟨s, {}, answering "A" "1"⟩).1.toOption)) =
      some (true, some (some "A"), some (some "B_1_1")) := by
    decide +kernel
  obtain ⟨s, accepted, toured⟩ := Option.map_eq_some_iff.1 toured
  simp only [Prod.mk.injEq, decide_eq_true_eq] at toured
  obtain ⟨unreserved, back, inside⟩ := toured
  obtain ⟨invariant, admits⟩ := run_invariant (Survey.compiled_of_toOption accepted) unreserved {}
    [.start {} fun _ => none, .refreshBounds "A" (answering "A" "1")]
  have moved {α : Type} {outcome : Except SurveyError α × Navigator} {value : α}
      (shown : outcome.1.toOption = some value) : outcome = (.ok value, outcome.2) := by
    obtain ⟨⟨_⟩ | ⟨_⟩, _⟩ := outcome <;> cases shown
    rfl
  exact ⟨s, accepted, invariant, (admits {} _).2 _ _ (moved back), (admits {} _).2 _ _ (moved inside)⟩

end Navigator

end Questionnaire
