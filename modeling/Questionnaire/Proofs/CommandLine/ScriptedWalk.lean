import Questionnaire.CommandLine.Execution
import Questionnaire.Proofs.Navigation.Remaining
import Questionnaire.Proofs.Navigation.LoopScan
import Questionnaire.Proofs.Session.ReadBack
import Questionnaire.Proofs.Session.Sitting

/-! Scripted walks. Whoever walks gives the same answers whenever a question is shown, so that a
walk that is led back can go round for ever: nothing but the places of the questions bounds it. A
walk ends exactly if it is led back finitely often, and one that never is ends within the weight
of its survey. -/
namespace Questionnaire

/-- A move that is stored is one of the navigator. -/
theorem Session.commit_stored {s t : Session} {direction : Direction} {storage after : Storage}
    {transition : Transition} (committed : s.commit direction storage = (.ok transition, t, after))
    (stored : transition.isStored = true) : ∃ id n, s.move direction = (.ok (some id), n) ∧
      t = { s with navigator := n, store := s.store.merge } ∧
      transition = t.arrival direction id := by
  unfold commit at committed
  obtain ⟨e, failed⟩ | stayed | ⟨id, n, moved, left⟩ := s.depart_cases direction
  · rw [failed] at committed
    cases committed
  · rw [stayed] at committed
    cases committed
    cases stored
  · rw [left] at committed
    refine ⟨id, n, moved, ?_⟩
    simp only [conclude, settle] at committed
    split at committed
    · split at committed
      · cases committed
        exact ⟨rfl, rfl⟩
      · cases committed
        cases stored
    · cases committed
      cases stored

theorem Session.advanceAnyway_stored {s t : Session} {storage after : Storage}
    {transition : Transition} (advanced : s.advanceAnyway storage = (.ok transition, t, after))
    (stored : transition.isStored = true) : ∃ id n,
      s.navigator.next s.surroundings = (.ok (some id), n) ∧
      t = { s with navigator := n, store := s.store.merge } ∧
      transition = t.arrival .forward id := by
  unfold advanceAnyway at advanced
  split at advanced
  · cases advanced
    cases stored
  · exact commit_stored advanced stored

/-- Storage in memory that has not been told to fail. -/
def Storage.Accepts (storage : Storage) : Prop :=
  ∃ m : MemoryStorage, storage = .memory m ∧ m.failure = none ∧ m.code = successCode

theorem Storage.Accepts.store {storage : Storage} (accepts : storage.Accepts)
    (changes : ChangeSet) :
    ∃ after, storage.store changes = (.ok successCode, after) ∧ after.Accepts := by
  obtain ⟨m, rfl, working, accepting⟩ := accepts
  refine ⟨_, ?_, { m with calls := m.calls + 1, saved := changes.applyTo m.saved }, rfl, working,
    accepting⟩
  rw [Storage.store, MemoryStorage.store]
  simp only [working, accepting, bne_self_eq_false]
  rfl

/-- A move that storage accepts. -/
theorem Session.commit_accepted {s : Session} {direction : Direction} {storage after : Storage}
    {id : String} {n : Navigator} (moved : s.move direction = (.ok (some id), n))
    (accepted : storage.store { s with navigator := n }.changes = (.ok successCode, after)) :
    s.commit direction storage =
      (.ok ({ s with navigator := n, store := s.store.merge }.arrival direction id),
        { s with navigator := n, store := s.store.merge }, after) := by
  rw [commit, depart, moved]
  simp only [conclude, accepted, settle, if_pos]

/-- A move to the first of the targets that are selected. -/
theorem Navigator.next_of_target {env : Surroundings} {n : Navigator} {id target : String}
    {more : List String} {r r' : Record} (active : n.state = .active id)
    (got : env.survey.get? id = some r) (targets : env.skipTargets r = target :: more)
    (found : env.survey.record? target = some r') (unmarked : r'.marker? = none)
    (free : r'.directives.loopEntry = none) (shown : env.permits r'.directives.displayIf = true)
    (steps : n.maxSteps ≠ 0) : n.next env = (.ok (some target),
      { n with history := { n.history with upcoming := more ++ n.history.upcoming } }.arrive r') := by
  obtain ⟨rest, steps⟩ := Nat.exists_eq_succ_of_ne_zero steps
  have same := (Survey.mem_of_record? found).2
  have arrived : Walk.step env ⟨{ n with history := n.history.enqueue (target :: more) }, some id,
      none⟩ = .ok (.arrived target ({ n with
        history := { n.history with upcoming := more ++ n.history.upcoming } }.arrive r')) := by
    simp [Walk.step, Walk.candidate?, History.enqueue, History.pop?, found, unmarked,
      Walk.visitQuestion, free, Walk.offer, shown, same]
  have walked : ({ n with history := n.history.enqueue (target :: more) } : Navigator).walk env
      (some id) none = .ok (some (target, { n with
        history := { n.history with
          upcoming := more ++ n.history.upcoming } }.arrive r')) := by
    rw [walk, steps, Walk.run, ← steps, arrived]
    rfl
  rw [next, active]
  simp only [got, targets]
  rw [← active, walked]

namespace Command

open Navigator

namespace ScriptedWalk
variable {answers : List (String × AnswerValue)} {w v : ScriptedWalk} {s t : Session}

/-- The walk after a number of moves, if it has made as many. -/
def after? (answers : List (String × AnswerValue)) : Nat → ScriptedWalk → Option ScriptedWalk
  | 0, w => some w
  | moves + 1, w =>
    match w.step answers with
    | .ok (.inr v) => after? answers moves v
    | _ => none

/-- A walk whose next move leads back, given the answers to the question that is shown. -/
def LeadsBack (answers : List (String × AnswerValue)) (w : ScriptedWalk) : Prop :=
  ∃ r s, w.session.current? = some r ∧ giveAnswers r w.session answers = .ok s ∧
    s.navigator.LeadsBack s.surroundings

/-- Ends at an end question, or with a line about the question that the answers do not lead away
from. -/
inductive EndsWith (answers : List (String × AnswerValue)) (w : ScriptedWalk) : WalkEnd → Prop
  | finished {r : Record} (shown : w.session.current? = some r) (terminal : r.isTerminal = true) :
      EndsWith answers w (.finished w.shown)
  | stopped {r : Record} {s u : Session} {t : Transition} {after : Storage}
      (shown : w.session.current? = some r) (given : giveAnswers r w.session answers = .ok s)
      (stays : s.advanceAnyway w.storage = (.ok t, u, after)) (quiet : t.isStored = false) :
      EndsWith answers w (.stopped w.shown (some (r.id, t)))

/-- The visits that a walk has left. -/
def weight (w : ScriptedWalk) : Nat := w.session.navigator.weight w.session.survey

/-- What a walk keeps from move to move. -/
structure Keeps (survey : Survey) (w : ScriptedWalk) : Prop where
  same : w.session.survey = survey
  shows : w.session.navigator.current?.isSome = true
  atRecord : w.session.navigator.AtRecord survey
  serves : w.session.navigator.Serves survey

/-! Moves -/

/-- Answers leave a navigator where it is. -/
structure SamePlace (s t : Session) : Prop where
  survey : t.survey = s.survey
  state : t.navigator.state = s.navigator.state
  history : t.navigator.history = s.navigator.history
  serves : ∀ survey, s.navigator.Serves survey → t.navigator.Serves survey

theorem SamePlace.trans {u : Session} (first : SamePlace s t) (second : SamePlace t u) :
    SamePlace s u where
  survey := second.survey.trans first.survey
  state := second.state.trans first.state
  history := second.history.trans first.history
  serves survey serves := second.serves survey (first.serves survey serves)

theorem samePlace_of_setField (s : Session) (key : String) (value : AnswerValue) :
    SamePlace s (s.setField key value).2 := by
  obtain same | ⟨question, store, -, -, same⟩ := s.setField_cases key value
  · rw [same]
    exact ⟨rfl, rfl, rfl, fun _ serves => serves⟩
  · rw [same]
    exact ⟨rfl, rfl, rfl, fun _ serves => serves.refreshBounds question store.source⟩

theorem giveAnswers_samePlace {r : Record} (given : giveAnswers r s answers = .ok t) :
    SamePlace s t := by
  induction answers generalizing s with
  | nil =>
    cases given
    exact ⟨rfl, rfl, rfl, fun _ serves => serves⟩
  | cons answer answers ih =>
    obtain ⟨name, value⟩ := answer
    rw [giveAnswers] at given
    split at given
    · exact ih given
    · next field _ =>
      have set := samePlace_of_setField s field value
      split at given
      · next same =>
        rw [same] at set
        exact set.trans (ih given)
      · cases given

/-- A move of a walk goes on to another question, or the walk ends before it. -/
theorem step_cases {outcome : WalkEnd ⊕ ScriptedWalk} (stepped : w.step answers = .ok outcome) :
    (w.session.current? = none ∧ outcome = .inl (.stopped w.shown none)) ∨
    (∃ e, w.EndsWith answers e ∧ outcome = .inl e) ∨
    ∃ r s id n v, w.session.current? = some r ∧ giveAnswers r w.session answers = .ok s ∧
      s.navigator.next s.surroundings = (.ok (some id), n) ∧ v.session.navigator = n ∧
      v.session.survey = s.survey ∧ outcome = .inr v := by
  unfold step at stepped
  split at stepped
  · next none =>
    cases stepped
    exact .inl ⟨none, rfl⟩
  · next r shown =>
    refine .inr ?_
    split at stepped
    · next terminal =>
      cases stepped
      exact .inl ⟨_, .finished shown terminal, rfl⟩
    · simp only [bind, Except.bind] at stepped
      split at stepped
      · cases stepped
      · next s given =>
        rcases advanced : s.advanceAnyway w.storage with ⟨result, t, storage⟩
        rw [advanced] at stepped
        cases result with
        | error e => cases stepped
        | ok transition =>
          by_cases stored : transition.isStored = true
          · obtain ⟨id, n, moved, same, arrived⟩ := Session.advanceAnyway_stored advanced stored
            refine .inr ⟨r, s, id, n, ⟨t, storage, id :: w.shown⟩, shown, given, moved,
              by rw [same], by rw [same], ?_⟩
            unfold Session.arrival at arrived
            split at arrived
            all_goals
              subst arrived
              cases stepped
              rfl
          · refine .inl ⟨.stopped w.shown (some (r.id, transition)),
              .stopped shown given advanced (Bool.eq_false_iff.2 stored), ?_⟩
            cases transition with
            | moved => exact absurd rfl stored
            | terminal => exact absurd rfl stored
            | _ =>
              cases stepped
              rfl

variable {survey : Survey}

theorem Keeps.shown (keeps : w.Keeps survey) : ∃ r, w.session.current? = some r := by
  obtain ⟨id, here⟩ := Option.isSome_iff_exists.1 keeps.shows
  obtain ⟨r, found⟩ := keeps.atRecord id here
  refine ⟨r, ?_⟩
  rw [Session.current?, here, keeps.same]
  exact Survey.get?_of_record? found

/-- What a stored move does to the weight of a walk. -/
theorem Keeps.step (keeps : w.Keeps survey) (stepped : w.step answers = .ok (.inr v)) :
    v.Keeps survey ∧ ((survey.records.map Record.id).Nodup → ¬w.LeadsBack answers →
      v.weight < w.weight) := by
  obtain ⟨none, outcome⟩ | ⟨e, -, outcome⟩ |
    ⟨r, s, id, n, u, shown, given, moved, rfl, held, outcome⟩ := step_cases stepped
  · cases outcome
  · cases outcome
  · cases outcome
    have place := giveAnswers_samePlace given
    have same : s.surroundings.survey = survey := place.survey.trans keeps.same
    have stays : s.navigator.current? = w.session.navigator.current? := by
      rw [current?, place.state, current?]
    have serves := place.serves survey keeps.serves
    obtain ⟨here, atRecord⟩ := next_atRecord moved
    have passes : v.session.navigator.Serves survey := by
      have kept := serves.next s.surroundings
      rwa [moved] at kept
    refine ⟨⟨held.trans same, by rw [here]; rfl, ?_, passes⟩, fun distinct onward => ?_⟩
    · exact same ▸ atRecord
    · have stood : s.navigator.AtRecord s.surroundings.survey :=
        fun id shows => same ▸ keeps.atRecord id (stays ▸ shows)
      have less := next_weight (same ▸ distinct) stood moved
        fun back => onward ⟨r, s, shown, given, back⟩
      have before : s.navigator.weight s.survey = w.weight := by
        rw [weight, Navigator.weight, stays, place.history, place.survey, Navigator.weight]
      rw [weight, held, ← before]
      exact less

/-! Runs -/

theorem after?_of_step (stepped : w.step answers = .ok (.inr v)) (moves : Nat) :
    after? answers (moves + 1) w = after? answers moves v := by
  rw [after?, stepped]

theorem after?_add (answers : List (String × AnswerValue)) (moves more : Nat) (w : ScriptedWalk) :
    after? answers (moves + more) w = (after? answers moves w).bind (after? answers more) := by
  induction moves generalizing w with
  | zero =>
    rw [Nat.zero_add]
    rfl
  | succ moves ih =>
    rw [Nat.succ_add, after?, after?]
    split
    · exact ih _
    · rfl

/-- A run does not end as long as the walk moves on. -/
theorem run_eq_none_iff {fuel : Nat} :
    run answers fuel w = .ok none ↔ (after? answers fuel w).isSome = true := by
  induction fuel generalizing w with
  | zero => exact ⟨fun _ => rfl, fun _ => rfl⟩
  | succ fuel ih =>
    rw [run, after?]
    cases w.step answers with
    | error e => exact ⟨nofun, nofun⟩
    | ok outcome =>
      cases outcome with
      | inl e => exact ⟨nofun, nofun⟩
      | inr v => exact ih

/-- A run ends where a walk does that has moved on so far. -/
theorem Keeps.run_ends (keeps : w.Keeps survey) {fuel : Nat} {e : WalkEnd}
    (ran : run answers fuel w = .ok (some e)) :
    ∃ moves v, moves < fuel ∧ after? answers moves w = some v ∧ v.EndsWith answers e := by
  induction fuel generalizing w with
  | zero => cases ran
  | succ fuel ih =>
    rw [run] at ran
    simp only [bind, Except.bind] at ran
    split at ran
    · cases ran
    · next outcome stepped =>
      cases outcome with
      | inr v =>
        obtain ⟨moves, u, less, reached, ends⟩ := ih (keeps.step stepped).1 ran
        exact ⟨moves + 1, u, Nat.succ_lt_succ less, (after?_of_step stepped moves).trans reached,
          ends⟩
      | inl e' =>
        cases ran
        refine ⟨0, w, Nat.zero_lt_succ fuel, rfl, ?_⟩
        obtain ⟨none, -⟩ | ⟨_, ends, outcome⟩ | ⟨_, _, _, _, _, -, -, -, -, -, outcome⟩ :=
          step_cases stepped
        · obtain ⟨r, shown⟩ := keeps.shown
          rw [none] at shown
          cases shown
        · cases outcome
          exact ends
        · cases outcome

theorem Keeps.reached (keeps : w.Keeps survey) {moves : Nat}
    (reached : after? answers moves w = some v) : v.Keeps survey := by
  induction moves generalizing w with
  | zero =>
    cases reached
    exact keeps
  | succ moves ih =>
    rw [after?] at reached
    split at reached
    · next stepped => exact ih (keeps.step stepped).1 reached
    · cases reached

/-- Every move of a walk that is never led back takes from its weight. -/
theorem Keeps.weight_reached (keeps : w.Keeps survey)
    (distinct : (survey.records.map Record.id).Nodup)
    (onward : ∀ n u, after? answers n w = some u → ¬u.LeadsBack answers) {moves : Nat}
    (reached : after? answers moves w = some v) : v.weight + moves ≤ w.weight := by
  induction moves generalizing w with
  | zero =>
    cases reached
    exact Nat.le_refl _
  | succ moves ih =>
    rw [after?] at reached
    split at reached
    · next u stepped =>
      obtain ⟨keeps', lighter⟩ := keeps.step stepped
      have less := lighter distinct (onward 0 w rfl)
      have rest := ih keeps'
        (fun n x later => onward (n + 1) x ((after?_of_step stepped n).trans later)) reached
      omega
    · cases reached

theorem Keeps.ends (keeps : w.Keeps survey) (distinct : (survey.records.map Record.id).Nodup)
    (onward : ∀ n u, after? answers n w = some u → ¬u.LeadsBack answers) {fuel : Nat}
    (enough : w.weight < fuel) : run answers fuel w ≠ .ok none := by
  intro ran
  obtain ⟨v, reached⟩ := Option.isSome_iff_exists.1 (run_eq_none_iff.1 ran)
  have bounded := keeps.weight_reached distinct onward reached
  omega

/-- A walk ends exactly if it is led back for a while only. -/
theorem Keeps.ends_iff_onward (keeps : w.Keeps survey)
    (distinct : (survey.records.map Record.id).Nodup) :
    (∃ fuel, run answers fuel w ≠ .ok none) ↔
      ∃ moves, ∀ n v, moves ≤ n → after? answers n w = some v → ¬v.LeadsBack answers := by
  constructor
  · rintro ⟨fuel, ended⟩
    refine ⟨fuel, fun n v late reached => (ended (run_eq_none_iff.2 ?_)).elim⟩
    rw [← Nat.add_sub_cancel' late, after?_add] at reached
    obtain ⟨u, before, -⟩ := Option.bind_eq_some_iff.1 reached
    exact Option.isSome_iff_exists.2 ⟨u, before⟩
  · rintro ⟨moves, onward⟩
    cases reached : after? answers moves w with
    | none => exact ⟨moves, fun ran => by simpa [reached] using run_eq_none_iff.1 ran⟩
    | some v =>
      refine ⟨moves + (v.weight + 1), fun ran => ?_⟩
      have moved := run_eq_none_iff.1 ran
      rw [after?_add, reached] at moved
      refine (keeps.reached reached).ends distinct (fun n u later => ?_) (Nat.lt_succ_self _)
        (run_eq_none_iff.2 moved)
      refine onward (moves + n) u (Nat.le_add_right _ _) ?_
      rw [after?_add, reached]
      exact later

/-- No walk through a survey whose skip targets and jumps lead forward is led back. -/
theorem Keeps.not_leadsBack (keeps : w.Keeps survey)
    (distinct : (survey.records.map Record.id).Nodup) (forward : survey.Forward)
    (skips : survey.SkipsForward) : ¬w.LeadsBack answers := by
  rintro ⟨r, s, shown, given, back⟩
  have place := giveAnswers_samePlace given
  have same : s.surroundings.survey = survey := place.survey.trans keeps.same
  subst same
  refine Navigator.not_leadsBack distinct forward skips (place.serves _ keeps.serves) ?_ back
  intro id here
  rw [current?, place.state] at here
  exact keeps.atRecord id here

theorem compile_of_toOption {config : SessionConfig} {now : Option Moment}
    {sourceId definition : String}
    (accepted : (Survey.compile config.limits sourceId definition).toOption = some survey) :
    Session.compile config now sourceId definition = .ok (Session.ofSurvey survey config now) := by
  rw [Session.compile, Survey.ok_of_toOption accepted]
  rfl

/-- A walk that begins. -/
theorem keeps_of_start {config : SessionConfig} {now : Option Moment}
    {sourceId definition first : String}
    (compiled : Session.compile config now sourceId definition = .ok s)
    (started : s.start = (.ok first, t)) :
    s.survey.Compiled ∧ Keeps s.survey { session := t, shown := [first] } ∧
      weight { session := t, shown := [first] } ≤ s.survey.branching ^ s.survey.size := by
  simp only [Session.compile, bind, Except.bind, pure, Except.pure] at compiled
  split at compiled
  · cases compiled
  · next survey accepted =>
    cases compiled
    rw [Session.start] at started
    rcases begun : (Session.ofSurvey survey config now).navigator.start
      (Session.ofSurvey survey config now).surroundings with ⟨result, n⟩
    rw [begun] at started
    cases started
    obtain ⟨light, atRecord, r, here, -⟩ := start_weight begun
    have serves := (serves_ofSurvey survey config.limits).start
      (Session.ofSurvey survey config now).surroundings
    refine ⟨⟨_, _, _, accepted⟩, ⟨rfl, ?_, atRecord, ?_⟩, light⟩
    · exact Option.isSome_iff_exists.2 ⟨first, here⟩
    · have kept := congrArg (fun moved => moved.2.Serves survey) begun
      exact kept.mp serves

/-- A scripted walk ends exactly if it is led back for a while only. Where it ends it has reached
an end question or stops with a line about the question shown, if it does not fail. One that is
never led back ends within the weight of its survey, and no walk is led back if the skip targets
and the jumps of the survey lead forward. -/
theorem ends_unless_led_back {config : SessionConfig} {now : Option Moment}
    {sourceId definition first : String} (answers : List (String × AnswerValue))
    (compiled : Session.compile config now sourceId definition = .ok s)
    (started : s.start = (.ok first, t)) :
    let w : ScriptedWalk := { session := t, shown := [first] }
    ((∃ fuel, run answers fuel w ≠ .ok none) ↔
        ∃ moves, ∀ n v, moves ≤ n → after? answers n w = some v → ¬v.LeadsBack answers) ∧
      ((∀ n v, after? answers n w = some v → ¬v.LeadsBack answers) →
        run answers (s.survey.branching ^ s.survey.size + 1) w ≠ .ok none) ∧
      (∀ fuel e, run answers fuel w = .ok (some e) →
        ∃ moves v, moves < fuel ∧ after? answers moves w = some v ∧ v.EndsWith answers e) ∧
      (s.survey.Forward → s.survey.SkipsForward →
        ∀ n v, after? answers n w = some v → ¬v.LeadsBack answers) := by
  intro w
  obtain ⟨accepted, keeps, light⟩ := keeps_of_start compiled started
  have distinct := accepted.distinct
  refine ⟨keeps.ends_iff_onward distinct, fun onward => ?_, fun fuel e => keeps.run_ends, ?_⟩
  · exact keeps.ends distinct onward (Nat.lt_succ_of_le light)
  · exact fun forward skips n v reached =>
      (keeps.reached reached).not_leadsBack distinct forward skips

/-- A walk through the survey of the guests, whose loop leads forward. -/
theorem ends_unless_led_back_guests : ∃ s t, Session.compile {} none "guests" guestText = .ok s ∧
    s.start = (.ok "COUNT", t) ∧
    ScriptedWalk.run [("COUNT", .one "2"), ("NAME_1_1", .one "Ann")] (3 ^ 9 + 1)
      { session := t, shown := ["COUNT"] } ≠ .ok none := by
  obtain ⟨survey, _, _, _, _, _, accepted, guests⟩ := exists_guests
  have compiled := Survey.compiled_of_toOption accepted
  have evaluated : (Survey.compile {} "guests" guestText).toOption.map (fun survey =>
      (decide survey.SkipsForward, survey.branching,
        (Session.ofSurvey survey {} none).start.1.toOption)) = some (true, 3, some "COUNT") := by
    rw [Survey.compile_eq_chars (by decide +kernel)]
    decide +kernel
  rw [accepted, Option.map_some, Option.some.injEq] at evaluated
  simp only [Prod.mk.injEq, decide_eq_true_eq] at evaluated
  obtain ⟨skips, branching, started⟩ := evaluated
  obtain ⟨-, ends, -, onward⟩ :=
    ends_unless_led_back [("COUNT", .one "2"), ("NAME_1_1", .one "Ann")]
      (compile_of_toOption accepted) (Prod.ext (Survey.ok_of_toOption started) rfl)
  have ended := ends (onward (guests.layout.forward compiled.linked compiled.distinct) skips)
  refine ⟨_, _, compile_of_toOption accepted, Prod.ext (Survey.ok_of_toOption started) rfl, ?_⟩
  have same : (Session.ofSurvey survey {} none).survey = survey := rfl
  rwa [same, branching, guests.size] at ended

/-- The question that is asked again when it is answered. -/
def againText : String := "[A]\n(1) again -> A\n[END]"

def againField : AnswerField := { key := radioKey, shape := .choice false }

/-- A question that its only option leads back to. -/
structure Again (r : Record) : Prop where
  id : r.id = "A"
  directives : r.directives = { skipTargets := [⟨"1", ⟨"A", none⟩⟩] }
  fields : r.fields = [againField]
  unmarked : r.marker? = none

instance (r : Record) : Decidable (Again r) :=
  decidable_of_iff (r.id = "A" ∧ r.directives = { skipTargets := [⟨"1", ⟨"A", none⟩⟩] } ∧
      r.fields = [againField] ∧ r.marker? = none)
    ⟨fun ⟨id, directives, fields, unmarked⟩ => ⟨id, directives, fields, unmarked⟩,
      fun again => ⟨again.id, again.directives, again.fields, again.unmarked⟩⟩

/-- A walk that has come to the question. -/
structure Circles (survey : Survey) (w : ScriptedWalk) : Prop where
  same : w.session.survey = survey
  active : w.session.navigator.state = .active "A"
  steps : w.session.navigator.maxSteps ≠ 0
  accepts : w.storage.Accepts

/-- The answer that has just been given is found under the group of the options. -/
theorem Again.source {r : Record} (again : Again r) (s : Session) :
    (s.put r againField (.one "1")).source (compoundName radioKey r.id) = some (.text "1") := by
  have kept : s.kept r againField (.one "1") = .one "1" := by
    rw [Session.kept, if_neg (by decide)]
  obtain ⟨coherent, e, held, given⟩ := Session.put_answered (s := s) (r := r) (f := againField)
    (v := .one "1") (by rw [kept]; decide)
  have live := Store.liveValue?_entry held given (by decide) (by rw [again.id]; decide)
    fun same => absurd same (by rw [again.id]; decide)
  have numeral : Store.numeral? (compoundName radioKey r.id) = none := by
    rw [again.id]
    decide +kernel
  rw [Store.source, (coherent.lookup _).1, Store.answer?, numeral, Option.none_or, Store.find?]
  rw [Store.liveValue?, show againField.key = radioKey from rfl] at live
  rw [live, kept]
  rfl

theorem Again.skipTargets {r : Record} (again : Again r) {env : Surroundings}
    (answered : env.source (compoundName radioKey r.id) = some (.text "1")) :
    env.skipTargets r = ["A"] := by
  have selected : "1" ∈ env.selected r.id := Surroundings.mem_selected.2
    ⟨radioKey, by simp, .text "1", answered, List.mem_singleton.2 rfl⟩
  rw [Surroundings.skipTargets, again.directives]
  simp [selected, Surroundings.permits]

theorem Again.isTerminal {r : Record} (again : Again r) : r.isTerminal = false := by
  rw [Record.isTerminal, again.id, again.directives]
  decide

/-- The option leads back to the question. -/
theorem Again.next {r : Record} (again : Again r) {env : Surroundings} {n : Navigator}
    (found : env.survey.record? "A" = some r)
    (answered : env.source (compoundName radioKey r.id) = some (.text "1"))
    (active : n.state = .active "A") (steps : n.maxSteps ≠ 0) :
    ∃ m, n.next env = (.ok (some "A"), m) ∧ m.state = .active "A" ∧ m.maxSteps ≠ 0 := by
  refine ⟨_, next_of_target active (Survey.get?_of_record? found) (again.skipTargets answered) found
    again.unmarked (by rw [again.directives]) (by rw [again.directives]; rfl) steps, ?_, steps⟩
  rw [arrive, again.isTerminal, again.id]
  rfl

/-- Giving the answer and moving on ends where it began. -/
theorem Circles.step {r : Record} (again : Again r) (found : survey.record? "A" = some r)
    (circles : w.Circles survey) :
    ∃ v, w.step [("A", .one "1")] = .ok (.inr v) ∧ v.Circles survey := by
  obtain ⟨rfl, active, steps, accepts⟩ := circles
  have got := Survey.get?_of_record? found
  have shown : w.session.navigator.current? = some "A" := by
    rw [current?, active]
    rfl
  have here : w.session.current? = some r := by
    rw [Session.current?, shown, Option.bind_some, got]
  let t := w.session.withAnswers "A" (w.session.put r againField (.one "1"))
  have given : giveAnswers r w.session [("A", .one "1")] = .ok t := by
    have meant : scriptedField? r "A" = some radioKey := by
      rw [scriptedField?, again.id, again.fields]
      rfl
    have asked : r.field? radioKey = some againField := by
      rw [Record.field?, again.fields]
      rfl
    rw [giveAnswers, meant]
    simp only [Session.setField_put shown got asked]
    rfl
  have gate : t.gate = .passed := by
    have held : t.survey.get? "A" = some r := got
    have stays : t.navigator.state = .active "A" := active
    simp only [Session.gate, stays, held, GateOutcome.ofRecord, again.directives]
  obtain ⟨n, moved, stays, steps⟩ : ∃ n, t.navigator.next t.surroundings = (.ok (some "A"), n) ∧
      n.state = .active "A" ∧ n.maxSteps ≠ 0 :=
    again.next found (again.source w.session) active steps
  obtain ⟨after, accepted, accepts⟩ := accepts.store { t with navigator := n }.changes
  let u : Session := { t with navigator := n, store := t.store.merge }
  have arrival : u.arrival .forward "A" = .moved "A" none := by
    have stays : u.navigator.state = .active "A" := stays
    rw [Session.arrival, stays]
    rfl
  have advanced : t.advanceAnyway w.storage = (.ok (.moved "A" none), u, after) := by
    rw [Session.advanceAnyway, gate, ← arrival]
    exact Session.commit_accepted moved accepted
  refine ⟨⟨u, after, "A" :: w.shown⟩, ?_, ⟨rfl, stays, steps, accepts⟩⟩
  rw [ScriptedWalk.step, here]
  simp only [again.isTerminal, given, bind, Except.bind, advanced]
  rfl

theorem Circles.run {r : Record} (again : Again r) (found : survey.record? "A" = some r)
    (circles : w.Circles survey) (fuel : Nat) : run [("A", .one "1")] fuel w = .ok none := by
  induction fuel generalizing w with
  | zero => rfl
  | succ fuel ih =>
    obtain ⟨v, stepped, circles⟩ := circles.step again found
    rw [ScriptedWalk.run, stepped]
    exact ih circles

/-- The walk that gives the answer whenever the question is asked never ends. -/
theorem again_never_ends : ∃ s t, Session.compile {} none "again" againText = .ok s ∧
    s.start = (.ok "A", t) ∧
    ∀ fuel, ScriptedWalk.run [("A", .one "1")] fuel { session := t, shown := ["A"] } =
      .ok none := by
  have evaluated : (Survey.compile {} "again" againText).toOption.map (fun survey =>
      let begun := (Session.ofSurvey survey {} none).start
      ((survey.record? "A").any (decide <| Again ·), begun.1.toOption,
        decide (begun.2.state = .active "A"), begun.2.navigator.maxSteps == 0)) =
      some (true, some "A", true, false) := by
    decide +kernel
  obtain ⟨survey, accepted, evaluated⟩ := Option.map_eq_some_iff.1 evaluated
  simp only [Prod.mk.injEq, Option.any_eq_true, decide_eq_true_eq, beq_eq_false_iff_ne] at evaluated
  obtain ⟨⟨r, found, again⟩, started, active, steps⟩ := evaluated
  have circles : Circles survey
      { session := (Session.ofSurvey survey {} none).start.2, shown := ["A"] } :=
    ⟨rfl, active, steps, {}, rfl, rfl, rfl⟩
  exact ⟨_, _, compile_of_toOption accepted, Prod.ext (Survey.ok_of_toOption started) rfl,
    circles.run again found⟩

end ScriptedWalk

end Command

end Questionnaire
