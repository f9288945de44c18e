import Mathlib.Algebra.Order.BigOperators.Group.List
import Mathlib.Algebra.Order.Ring.Nat
import Questionnaire.Proofs.Navigation.StepLimit

/-! What a move leaves to be visited. Every place weighs more than all that may be queued behind
it. So a move from a question makes what is left lighter, unless it is led back: by a skip target
that stands no later than the question, or by a loop whose next entry or end does. -/
namespace Questionnaire

namespace Survey
variable {s : Survey} {id other : String} {r : Record}

/-- A record at another one or in front of it. -/
def Precedes (s : Survey) (id other : String) : Prop :=
  ∃ p q, s.position? id = some p ∧ s.position? other = some q ∧ p ≤ q

/-- Skip targets that stand behind their questions. -/
def SkipsForward (s : Survey) : Prop :=
  ∀ r ∈ s.records, ∀ t ∈ r.directives.skipTargets, ¬s.Precedes t.directive.target r.id

instance (s : Survey) (id other : String) : Decidable (s.Precedes id other) :=
  decidable_of_iff
    ((s.position? id).any fun p => (s.position? other).any fun q => decide (p ≤ q)) (by
      simp only [Precedes, Option.any_eq_true, decide_eq_true_eq]
      exact ⟨fun ⟨p, here, q, there, le⟩ => ⟨p, q, here, there, le⟩,
        fun ⟨p, q, here, there, le⟩ => ⟨p, here, q, there, le⟩⟩)

instance (s : Survey) : Decidable s.SkipsForward :=
  inferInstanceAs (Decidable (∀ r ∈ s.records, ∀ t ∈ r.directives.skipTargets,
    ¬s.Precedes t.directive.target r.id))

/-- The records from one on, and none for an unknown one. -/
def remaining (s : Survey) (id : String) : Nat := (s.position? id).elim 0 (s.size - ·)

/-- More places than one can lead to. -/
def branching (s : Survey) : Nat :=
  3 + (s.records.map (·.directives.skipTargets.length)).sum

/-- The visits that a place may give rise to, unless it is led back. -/
def weight (s : Survey) (id : String) : Nat := s.branching ^ s.remaining id

/-- The visits that may follow a place. -/
def weightBehind (s : Survey) (id : String) : Nat := s.branching ^ (s.remaining id - 1)

def weightOf (s : Survey) (ids : List String) : Nat := (ids.map s.weight).sum

theorem branching_pos (s : Survey) : 0 < s.branching := by
  rw [branching]
  omega

theorem remaining_le (s : Survey) (id : String) : s.remaining id ≤ s.size := by
  rw [remaining]
  cases s.position? id with
  | none => exact Nat.zero_le _
  | some p => exact Nat.sub_le _ _

theorem remaining_of_position? {p : Nat} (placed : s.position? id = some p) :
    s.remaining id = s.size - p ∧ p < s.size := by
  refine ⟨by rw [remaining, placed, Option.elim_some], ?_⟩
  obtain ⟨inside, -⟩ := List.findIdx?_eq_some_iff_getElem.1 placed
  exact inside

theorem position?_of_record? (found : s.record? id = some r) : ∃ p, s.position? id = some p := by
  obtain ⟨member, same⟩ := mem_of_record? found
  cases placed : s.position? id with
  | some p => exact ⟨p, rfl⟩
  | none =>
    rw [position?, List.findIdx?_eq_none_iff] at placed
    simpa [same] using placed r member

theorem remaining_pos (found : s.record? id = some r) : 0 < s.remaining id := by
  obtain ⟨p, placed⟩ := position?_of_record? found
  obtain ⟨same, inside⟩ := remaining_of_position? placed
  omega

/-- What does not lead back has less behind it. -/
theorem remaining_lt (found : s.record? other = some r) (onward : ¬s.Precedes id other) :
    s.remaining id < s.remaining other := by
  obtain ⟨q, placed⟩ := position?_of_record? found
  obtain ⟨same, inside⟩ := remaining_of_position? placed
  cases here : s.position? id with
  | none =>
    rw [remaining, here, Option.elim_none]
    omega
  | some p =>
    have behind : q < p := Nat.lt_of_not_le fun before => onward ⟨p, q, here, placed, before⟩
    rw [(remaining_of_position? here).1]
    omega

theorem remaining_successor (distinct : (s.records.map Record.id).Nodup)
    (behind : s.successor? id = some r) : s.remaining r.id = s.remaining id - 1 := by
  obtain ⟨p, placed, found⟩ := Option.bind_eq_some_iff.1 behind
  have here := position?_of_at? distinct found
  rw [(remaining_of_position? placed).1, (remaining_of_position? here).1]
  omega

theorem not_precedes (distinct : (s.records.map Record.id).Nodup) {before after : List Record}
    (split : s.records = before ++ r :: after) {p : Nat} (placed : s.position? id = some p)
    (behind : before.length < p) : ¬s.Precedes id r.id := by
  rintro ⟨p', q, placed', here, le⟩
  rw [placed] at placed'
  rw [position?_of_split distinct split] at here
  cases placed'
  cases here
  omega

theorem weight_pos (s : Survey) (id : String) : 0 < s.weight id := Nat.pow_pos s.branching_pos

theorem weight_eq (found : s.record? id = some r) :
    s.weight id = s.branching * s.weightBehind id := by
  have pos := remaining_pos found
  rw [weight, weightBehind, ← Nat.pow_succ', Nat.succ_eq_add_one, Nat.sub_add_cancel pos]

theorem weight_le_behind (found : s.record? other = some r) (onward : ¬s.Precedes id other) :
    s.weight id ≤ s.weightBehind other := by
  have less := remaining_lt found onward
  exact Nat.pow_le_pow_right s.branching_pos (by omega)

theorem weightBehind_le (less : s.remaining id ≤ s.remaining other) :
    s.weightBehind id ≤ s.weightBehind other :=
  Nat.pow_le_pow_right s.branching_pos (by omega)

theorem weightBehind_pos (s : Survey) (id : String) : 0 < s.weightBehind id :=
  Nat.pow_pos s.branching_pos

theorem weight_le (s : Survey) (id : String) : s.weight id ≤ s.branching ^ s.size :=
  Nat.pow_le_pow_right s.branching_pos (s.remaining_le id)

theorem weightOf_append (s : Survey) (front back : List String) :
    s.weightOf (front ++ back) = s.weightOf front + s.weightOf back := by
  rw [weightOf, List.map_append, List.sum_append, weightOf, weightOf]

theorem weightOf_cons (s : Survey) (id : String) (ids : List String) :
    s.weightOf (id :: ids) = s.weight id + s.weightOf ids := by
  rw [weightOf, List.map_cons, List.sum_cons, weightOf]

/-- Targets behind a question weigh less than the question does. -/
theorem weightOf_targets (found : s.record? id = some r) {targets : List String}
    (few : targets.length ≤ r.directives.skipTargets.length)
    (onward : ∀ t ∈ targets, ¬s.Precedes t id) :
    s.weightOf targets + s.weightBehind id < s.weight id := by
  have listed : r.directives.skipTargets.length ≤
      (s.records.map (·.directives.skipTargets.length)).sum :=
    List.le_sum_of_mem (List.mem_map_of_mem (mem_of_record? found).1)
  have count : targets.length + 1 < s.branching := by
    rw [branching]
    omega
  have each : s.weightOf targets ≤ targets.length * s.weightBehind id := by
    have most := List.sum_le_card_nsmul (targets.map s.weight) (s.weightBehind id) fun n inside => by
      obtain ⟨t, member, rfl⟩ := List.mem_map.1 inside
      exact weight_le_behind found (onward t member)
    rwa [List.length_map] at most
  calc s.weightOf targets + s.weightBehind id
      ≤ targets.length * s.weightBehind id + s.weightBehind id := Nat.add_le_add_right each _
    _ = (targets.length + 1) * s.weightBehind id := (Nat.succ_mul _ _).symm
    _ < s.branching * s.weightBehind id := Nat.mul_lt_mul_of_pos_right count (s.weightBehind_pos id)
    _ = s.weight id := (weight_eq found).symm

end Survey

namespace Navigator
variable {s : Survey} {env : Surroundings} {n m : Navigator} {id : String}

/-- The visits that a navigator has left. -/
def weight (s : Survey) (n : Navigator) : Nat :=
  n.current?.elim 0 s.weight + s.weightOf n.history.upcoming

theorem arrive_current {k : Navigator} {r : Record} (found : s.record? id = some r) :
    (k.arrive r).current? = some id := by
  rw [current?, arrive, ← (Survey.mem_of_record? found).2]
  dsimp only
  split <;> rfl

namespace Walk
variable {w v taken : Walk} {r : Record}

/-- The visits that a walk may lead to. -/
def weight (s : Survey) (w : Walk) : Nat :=
  w.forced.elim 0 s.weight + w.cursor.elim 0 s.weightBehind +
    s.weightOf w.navigator.history.upcoming

/-- A step that goes on at its candidate once more, or in front of it. -/
def TurnsBack (env : Surroundings) (w : Walk) : Prop :=
  ∃ id taken v, w.candidate? env.survey = some (id, taken) ∧ w.step env = .ok (.onward v) ∧
    ((∃ entry, v.forced = some entry ∧ env.survey.Precedes entry id) ∨
      ∃ cursor, v.cursor = some cursor ∧ cursor ≠ id ∧ env.survey.Precedes cursor id)

/-- A walk with a step that turns back. -/
inductive Returns (env : Surroundings) : Walk → Prop
  | here {w : Walk} (turns : w.TurnsBack env) : Returns env w
  | later {w v : Walk} (step : w.step env = .ok (.onward v)) (rest : Returns env v) : Returns env w

theorem Takes.candidate?_eq (takes : Takes s w id v) : w.candidate? s = some (id, v) := by
  cases takes with
  | forced jump => rw [candidate?, jump]
  | queued free queue =>
    rw [candidate?, free]
    simp only [History.pop?, queue]
  | following free queue behind =>
    rw [candidate?, free]
    simp only [History.pop?, queue, behind, Option.map_some]

/-- A candidate takes its weight from the walk. -/
theorem Takes.weight_le (takes : Takes s w id v) (distinct : (s.records.map Record.id).Nodup) :
    s.weight id + s.weightOf v.navigator.history.upcoming ≤ w.weight s := by
  rw [weight]
  cases takes with
  | forced jump =>
    rw [jump, Option.elim_some]
    dsimp only
    omega
  | queued free queue =>
    rw [queue, Survey.weightOf_cons]
    dsimp only
    omega
  | following free queue behind =>
    obtain ⟨cursor, here, successor⟩ := Option.bind_eq_some_iff.1 behind
    have same : s.weight _ = s.weightBehind cursor :=
      congrArg (s.branching ^ ·) (Survey.remaining_successor distinct successor)
    rw [here, Option.elim_some, same]
    omega

theorem Takes.weight_unknown (takes : Takes s w id v) (missing : s.record? id = none) :
    v.weight s < w.weight s := by
  have pos := s.weight_pos id
  rw [weight, weight]
  cases takes with
  | forced jump =>
    rw [jump, Option.elim_some, Option.elim_none]
    dsimp only
    omega
  | queued free queue =>
    rw [queue, Survey.weightOf_cons]
    dsimp only
    omega
  | following free queue behind =>
    obtain ⟨cursor, -, successor⟩ := Option.bind_eq_some_iff.1 behind
    obtain ⟨position, -, found⟩ := Option.bind_eq_some_iff.1 successor
    simpa using List.find?_eq_none.1 missing _ (List.mem_of_getElem? found)

/-- A walk that goes on behind a known candidate has become lighter. -/
theorem Takes.weight_lt (takes : Takes s w id taken) (distinct : (s.records.map Record.id).Nodup)
    (found : s.record? id = some r)
    (queue : v.navigator.history.upcoming = taken.navigator.history.upcoming)
    (entry : ∀ entry, v.forced = some entry → ¬s.Precedes entry id)
    (cursor : ∀ cursor, v.cursor = some cursor → cursor ≠ id → ¬s.Precedes cursor id) :
    v.weight s < w.weight s := by
  have spent := takes.weight_le distinct
  have jump : v.forced.elim 0 s.weight ≤ s.weightBehind id := by
    cases forced : v.forced with
    | none => exact Nat.zero_le _
    | some entry' => exact Survey.weight_le_behind found (entry entry' forced)
  have behind : v.cursor.elim 0 s.weightBehind ≤ s.weightBehind id := by
    cases here : v.cursor with
    | none => exact Nat.zero_le _
    | some cursor' =>
      by_cases same : cursor' = id
      · rw [same, Option.elim_some]
      · exact Survey.weightBehind_le (Survey.remaining_lt found (cursor cursor' here same)).le
  have whole : 3 * s.weightBehind id ≤ s.weight id := by
    rw [Survey.weight_eq found]
    exact Nat.mul_le_mul_right _ (Nat.le_add_right 3 _)
  have pos := s.weightBehind_pos id
  rw [weight, queue]
  omega

/-- A step that does not turn back leaves a lighter walk. -/
theorem step_weight (distinct : (env.survey.records.map Record.id).Nodup)
    (stepped : w.step env = .ok (.onward v)) (onward : ¬w.TurnsBack env) :
    v.weight env.survey < w.weight env.survey := by
  have lighter {id : String} {taken : Walk} {r : Record} (takes : Takes env.survey w id taken)
      (found : env.survey.record? id = some r)
      (queue : v.navigator.history.upcoming = taken.navigator.history.upcoming) :
      v.weight env.survey < w.weight env.survey := by
    refine takes.weight_lt distinct found queue ?_ ?_
    · exact fun entry forced before =>
        onward ⟨id, taken, v, takes.candidate?_eq, stepped, .inl ⟨entry, forced, before⟩⟩
    · exact fun cursor here other before =>
        onward ⟨id, taken, v, takes.candidate?_eq, stepped, .inr ⟨cursor, here, other, before⟩⟩
  cases step_steps stepped with
  | unknown candidate missing => exact candidate.weight_unknown missing
  | finished candidate found => exact lighter candidate found rfl
  | repeated candidate found _ read =>
    obtain ⟨-, -, rfl⟩ := readBound_eq_ok read
    exact lighter candidate found rfl
  | left candidate found _ read =>
    obtain ⟨-, -, rfl⟩ := readBound_eq_ok read
    exact lighter candidate found rfl
  | beyond candidate found _ _ read =>
    obtain ⟨-, -, rfl⟩ := readBound_eq_ok read
    exact lighter candidate found rfl
  | hidden candidate found _ enters =>
    refine lighter candidate found ?_
    rw [enters.history]

theorem Steps.weight_arrived (step : Steps env w (.arrived id m))
    (distinct : (env.survey.records.map Record.id).Nodup) :
    m.weight env.survey ≤ w.weight env.survey := by
  cases step with
  | @shown _ taken r k candidate found unmarked enters permitted =>
    have spent := candidate.weight_le distinct
    have queue : (k.arrive r).history.upcoming = taken.navigator.history.upcoming := by
      rw [arrive, enters.history]
      rfl
    rwa [Navigator.weight, arrive_current found, queue, Option.elim_some]

/-- A walk that never turns back leaves no more than it could lead to. -/
theorem run_weight (distinct : (env.survey.records.map Record.id).Nodup) {bound steps : Nat}
    (ran : w.run env bound steps = .ok (some (id, m))) (onward : ¬Returns env w) :
    m.weight env.survey ≤ w.weight env.survey := by
  induction steps generalizing w with
  | zero => cases ran
  | succ steps ih =>
    simp only [run, bind, Except.bind] at ran
    split at ran
    · cases ran
    · rename_i outcome stepped
      cases outcome with
      | arrived id n =>
        cases ran
        exact (step_steps stepped).weight_arrived distinct
      | onward v =>
        have lighter := step_weight distinct stepped fun turns => onward (.here turns)
        exact (ih ran fun rest => onward (.later stepped rest)).trans lighter.le
      | stuck => cases ran

end Walk

/-- A navigator that shows a question of its survey, if it shows one. -/
def AtRecord (s : Survey) (n : Navigator) : Prop :=
  ∀ id, n.current? = some id → ∃ r, s.record? id = some r

/-- A move that leads back: a skip target of the question stands no later than it, or the walk to
the next question turns back. -/
def LeadsBack (env : Surroundings) (n : Navigator) : Prop :=
  ∃ id r, n.state = .active id ∧ env.survey.get? id = some r ∧
    ((∃ t ∈ env.skipTargets r, env.survey.Precedes t id) ∨
      Walk.Returns env ⟨{ n with history := n.history.enqueue (env.skipTargets r) }, some id, none⟩)

theorem skipTargets_length (env : Surroundings) (r : Record) :
    (env.skipTargets r).length ≤ r.directives.skipTargets.length := by
  rw [Surroundings.skipTargets]
  split
  · exact Nat.zero_le _
  · rw [List.length_map]
    exact List.length_filter_le _ _

theorem arrive_atRecord {k : Navigator} {r : Record} (found : s.record? id = some r) :
    (k.arrive r).AtRecord s := by
  intro other shown
  rw [arrive_current found] at shown
  exact ⟨r, Option.some.inj shown ▸ found⟩

theorem next_atRecord (moved : n.next env = (.ok (some id), m)) :
    m.current? = some id ∧ m.AtRecord env.survey := by
  obtain ⟨_, _, -, -, arrives⟩ := next_arrives moved
  obtain ⟨passed, r, -, found, -, rfl⟩ := arrives.passes
  exact ⟨arrive_current found, arrive_atRecord found⟩

/-- A move that does not lead back leaves less. -/
theorem next_weight (distinct : (env.survey.records.map Record.id).Nodup)
    (atRecord : n.AtRecord env.survey) (moved : n.next env = (.ok (some id), m))
    (onward : ¬n.LeadsBack env) : m.weight env.survey < n.weight env.survey := by
  obtain ⟨last, r, active, got, walked⟩ := next_walks moved
  obtain ⟨r', found⟩ := atRecord last (by rw [current?, active]; rfl)
  obtain rfl := Option.some.inj (got.symm.trans (Survey.get?_of_record? found))
  have leaves := Survey.weightOf_targets found (skipTargets_length env r)
    fun t member before => onward ⟨last, r, active, got, .inl ⟨t, member, before⟩⟩
  have went := Walk.run_weight distinct walked
    fun returns => onward ⟨last, r, active, got, .inr returns⟩
  have began : Walk.weight env.survey
      ⟨{ n with history := n.history.enqueue (env.skipTargets r) }, some last, none⟩ =
      env.survey.weightBehind last + (env.survey.weightOf (env.skipTargets r) +
        env.survey.weightOf n.history.upcoming) := by
    rw [Walk.weight, History.enqueue, Survey.weightOf_append, Option.elim_none,
      Option.elim_some, Nat.zero_add]
  have stood : n.weight env.survey =
      env.survey.weight last + env.survey.weightOf n.history.upcoming := by
    rw [weight, current?, active]
    rfl
  omega

/-! The first question -/

theorem Walk.Takes.unqueued {w v : Walk} (takes : Takes s w id v)
    (none : w.navigator.history.upcoming = []) : v.navigator.history.upcoming = [] := by
  cases takes with
  | forced => exact none
  | queued _ queue =>
    rw [none] at queue
    cases queue
  | following => exact none

theorem Walk.Arrives.unqueued {w : Walk} (arrives : Arrives env w id m)
    (none : w.navigator.history.upcoming = []) : m.history.upcoming = [] := by
  induction arrives with
  | here step =>
    cases step with
    | shown candidate _ _ enters =>
      rw [← candidate.unqueued none, ← enters.history]
      rfl
  | later step _ ih =>
    refine ih ?_
    cases step with
    | unknown candidate => exact candidate.unqueued none
    | finished candidate => exact candidate.unqueued none
    | repeated candidate _ _ read =>
      obtain ⟨-, -, rfl⟩ := readBound_eq_ok read
      exact candidate.unqueued none
    | left candidate _ _ read =>
      obtain ⟨-, -, rfl⟩ := readBound_eq_ok read
      exact candidate.unqueued none
    | beyond candidate _ _ _ read =>
      obtain ⟨-, -, rfl⟩ := readBound_eq_ok read
      exact candidate.unqueued none
    | hidden candidate _ _ enters =>
      rw [← candidate.unqueued none, ← enters.history]

/-- The first question leaves no more than the survey has places for. -/
theorem start_weight (started : n.start env = (.ok id, m)) :
    m.weight env.survey ≤ env.survey.branching ^ env.survey.size ∧ m.AtRecord env.survey ∧
      ∃ r, m.current? = some id ∧ env.survey.record? id = some r := by
  obtain ⟨first, arrives⟩ := start_arrives started
  have none : m.history.upcoming = [] := arrives.unqueued rfl
  obtain ⟨passed, r, -, found, -, rfl⟩ := arrives.passes
  have here := arrive_current (k := passed) found
  refine ⟨?_, arrive_atRecord found, r, here, found⟩
  rw [weight, none, here, Option.elim_some]
  exact env.survey.weight_le id

/-! Forward surveys -/

/-- In a survey whose jumps lead forward no step turns back. -/
theorem Walk.Steps.onward {w taken v : Walk} (step : Steps env w (.onward v))
    (distinct : (env.survey.records.map Record.id).Nodup) (forward : env.survey.Forward)
    (serves : w.navigator.Serves env.survey) (candidate : Takes env.survey w id taken) :
    (∀ entry, v.forced = some entry → ¬env.survey.Precedes entry id) ∧
      ∀ cursor, v.cursor = some cursor → cursor ≠ id → ¬env.survey.Precedes cursor id := by
  have same {id' : String} {taken' : Walk} (takes : Takes env.survey w id' taken') :
      id' = id ∧ taken' = taken :=
    Prod.mk.inj (Option.some.inj (takes.candidate?_eq.symm.trans candidate.candidate?_eq))
  have unforced {entry : String} (jump : taken.forced = some entry) : False := by
    rw [candidate.unforced] at jump
    cases jump
  have place {r : Record} (found : env.survey.record? id = some r) :
      ∃ before after, env.survey.records = before ++ r :: after ∧ id = r.id := by
    obtain ⟨member, named⟩ := Survey.mem_of_record? found
    obtain ⟨before, after, split⟩ := List.append_of_mem member
    exact ⟨before, after, split, named.symm⟩
  have serves := candidate.passes.serves serves
  cases step with
  | unknown takes missing =>
    obtain ⟨rfl, rfl⟩ := same takes
    refine ⟨fun entry jump => (unforced jump).elim, fun cursor _ _ before => ?_⟩
    obtain ⟨-, q, -, here, -⟩ := before
    obtain ⟨inside, known, -⟩ := List.findIdx?_eq_some_iff_getElem.1 here
    exact List.find?_eq_none.1 missing _ (List.getElem_mem inside) known
  | finished takes found marked =>
    obtain ⟨rfl, rfl⟩ := same takes
    exact ⟨fun entry jump => (unforced jump).elim,
      fun cursor here other => absurd (Option.some.inj here).symm other⟩
  | hidden takes found unmarked enters forbidden =>
    obtain ⟨rfl, rfl⟩ := same takes
    exact ⟨fun entry jump => (unforced jump).elim,
      fun cursor here other => absurd (Option.some.inj here).symm other⟩
  | @repeated _ _ r _ _ _ _ _ takes found marked read admitted =>
    obtain ⟨rfl, rfl⟩ := same takes
    obtain ⟨before, after, split, rfl⟩ := place found
    obtain ⟨listed, -, rfl⟩ := readBound_eq_ok read
    obtain ⟨entry, more, rfl, named, -⟩ := serves.entry_follows forward split marked listed admitted
    refine ⟨fun entry' jump => ?_,
      fun cursor here other => absurd (Option.some.inj here).symm other⟩
    obtain rfl := Option.some.inj jump
    have split' : env.survey.records = (before ++ [r]) ++ entry :: more := by simpa using split
    have placed := Survey.position?_of_split distinct split'
    rw [named] at placed
    exact Survey.not_precedes distinct split placed (by simp)
  | left takes found marked read refused =>
    obtain ⟨rfl, rfl⟩ := same takes
    obtain ⟨before, after, split, rfl⟩ := place found
    obtain ⟨-, -, rfl⟩ := readBound_eq_ok read
    refine ⟨fun entry jump => (unforced jump).elim, fun cursor here _ => ?_⟩
    obtain ⟨position, placed, behind⟩ := Serves.endMarker?_behind (serves.withBound _ _) forward
      distinct split (.inr ⟨_, marked⟩) here
    exact Survey.not_precedes distinct split placed behind
  | beyond takes found unmarked annotated read refused =>
    obtain ⟨rfl, rfl⟩ := same takes
    obtain ⟨before, after, split, rfl⟩ := place found
    obtain ⟨-, -, rfl⟩ := readBound_eq_ok read
    refine ⟨fun entry jump => (unforced jump).elim, fun cursor here _ => ?_⟩
    obtain ⟨position, placed, behind⟩ := Serves.endMarker?_behind (serves.withBound _ _) forward
      distinct split (.inl ⟨_, annotated, rfl⟩) here
    exact Survey.not_precedes distinct split placed behind

theorem Walk.not_returns {w : Walk} (distinct : (env.survey.records.map Record.id).Nodup)
    (forward : env.survey.Forward) (serves : w.navigator.Serves env.survey) : ¬Returns env w := by
  intro returns
  induction returns with
  | later step _ ih => exact ih ((step_steps step).passes.serves serves)
  | here turns =>
    obtain ⟨id, taken, v, candidate, stepped, back⟩ := turns
    obtain ⟨entry, cursor⟩ :=
      (step_steps stepped).onward distinct forward serves (candidate?_takes candidate)
    rcases back with ⟨entry', jump, before⟩ | ⟨cursor', here, other, before⟩
    · exact entry entry' jump before
    · exact cursor cursor' here other before

/-- In a survey whose skip targets and jumps lead forward no move leads back. -/
theorem not_leadsBack (distinct : (env.survey.records.map Record.id).Nodup)
    (forward : env.survey.Forward) (skips : env.survey.SkipsForward)
    (serves : n.Serves env.survey) (atRecord : n.AtRecord env.survey) : ¬n.LeadsBack env := by
  rintro ⟨id, r, active, got, ⟨t, selected, before⟩ | returns⟩
  · obtain ⟨shown, found⟩ := atRecord id (by rw [current?, active]; rfl)
    obtain rfl := Option.some.inj (got.symm.trans (Survey.get?_of_record? found))
    obtain ⟨member, rfl⟩ := Survey.mem_of_record? found
    rw [Surroundings.skipTargets] at selected
    split at selected
    · cases selected
    · obtain ⟨skip, listed, rfl⟩ := List.mem_map.1 selected
      exact skips r member skip (List.mem_of_mem_filter listed) before
  · exact Walk.not_returns distinct forward serves returns

end Navigator

end Questionnaire
