import Questionnaire.Proofs.Navigation.Layout
import Questionnaire.Proofs.Navigation.Walk

/-! Moving on through a survey with loops is one scan over the records behind the active
question. The scan knows nothing of jumps: it passes over markers, over what its loop does
not admit and over what a condition hides, and fails where a bound that has to be read is
no bound. -/
namespace Questionnaire

namespace Place

/-- The fault of a bound that is read here: at the entry of an iteration and at its marker. -/
def refusal? (env : Surroundings) (p : Place) : Option SurveyError :=
  match p.iteration with
  | none => none
  | some (loop, _) =>
    if p.record.directives.loopEntry.isSome || p.record.marker?.isSome then
      match loop.readBound env.source with
      | .error e => some e
      | .ok _ => none
    else none

def isBeyond (env : Surroundings) (p : Place) : Bool :=
  match p.iteration with
  | none => false
  | some (loop, i) =>
    match loop.readBound env.source with
    | .error _ => false
    | .ok bound => bound < i

def isShown (env : Surroundings) (p : Place) : Bool :=
  p.record.marker?.isNone && !p.isBeyond env && env.permits p.record.directives.displayIf

end Place

/-- The first record to show, unless a bound is refused in front of it. -/
def scan (env : Surroundings) : List Place → Except SurveyError (Option Record)
  | [] => .ok none
  | p :: rest =>
    match p.refusal? env with
    | some e => .error e
    | none => if p.isShown env then .ok (some p.record) else scan env rest

namespace Scan
variable {env : Surroundings}

theorem scan_accepted {p : Place} (accepted : p.refusal? env = none) (rest : List Place) :
    scan env (p :: rest) = if p.isShown env then .ok (some p.record) else scan env rest := by
  rw [scan, accepted]

theorem scan_refused {p : Place} {e : SurveyError} (refused : p.refusal? env = some e)
    (rest : List Place) : scan env (p :: rest) = .error e := by
  rw [scan, refused]

theorem scan_hidden {p : Place} (quiet : p.refusal? env = none ∧ p.isShown env = false)
    (rest : List Place) : scan env (p :: rest) = scan env rest := by
  rw [scan_accepted quiet.1, quiet.2]
  rfl

theorem skip {passed : List Place} (rest : List Place)
    (quiet : ∀ p ∈ passed, p.refusal? env = none ∧ p.isShown env = false) :
    scan env (passed ++ rest) = scan env rest := by
  induction passed with
  | nil => rfl
  | cons p passed ih =>
    rw [List.cons_append, scan_hidden (quiet p List.mem_cons_self)]
    exact ih fun q member => quiet q (List.mem_cons_of_mem _ member)

theorem quiet_of_beyond {p : Place} {loop : Loop} {i bound : Nat}
    (inside : p.iteration = some (loop, i)) (read : loop.readBound env.source = .ok bound)
    (beyond : bound < i) : p.refusal? env = none ∧ p.isShown env = false := by
  simp [Place.refusal?, Place.isShown, Place.isBeyond, inside, read, beyond]

theorem quiet_of_marker {p : Place} {m : LoopMarker} (outside : p.iteration = none)
    (marked : p.record.marker? = some m) : p.refusal? env = none ∧ p.isShown env = false := by
  simp [Place.refusal?, Place.isShown, outside, marked]

theorem quiet_of_continuation {p : Place} {loop : Loop} {m : LoopMarker} {i bound : Nat}
    (inside : p.iteration = some (loop, i)) (marked : p.record.marker? = some m)
    (read : loop.readBound env.source = .ok bound) :
    p.refusal? env = none ∧ p.isShown env = false := by
  simp [Place.refusal?, Place.isShown, inside, marked, read]

/-- How a walk ends, given what a scan finds. -/
def Ends : Except SurveyError (Option Record) → Except SurveyError (Option (String × Navigator)) →
    Prop
  | .error e, outcome => outcome = .error e
  | .ok none, outcome => outcome = .ok none
  | .ok (some r), outcome => ∃ n : Navigator, outcome = .ok (some (r.id, n)) ∧
      n.state = r.shownState

/-- Records and loops can be told apart, and the loops are those of the records. -/
structure Ground (s : Survey) : Prop where
  distinct : (s.records.map Record.id).Nodup
  linked : s.Linked
  unique : ∀ l ∈ s.loops, ∀ m ∈ s.loops, l.index = m.index → l = m

/-- A walk that is about to look at the first of `rest`, with nothing queued. -/
structure Stands (env : Surroundings) (w : Navigator.Walk) (rest : List Place) : Prop where
  serves : w.navigator.Serves env.survey
  unqueued : w.navigator.history.upcoming = []
  behind : ∃ before r, env.survey.records = before ++ r :: rest.map Place.record ∧
    w.cursor = some r.id
  forced : ∀ id, w.forced = some id → ∃ p more, rest = p :: more ∧ p.record.id = id

/-- From here on every walk with enough steps ends as the scan says. -/
def Sound (env : Surroundings) (limit : Nat) (rest : List Place) : Prop :=
  ∀ w, Stands env w rest → ∀ steps, rest.length < steps →
    Ends (scan env rest) (w.run env limit steps)

/-- The same holds behind every place whose iteration the bound reaches. -/
def Covers (env : Surroundings) (limit : Nat) (places : List Place) : Prop :=
  ∀ before p after, places = before ++ p :: after → p.isBeyond env = false →
    Sound env limit after

variable {limit : Nat} {w : Navigator.Walk} {p : Place} {rest : List Place}

theorem covers_cons (first : p.isBeyond env = false → Sound env limit rest)
    (further : Covers env limit rest) : Covers env limit (p :: rest) := by
  intro before q after split reached
  cases before with
  | nil =>
    obtain ⟨rfl, rfl⟩ := List.cons.inj split
    exact first reached
  | cons r before => exact further before q after (List.cons.inj split).2 reached

theorem Stands.pass {more : List Place} {q : Place} {next : Navigator.Walk}
    (passed : List Place)
    (stands : Stands env w (passed ++ q :: more)) (serves : next.navigator.Serves env.survey)
    (unqueued : next.navigator.history.upcoming = []) (cursor : next.cursor = some q.record.id)
    (forced : ∀ id, next.forced = some id → ∃ p rest, more = p :: rest ∧ p.record.id = id) :
    Stands env next more := by
  obtain ⟨before, r, records, -⟩ := stands.behind
  refine ⟨serves, unqueued, ⟨before ++ r :: passed.map Place.record, q.record, ?_, cursor⟩, forced⟩
  simpa using records

section
variable (ground : Ground env.survey)
include ground

theorem Stands.candidate? (stands : Stands env w (p :: rest)) :
    w.candidate? env.survey = some (p.record.id, { w with forced := none }) := by
  obtain ⟨before, r, records, cursor⟩ := stands.behind
  cases forced : w.forced with
  | some id =>
    obtain ⟨q, more, same, named⟩ := stands.forced id forced
    obtain ⟨rfl, rfl⟩ := List.cons.inj same
    simp [Navigator.Walk.candidate?, forced, named]
  | none =>
    have next := Survey.successor?_of_split ground.distinct records
    have unforced : { w with forced := none } = w := by rw [← forced]
    rw [unforced]
    simp [Navigator.Walk.candidate?, forced, History.pop?, stands.unqueued, cursor, next]

theorem Stands.record? (stands : Stands env w (p :: rest)) :
    env.survey.record? p.record.id = some p.record := by
  obtain ⟨before, r, records, -⟩ := stands.behind
  exact Survey.record?_of_mem ground.distinct (by rw [records]; simp)

theorem Stands.step_question (stands : Stands env w (p :: rest))
    (unmarked : p.record.marker? = none) :
    w.step env = Navigator.Walk.visitQuestion env { w with forced := none } p.record := by
  rw [Navigator.Walk.step, stands.candidate? ground]
  simp only [stands.record? ground, unmarked]

theorem Stands.step_continuation {index i : Nat} (stands : Stands env w (p :: rest))
    (marked : p.record.marker? = some (.continuation index i)) :
    w.step env = (Navigator.Walk.passContinuation env { w with forced := none } p.record.id
      index i).map .onward := by
  rw [Navigator.Walk.step, stands.candidate? ground]
  simp only [stands.record? ground, marked]

theorem Stands.step_endOfLoop {index : Nat} (stands : Stands env w (p :: rest))
    (marked : p.record.marker? = some (.endOfLoop index)) :
    w.step env = .ok (.onward { w with forced := none, cursor := some p.record.id }) := by
  rw [Navigator.Walk.step, stands.candidate? ground]
  simp only [stands.record? ground, marked]

end

theorem run_onward {next : Navigator.Walk} {steps : Nat}
    (onward : w.step env = .ok (.onward next)) :
    w.run env limit (steps + 1) = next.run env limit steps := by
  rw [Navigator.Walk.run, onward]
  rfl

theorem run_arrived {id : String} {n : Navigator} {steps : Nat}
    (arrived : w.step env = .ok (.arrived id n)) :
    w.run env limit (steps + 1) = .ok (some (id, n)) := by
  rw [Navigator.Walk.run, arrived]
  rfl

theorem run_error {e : SurveyError} {steps : Nat} (failed : w.step env = .error e) :
    w.run env limit (steps + 1) = .error e := by
  rw [Navigator.Walk.run, failed]
  rfl

/-- A walk has at least one step left for the place it looks at. -/
theorem sound_cons (moves : ∀ w, Stands env w (p :: rest) → ∀ steps, rest.length < steps →
    Ends (scan env (p :: rest)) (w.run env limit (steps + 1))) :
    Sound env limit (p :: rest) := by
  intro w stands steps enough
  cases steps with
  | zero => contradiction
  | succ steps => exact moves w stands steps (by simpa using enough)

/-- Past quiet places the walk goes on behind the marker that closes them. -/
theorem Sound.behind {more : List Place} {q : Place} {next : Navigator.Walk} {steps : Nat}
    (passed : List Place) (sound : Sound env limit more) (stands : Stands env w (passed ++ q :: more))
    (quiet : ∀ p ∈ passed ++ [q], p.refusal? env = none ∧ p.isShown env = false)
    (serves : next.navigator.Serves env.survey)
    (unqueued : next.navigator.history.upcoming = []) (cursor : next.cursor = some q.record.id)
    (unforced : next.forced = none) (enough : (passed ++ q :: more).length ≤ steps) :
    Ends (scan env (passed ++ q :: more)) (next.run env limit steps) := by
  have behind : Stands env next more :=
    stands.pass passed serves unqueued cursor fun id forced => by
      rw [unforced] at forced
      contradiction
  have skipped : scan env (passed ++ q :: more) = scan env more := by
    rw [← List.singleton_append, ← List.append_assoc]
    exact skip more quiet
  rw [skipped]
  apply sound next behind steps
  simp only [List.length_append, List.length_cons] at enough
  omega

/-- A question that is reached is shown, unless its condition hides it. -/
theorem ends_offer {offered : Navigator.Walk} {steps : Nat} (stands : Stands env w (p :: rest))
    (step : w.step env = .ok (offered.offer env p.record))
    (serves : offered.navigator.Serves env.survey)
    (unqueued : offered.navigator.history.upcoming = []) (unforced : offered.forced = none)
    (unmarked : p.record.marker? = none) (accepted : p.refusal? env = none)
    (reached : p.isBeyond env = false) (sound : Sound env limit rest)
    (enough : rest.length < steps) :
    Ends (scan env (p :: rest)) (w.run env limit (steps + 1)) := by
  have shown : p.isShown env = env.permits p.record.directives.displayIf := by
    simp [Place.isShown, unmarked, reached]
  rw [scan_accepted accepted, shown]
  cases permitted : env.permits p.record.directives.displayIf with
  | true =>
    simp only [Navigator.Walk.offer, permitted, if_true] at step
    exact ⟨offered.navigator.arrive p.record, run_arrived step, rfl⟩
  | false =>
    simp only [Navigator.Walk.offer, permitted, Bool.false_eq_true, if_false] at step
    have behind : Stands env { offered with cursor := some p.record.id } rest :=
      Stands.pass [] stands serves unqueued rfl fun id forced => by
        rw [unforced] at forced
        contradiction
    rw [run_onward step]
    exact sound _ behind steps enough

section
variable (ground : Ground env.survey)
include ground

theorem sound_nil : Sound env limit [] := by
  intro w stands steps enough
  obtain ⟨before, r, records, cursor⟩ := stands.behind
  have unforced : w.forced = none := by
    cases forced : w.forced with
    | none => rfl
    | some id =>
      obtain ⟨_, _, bad, -⟩ := stands.forced id forced
      contradiction
  have last := Survey.successor?_of_split ground.distinct records
  have stuck : w.step env = .ok .stuck := by
    simp [Navigator.Walk.step, Navigator.Walk.candidate?, unforced, History.pop?,
      stands.unqueued, cursor, last]
  obtain ⟨steps, rfl⟩ := Nat.exists_eq_succ_of_ne_zero (Nat.ne_of_gt enough)
  change w.run env limit (steps + 1) = .ok none
  rw [Navigator.Walk.run, stuck]
  rfl

theorem sound_question (plain : p.record.IsPlain) (reached : p.isBeyond env = false)
    (sound : Sound env limit rest) : Sound env limit (p :: rest) := by
  refine sound_cons fun w stands steps enough => ?_
  have accepted : p.refusal? env = none := by
    simp only [Place.refusal?, plain.bare, plain.unmarked]
    split <;> rfl
  have step := stands.step_question ground plain.unmarked
  simp only [Navigator.Walk.visitQuestion, plain.bare] at step
  exact ends_offer stands step stands.serves stands.unqueued rfl plain.unmarked accepted reached
    sound enough

theorem sound_finish {index : Nat} (outside : p.iteration = none)
    (marked : p.record.marker? = some (.endOfLoop index)) (sound : Sound env limit rest) :
    Sound env limit (p :: rest) := by
  refine sound_cons fun w stands steps enough => ?_
  rw [run_onward (stands.step_endOfLoop ground marked)]
  refine Sound.behind [] sound stands ?_ stands.serves stands.unqueued rfl rfl enough
  intro q member
  obtain rfl := List.mem_singleton.1 member
  exact quiet_of_marker outside marked

end

/-- The rest of a loop from the iteration `first` on, and its end marker. -/
structure Closed (loop : Loop) (first : Nat) (tail : List Place) (finish : Place) : Prop where
  inside : ∀ p ∈ tail, ∃ i, first ≤ i ∧ p.iteration = some (loop, i)
  outside : finish.iteration = none
  marked : finish.record.marker? = some (.endOfLoop loop.index)
  finish_id : finish.record.id = LoopMarker.id (.endOfLoop loop.index)

section
variable {loop : Loop} {first i bound : Nat} {tail more : List Place} {finish : Place}

/-- Nothing of a loop is seen from the first iteration that its bound does not reach. -/
theorem Closed.quiet (closed : Closed loop first tail finish)
    (read : loop.readBound env.source = .ok bound) (beyond : bound < first) :
    ∀ p ∈ tail ++ [finish], p.refusal? env = none ∧ p.isShown env = false := by
  intro p member
  rcases List.mem_append.1 member with inside | last
  · obtain ⟨i, from_first, inside⟩ := closed.inside p inside
    exact quiet_of_beyond inside read (by omega)
  · obtain rfl := List.mem_singleton.1 last
    exact quiet_of_marker closed.outside closed.marked

variable (ground : Ground env.survey) (described : loop ∈ env.survey.loops)
include ground described

theorem Closed.endMarker? (closed : Closed loop first tail finish) {n : Navigator}
    (serves : n.Serves env.survey) :
    n.endMarker? env.survey loop.index = some finish.record.id := by
  rw [serves.endMarker? ground.unique described, ground.linked.at?_endPosition described,
    closed.finish_id]

/-- The entry of an iteration is a question if the bound reaches it; else the walk jumps
behind the loop. -/
theorem sound_entry (inside : p.iteration = some (loop, i)) (unmarked : p.record.marker? = none)
    {e : LoopEntry} (annotated : p.record.directives.loopEntry = some e)
    (index : e.loopIndex = loop.index) (iteration : e.iteration = i)
    (closed : Closed loop i tail finish)
    (next : p.isBeyond env = false → Sound env limit (tail ++ finish :: more))
    (behind : Sound env limit more) : Sound env limit (p :: (tail ++ finish :: more)) := by
  refine sound_cons fun w stands steps enough => ?_
  obtain ⟨held, same, reads⟩ := stands.serves.readBound ground.unique described env.source
  have step := stands.step_question ground unmarked
  simp only [Navigator.Walk.visitQuestion, annotated, index, iteration, reads] at step
  cases read : loop.readBound env.source with
  | error e =>
    have refused : p.refusal? env = some e := by
      simp [Place.refusal?, inside, annotated, read]
    rw [read] at step
    rw [scan_refused refused, run_error step]
    rfl
  | ok bound =>
    have admits : held.admits i bound = loop.admits i bound :=
      Loop.eq_of_unread (·.admits i bound) (fun _ => rfl) same
    simp only [read, Except.map, bind, Except.bind, admits] at step
    have serves := stands.serves.withBound loop.index bound
    by_cases reached : i ≤ bound
    · have below := Loop.readBound_le read
      have accepted : p.refusal? env = none := by simp [Place.refusal?, inside, read]
      have notBeyond : p.isBeyond env = false := by
        simpa [Place.isBeyond, inside, read] using reached
      have admitted : loop.admits i bound = true := by
        simpa [Loop.admits, reached] using reached.trans below
      rw [admitted, if_pos rfl] at step
      exact ends_offer stands step serves stands.unqueued rfl unmarked accepted notBeyond
        (next notBeyond) enough
    · have refused : loop.admits i bound = false := by simp [Loop.admits, reached]
      rw [refused] at step
      have cursor := closed.endMarker? ground described serves
      rw [run_onward step]
      refine Sound.behind (p :: tail) behind stands ?_ serves stands.unqueued cursor rfl
        enough
      intro q member
      rcases List.mem_cons.1 member with rfl | member
      · exact quiet_of_beyond inside read (by omega)
      · exact closed.quiet read (by omega) q member

/-- Behind an iteration the walk goes on with the next one, if the bound reaches it, and
else behind the loop. -/
theorem sound_continuation (inside : p.iteration = some (loop, i))
    (marked : p.record.marker? = some (.continuation loop.index i))
    (last : i ≤ loop.maximum) (counted : loop.maximum < Text.largestUInt32)
    (closed : Closed loop (i + 1) tail finish)
    (follows : i < loop.maximum → ∃ q rest, tail ++ finish :: more = q :: rest ∧
      q.record.id = loop.iterationEntry (i + 1))
    (next : Sound env limit (tail ++ finish :: more)) (behind : Sound env limit more) :
    Sound env limit (p :: (tail ++ finish :: more)) := by
  refine sound_cons fun w stands steps enough => ?_
  have successor : Navigator.nextIteration i = i + 1 := Nat.mod_eq_of_lt (by omega)
  have step := stands.step_continuation ground marked
  have serves : ({ w.navigator with
      history := w.navigator.history.visit p.record.id } : Navigator).Serves env.survey :=
    stands.serves
  obtain ⟨held, same, reads⟩ := serves.readBound ground.unique described env.source
  simp only [Navigator.Walk.passContinuation, successor, reads] at step
  cases read : loop.readBound env.source with
  | error e =>
    have refused : p.refusal? env = some e := by
      simp [Place.refusal?, inside, marked, read]
    rw [read] at step
    rw [scan_refused refused, run_error step]
    rfl
  | ok bound =>
    have admits : held.admits (i + 1) bound = loop.admits (i + 1) bound :=
      Loop.eq_of_unread (·.admits (i + 1) bound) (fun _ => rfl) same
    have entry : held.iterationEntry (i + 1) = loop.iterationEntry (i + 1) :=
      Loop.eq_of_unread (·.iterationEntry (i + 1)) (fun _ => rfl) same
    have quiet := quiet_of_continuation inside marked read
    simp only [read, Except.map, bind, Except.bind, admits, entry] at step
    have serves := serves.withBound loop.index bound
    by_cases reached : i + 1 ≤ bound
    · have below := Loop.readBound_le read
      have admitted : loop.admits (i + 1) bound = true := by
        simpa [Loop.admits, reached] using reached.trans below
      obtain ⟨q, rest, following, named⟩ := follows (by omega)
      rw [admitted, if_pos rfl] at step
      rw [run_onward step, scan_hidden quiet]
      refine next _ ?_ steps enough
      refine Stands.pass [] stands serves stands.unqueued rfl fun id forced => ?_
      exact ⟨q, rest, following, named.trans (Option.some.inj forced)⟩
    · have refused : loop.admits (i + 1) bound = false := by simp [Loop.admits, reached]
      rw [refused] at step
      have cursor := closed.endMarker? ground described serves
      rw [run_onward step]
      refine Sound.behind (p :: tail) behind stands ?_ serves stands.unqueued cursor rfl
        enough
      intro q member
      rcases List.mem_cons.1 member with rfl | member
      · exact quiet
      · exact closed.quiet read (by omega) q member

end

end Scan

end Questionnaire
