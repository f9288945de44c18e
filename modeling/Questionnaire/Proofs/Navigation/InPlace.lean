import Questionnaire.Proofs.Navigation.Course

/-! Moves that alter one navigator in place. A walk takes from the queue, visits markers and keeps
the bounds that it reads before it is known whether it arrives, and what it has altered stays
altered when it fails. A move puts the navigator back as it was, unless a question is shown. -/
namespace Questionnaire.Navigator

/-- A computation on a navigator, which it leaves as it is then, also when it fails. -/
abbrev Altering (α : Type) := EStateM SurveyError Navigator α

namespace InPlace

def readBound (source : Source) (index : Nat) : Altering (Loop × Nat) := do
  match (← get).loop? index with
  | none => throw (.navigation (.noDescriptor index))
  | some loop =>
    match loop.readBound source with
    | .error e => throw e
    | .ok bound =>
      modify (·.withBound index bound)
      return (loop, bound)

def candidate? (survey : Survey) (cursor forced : Option String) : Altering (Option String) := do
  match forced with
  | some id => return some id
  | none =>
    match (← get).history.pop? with
    | some (id, history) =>
      modify fun n => { n with history }
      return some id
    | none => return (cursor.bind survey.successor?).map Record.id

/-- What one candidate comes to. -/
inductive Turn where
  | arrived (id : String)
  | onward (cursor forced : Option String)
  | stuck

def passContinuation (env : Surroundings) (marker : String) (index iteration : Nat) :
    Altering Turn := do
  modify (·.passing marker)
  let (loop, bound) ← readBound env.source index
  let next := nextIteration iteration
  if loop.admits next bound then return .onward (some marker) (some (loop.iterationEntry next))
  else return .onward ((← get).endMarker? env.survey index) none

def offer (env : Surroundings) (r : Record) : Altering Turn := do
  if env.permits r.directives.displayIf then
    modify (·.arrive r)
    return .arrived r.id
  else return .onward (some r.id) none

def visitQuestion (env : Surroundings) (r : Record) : Altering Turn := do
  match r.directives.loopEntry with
  | none => offer env r
  | some entry =>
    let (loop, bound) ← readBound env.source entry.loopIndex
    if loop.admits entry.iteration bound then offer env r
    else return .onward ((← get).endMarker? env.survey entry.loopIndex) none

def turn (env : Surroundings) (cursor forced : Option String) : Altering Turn := do
  match ← candidate? env.survey cursor forced with
  | none => return .stuck
  | some id =>
    match env.survey.record? id with
    | none => return .onward cursor none
    | some r =>
      match r.marker? with
      | some (.continuation index iteration) => passContinuation env id index iteration
      | some (.endOfLoop _) => return .onward (some id) none
      | none => visitQuestion env r

def walk (env : Surroundings) (limit : Nat) :
    Nat → Option String → Option String → Altering (Option String)
  | 0, _, _ => throw (.limit (.navigationSteps limit))
  | steps + 1, cursor, forced => do
    match ← turn env cursor forced with
    | .arrived id => return some id
    | .onward cursor forced => walk env limit steps cursor forced
    | .stuck => return none

/-- Walks from a navigator that is made ready. It is put back as it was before, unless a
question is shown. -/
def seek (env : Surroundings) (ready : Navigator → Navigator) (cursor forced : Option String) :
    Altering (Option String) := fun before =>
  let walked : Altering (Option String) := do
    modify ready
    walk env (← get).maxSteps (← get).maxSteps cursor forced
  match walked.run before with
  | .ok (some id) after => .ok (some id) after
  | .ok none _ => .ok none before
  | .error e _ => .error e before

def start (env : Surroundings) : Altering String := do
  match env.survey.records.head? with
  | none => throw (.emptySurvey env.survey.name)
  | some first =>
    match ← seek env (fun n => { n with history := {}, state := .idle }) none (some first.id) with
    | some id => return id
    | none => throw (.navigation .nothingVisible)

def resume (history : History) (survey : Survey) : Altering String := do
  match history.current? with
  | none => throw (.state .emptyHistory)
  | some id =>
    match survey.get? id with
    | none => throw (.state (.unknownLast id))
    | some r =>
      modify fun n => { n with state := if r.isTerminal then .terminal id else .active id }
      modify fun n => { n with history }
      return id

def next (env : Surroundings) : Altering (Option String) := do
  match (← get).state with
  | .idle | .terminal _ => return none
  | .active id =>
    match env.survey.get? id with
    | none => throw (.navigation (.unknownActive id))
    | some r =>
      seek env (fun n => { n with history := n.history.enqueue (env.skipTargets r) }) (some id) none

def back : Altering (Option String) := do
  match (← get).state with
  | .idle => return none
  | .active _ | .terminal _ =>
    match (← get).history.back? with
    | none => return none
    | some (id, history) =>
      modify fun n => { n with history }
      modify fun n => { n with state := .active id }
      return some id

/-- What one candidate comes to in place, as against the step that keeps the navigator apart. -/
inductive Turns : Except SurveyError Walk.Outcome → EStateM.Result SurveyError Navigator Turn → Prop
  | arrived (id : String) (m : Navigator) : Turns (.ok (.arrived id m)) (.ok (.arrived id) m)
  | onward (m : Navigator) (cursor forced : Option String) :
      Turns (.ok (.onward ⟨m, cursor, forced⟩)) (.ok (.onward cursor forced) m)
  | stuck (left : Navigator) : Turns (.ok .stuck) (.ok .stuck left)
  | failed (e : SurveyError) (left : Navigator) : Turns (.error e) (.error e left)

/-- What a walk comes to in place, as against the walk that keeps the navigator apart. -/
inductive Follows : Except SurveyError (Option (String × Navigator)) →
    EStateM.Result SurveyError Navigator (Option String) → Prop
  | arrived (id : String) (m : Navigator) : Follows (.ok (some (id, m))) (.ok (some id) m)
  | stuck (left : Navigator) : Follows (.ok none) (.ok none left)
  | failed (e : SurveyError) (left : Navigator) : Follows (.error e) (.error e left)

theorem readBound_run (n : Navigator) (source : Source) (index : Nat) :
    (readBound source index).run n =
      match n.readBound source index with
      | .ok (loop, bound, m) => .ok (loop, bound) m
      | .error e => .error e n := by
  unfold readBound Navigator.readBound
  simp only [EStateM.run_bind, EStateM.run_get]
  cases n.loop? index with
  | none => rfl
  | some loop =>
    simp only
    cases loop.readBound source <;> rfl

theorem candidate?_run (s : Survey) (n : Navigator) (cursor forced : Option String) :
    (Walk.candidate? ⟨n, cursor, forced⟩ s = none ∧
      (candidate? s cursor forced).run n = .ok none n) ∨
    ∃ id m, Walk.candidate? ⟨n, cursor, forced⟩ s = some (id, ⟨m, cursor, none⟩) ∧
      (candidate? s cursor forced).run n = .ok (some id) m := by
  cases forced with
  | some id => exact .inr ⟨id, n, rfl, rfl⟩
  | none =>
    simp only [candidate?, Walk.candidate?, EStateM.run_bind, EStateM.run_get]
    cases popped : n.history.pop? with
    | some next => exact .inr ⟨next.1, { n with history := next.2 }, rfl, rfl⟩
    | none =>
      cases behind : cursor.bind s.successor? with
      | none => exact .inl ⟨rfl, rfl⟩
      | some r => exact .inr ⟨r.id, n, rfl, rfl⟩

section
variable (env : Surroundings) (n : Navigator) (cursor : Option String)

theorem passContinuation_turns (marker : String) (index iteration : Nat) :
    Turns ((Walk.passContinuation env ⟨n, cursor, none⟩ marker index iteration).map .onward)
      ((passContinuation env marker index iteration).run n) := by
  simp only [passContinuation, EStateM.run_bind, EStateM.run_modify, readBound_run]
  change Turns (Except.map _ ((n.passing marker).readBound env.source index >>= _)) _
  cases (n.passing marker).readBound env.source index with
  | error e => exact .failed e _
  | ok read =>
    obtain ⟨loop, bound, m⟩ := read
    simp only [bind, Except.bind]
    cases loop.admits (nextIteration iteration) bound with
    | true => exact .onward m _ _
    | false => exact .onward m _ none

theorem offer_turns (r : Record) :
    Turns (.ok (Walk.offer env ⟨n, cursor, none⟩ r)) ((offer env r).run n) := by
  unfold offer Walk.offer
  cases env.permits r.directives.displayIf with
  | true => exact .arrived r.id _
  | false => exact .onward n _ none

theorem visitQuestion_turns (r : Record) :
    Turns (Walk.visitQuestion env ⟨n, cursor, none⟩ r) ((visitQuestion env r).run n) := by
  unfold visitQuestion Walk.visitQuestion
  cases r.directives.loopEntry with
  | none => exact offer_turns env n cursor r
  | some entry =>
    simp only [EStateM.run_bind, readBound_run]
    cases n.readBound env.source entry.loopIndex with
    | error e => exact .failed e n
    | ok read =>
      obtain ⟨loop, bound, m⟩ := read
      simp only [bind, Except.bind]
      cases loop.admits entry.iteration bound with
      | true => exact offer_turns env m cursor r
      | false => exact .onward m _ none

theorem turn_turns (forced : Option String) :
    Turns (Walk.step env ⟨n, cursor, forced⟩) ((turn env cursor forced).run n) := by
  rw [turn, EStateM.run_bind, Walk.step]
  obtain ⟨nowhere, taken⟩ | ⟨id, m, candidate, taken⟩ := candidate?_run env.survey n cursor forced
  · rw [nowhere, taken]
    exact .stuck n
  · simp only [candidate, taken]
    cases env.survey.record? id with
    | none => exact .onward m cursor none
    | some r =>
      cases marked : r.marker? with
      | none =>
        simp only [marked]
        exact visitQuestion_turns env m cursor r
      | some marker =>
        cases marker with
        | endOfLoop index =>
          simp only [marked]
          exact .onward m (some id) none
        | continuation index iteration =>
          simp only [marked]
          exact passContinuation_turns env m cursor id index iteration

end

theorem walk_follows (env : Surroundings) (limit steps : Nat) (n : Navigator)
    (cursor forced : Option String) :
    Follows (Walk.run env limit ⟨n, cursor, forced⟩ steps)
      ((walk env limit steps cursor forced).run n) := by
  -- A turn that goes on leaves the same navigator, cursor and jump on both sides.
  induction steps generalizing n cursor forced with
  | zero => exact .failed _ n
  | succ steps ih =>
    have turns := turn_turns env n cursor forced
    rw [walk, EStateM.run_bind, Walk.run]
    generalize Walk.step .. = apart at turns ⊢
    generalize (turn env cursor forced).run n = inPlace at turns ⊢
    cases turns with
    | arrived id m => exact .arrived id m
    | onward m cursor forced => exact ih m cursor forced
    | stuck left => exact .stuck left
    | failed e left => exact .failed e left

theorem seek_run (env : Surroundings) (ready : Navigator → Navigator)
    (cursor forced : Option String) (n : Navigator) :
    (seek env ready cursor forced).run n =
      match (ready n).walk env cursor forced with
      | .ok (some (id, m)) => .ok (some id) m
      | .ok none => .ok none n
      | .error e => .error e n := by
  have follows := walk_follows env (ready n).maxSteps (ready n).maxSteps (ready n) cursor forced
  change (match (walk env (ready n).maxSteps (ready n).maxSteps cursor forced).run (ready n) with
    | .ok (some id) m => .ok (some id) m
    | .ok none _ => .ok none n
    | .error e _ => .error e n : EStateM.Result _ _ _) = _
  rw [Navigator.walk]
  generalize Walk.run .. = apart at follows ⊢
  generalize EStateM.run _ _ = inPlace at follows ⊢
  cases follows <;> rfl

/-- A move that hands its navigator back, as a result in place. -/
def finished {α : Type} : Except SurveyError α × Navigator →
    EStateM.Result SurveyError Navigator α
  | (.ok a, n) => .ok a n
  | (.error e, n) => .error e n

variable (env : Surroundings) (n : Navigator)

theorem start_run : (start env).run n = finished (n.start env) := by
  unfold start Navigator.start
  cases env.survey.records.head? with
  | none => rfl
  | some first =>
    simp only [EStateM.run_bind, seek_run]
    generalize Navigator.walk .. = walked
    rcases walked with e | _ | ⟨id, m⟩ <;> rfl

theorem resume_run (history : History) (s : Survey) :
    (resume history s).run n = finished (n.resume history s) := by
  unfold resume Navigator.resume
  cases history.current? with
  | none => rfl
  | some id =>
    simp only
    cases s.get? id <;> rfl

theorem next_run : (next env).run n = finished (n.next env) := by
  unfold next Navigator.next
  simp only [EStateM.run_bind, EStateM.run_get]
  cases state : n.state with
  | idle => rfl
  | terminal id => rfl
  | active id =>
    simp only
    cases env.survey.get? id with
    | none => rfl
    | some r =>
      simp only [seek_run, state]
      generalize Navigator.walk .. = walked
      rcases walked with e | _ | ⟨id, m⟩ <;> rfl

theorem back_run : back.run n = .ok n.back.1 n.back.2 := by
  unfold back Navigator.back
  simp only [EStateM.run_bind, EStateM.run_get]
  cases n.state with
  | idle => rfl
  | active id | terminal id =>
    simp only [EStateM.run_bind, EStateM.run_get]
    cases n.history.back? <;> rfl

end InPlace

/-- A move that is tried, with all that it looks at. -/
inductive Attempt where
  | start (env : Surroundings)
  | resume (history : History) (survey : Survey)
  | next (env : Surroundings)
  | back

namespace Attempt

/-- The question shown, if any, and the navigator that is handed back. -/
def perform (n : Navigator) : Attempt → Except SurveyError (Option String) × Navigator
  | .start env => (n.start env).map (·.map some) id
  | .resume history survey => (n.resume history survey).map (·.map some) id
  | .next env => n.next env
  | .back => n.back.map .ok id

def inPlace : Attempt → Altering (Option String)
  | .start env => return some (← InPlace.start env)
  | .resume history survey => return some (← InPlace.resume history survey)
  | .next env => InPlace.next env
  | .back => InPlace.back

/-- The questions shown by moves that are tried in place one after the other, and the navigator
that is left. -/
def tryAll : List Attempt → Navigator → List String × Navigator
  | [], n => ([], n)
  | a :: attempts, n =>
    match a.inPlace.run n with
    | .ok (some id) m => (id :: (tryAll attempts m).1, (tryAll attempts m).2)
    | .ok none m | .error _ m => tryAll attempts m

/-- The moves among them that show a question. -/
def showing : List Attempt → Navigator → List Attempt
  | [], _ => []
  | a :: attempts, n =>
    match a.inPlace.run n with
    | .ok (some _) m => a :: showing attempts m
    | .ok none m | .error _ m => showing attempts m

theorem shown_run {move : Altering String} {n : Navigator}
    {done : Except SurveyError String × Navigator} (run : move.run n = InPlace.finished done) :
    (do return some (← move) : Altering (Option String)).run n =
      InPlace.finished (done.map (·.map some) id) := by
  rw [EStateM.run_bind, run]
  obtain ⟨e | id, m⟩ := done <;> rfl

/-- A move in place comes to what the move that hands its navigator back comes to. -/
theorem inPlace_run (a : Attempt) (n : Navigator) :
    a.inPlace.run n = InPlace.finished (a.perform n) := by
  cases a with
  | start env => exact shown_run (InPlace.start_run env n)
  | resume history survey => exact shown_run (InPlace.resume_run n history survey)
  | next env => exact InPlace.next_run env n
  | back => exact InPlace.back_run n

theorem perform_cases (a : Attempt) (n : Navigator) :
    (∃ id m, a.perform n = (.ok (some id), m)) ∨ a.perform n = (.ok none, n) ∨
      ∃ e, a.perform n = (.error e, n) := by
  cases a with
  | start env =>
    obtain ⟨id, _, _, -, -, -, started⟩ | ⟨e, failed⟩ := start_cases n env
    · exact .inl ⟨id, _, by rw [perform, started]; rfl⟩
    · exact .inr (.inr ⟨e, by rw [perform, failed]; rfl⟩)
  | resume history survey =>
    rw [perform, Navigator.resume]
    cases history.current? with
    | none => exact .inr (.inr ⟨_, rfl⟩)
    | some id =>
      simp only
      cases survey.get? id with
      | none => exact .inr (.inr ⟨_, rfl⟩)
      | some r => exact .inl ⟨_, _, rfl⟩
  | next env =>
    obtain ⟨_, _, id, _, _, -, -, -, -, moved⟩ | stayed | ⟨e, failed⟩ := next_cases n env
    · exact .inl ⟨id, _, moved⟩
    · exact .inr (.inl stayed)
    · exact .inr (.inr ⟨e, failed⟩)
  | back =>
    obtain ⟨_, _, -, moved⟩ | stayed := back_cases n
    · exact .inl ⟨_, _, by rw [perform, moved]; rfl⟩
    · exact .inr (.inl (by rw [perform, stayed]; rfl))

theorem inPlace_cases (a : Attempt) (n : Navigator) :
    (∃ id m, a.inPlace.run n = .ok (some id) m) ∨ a.inPlace.run n = .ok none n ∨
      ∃ e, a.inPlace.run n = .error e n := by
  rw [inPlace_run]
  obtain ⟨id, m, shown⟩ | nowhere | ⟨e, failed⟩ := perform_cases a n
  · exact .inl ⟨id, m, by rw [shown]; rfl⟩
  · exact .inr (.inl (by rw [nowhere]; rfl))
  · exact .inr (.inr ⟨e, by rw [failed]; rfl⟩)

/-- Moves that show no question may as well not have been tried. -/
theorem tryAll_showing (attempts : List Attempt) (n : Navigator) :
    tryAll (showing attempts n) n = tryAll attempts n := by
  induction attempts generalizing n with
  | nil => rfl
  | cons a attempts ih =>
    obtain ⟨id, m, shown⟩ | nowhere | ⟨e, failed⟩ := inPlace_cases a n
    · simp only [showing, tryAll, shown, ih]
    · simp only [showing, tryAll, nowhere, ih]
    · simp only [showing, tryAll, failed, ih]

/-- A move made in place that fails, or that shows no question, leaves the navigator as it was
before, whatever its walk had already altered. -/
theorem fruitless_untraced (attempts : List Attempt) (n : Navigator) :
    (∀ a : Attempt, a.inPlace.run n = InPlace.finished (a.perform n)) ∧
    (∀ (a : Attempt) (e : SurveyError) (left : Navigator),
      a.inPlace.run n = .error e left → left = n) ∧
    (∀ (a : Attempt) (left : Navigator), a.inPlace.run n = .ok none left → left = n) ∧
    tryAll (showing attempts n) n = tryAll attempts n := by
  refine ⟨fun a => inPlace_run a n, ?_, ?_, tryAll_showing attempts n⟩
  · intro a e left run
    obtain ⟨_, _, shown⟩ | nowhere | ⟨_, failed⟩ := inPlace_cases a n
    · cases shown.symm.trans run
    · cases nowhere.symm.trans run
    · cases failed.symm.trans run
      rfl
  · intro a left run
    obtain ⟨_, _, shown⟩ | nowhere | ⟨_, failed⟩ := inPlace_cases a n
    · cases shown.symm.trans run
    · cases nowhere.symm.trans run
      rfl
    · cases failed.symm.trans run

def failed? : EStateM.Result SurveyError Navigator (Option String) → Option Navigator
  | .error _ left => some left
  | .ok _ _ => none

theorem failed?_eq_some {done : EStateM.Result SurveyError Navigator (Option String)}
    {left : Navigator} (failed : failed? done = some left) : ∃ e, done = .error e left := by
  cases done with
  | ok shown m => contradiction
  | error e m =>
    cases failed
    exact ⟨e, rfl⟩

/-- At the end of a loop, in front of a target that does not exist, with two steps to go. -/
def shortOfSteps (s : Survey) : Navigator :=
  { ofSurvey s { maxNavigationSteps := 2 } with
    state := .active "B_1_1"
    history := { visits := [⟨"B_1_1", ["GONE"]⟩], upcoming := ["GONE"] } }

/-- When its steps run out, a walk has taken from the queue, passed a marker and kept a bound. -/
theorem fruitless_untraced_tour : ∃ s, (Survey.compile {} "tour" tourText).toOption = some s ∧
    let env : Surroundings := ⟨s, {}, answering "A" "1"⟩
    let n := shortOfSteps s
    (∃ e left, (InPlace.walk env n.maxSteps n.maxSteps (some "B_1_1") none).run n = .error e left ∧
      left.history.ids = ["B_1_1", "__CONT_0_1"] ∧ left.history.upcoming = [] ∧
      left.loops.map Loop.bound = [some 1] ∧ n.loops.map Loop.bound = [none]) ∧
    ∃ e, (next env).inPlace.run n = .error e n := by
  have walked : (Survey.compile {} "tour" tourText).toOption.map (fun s =>
      let env : Surroundings := ⟨s, {}, answering "A" "1"⟩
      let n := shortOfSteps s
      ((failed? ((InPlace.walk env n.maxSteps n.maxSteps (some "B_1_1") none).run n)).any fun left =>
          decide (left.history.ids = ["B_1_1", "__CONT_0_1"] ∧ left.history.upcoming = [] ∧
            left.loops.map Loop.bound = [some 1] ∧ n.loops.map Loop.bound = [none]),
        (failed? ((next env).inPlace.run n)).isSome)) = some (true, true) := by
    decide +kernel
  obtain ⟨s, accepted, walked⟩ := Option.map_eq_some_iff.1 walked
  simp only [Prod.mk.injEq, Option.any_eq_true, decide_eq_true_eq, Option.isSome_iff_exists] at walked
  obtain ⟨⟨left, walked, altered⟩, m, failed⟩ := walked
  obtain ⟨e, walked⟩ := failed?_eq_some walked
  obtain ⟨e', failed⟩ := failed?_eq_some failed
  obtain ⟨-, untraced, -, -⟩ := fruitless_untraced [] (shortOfSteps s)
  obtain rfl := untraced _ e' m failed
  exact ⟨s, accepted, ⟨e, left, walked, altered⟩, e', failed⟩

end Attempt
end Questionnaire.Navigator
