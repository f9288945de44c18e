import Questionnaire.Proofs.Navigation.Forward
import Questionnaire.Proofs.Navigation.LoopScan
import Questionnaire.Proofs.Navigation.Queue

/-! The number of candidates that a move can look at. Where jumps lead forward, a walk without a
queue comes to every record once at most. A queued target costs two candidates at most: itself,
and the entry of an iteration that it may jump to. -/
namespace Questionnaire.Navigator
variable {s : Survey} {env : Surroundings} {n m : Navigator} {before after : List Record}
  {r : Record} {index : Nat}

theorem Serves.held (serves : n.Serves s) {held : Loop} (found : n.loop? index = some held) :
    ∃ loop ∈ s.loops, loop.unread = held.unread ∧ loop.index = index := by
  have member : held.unread ∈ s.loops.map Loop.unread := by
    rw [← serves]
    exact List.mem_map_of_mem (List.mem_of_find?_eq_some found)
  obtain ⟨loop, listed, same⟩ := List.mem_map.1 member
  refine ⟨loop, listed, same, ?_⟩
  have known : held.index = index := by simpa using List.find?_some found
  exact (Loop.eq_of_unread Loop.index (fun _ => rfl) same).trans known

/-- A walk that leaves a loop goes on behind its end. -/
theorem Serves.endMarker?_behind (serves : n.Serves s) (forward : s.Forward)
    (distinct : (s.records.map Record.id).Nodup) (split : s.records = before ++ r :: after)
    (reads : r.Reads index) {id : String} (finish : n.endMarker? s index = some id) :
    ∃ position, s.position? id = some position ∧ before.length < position := by
  obtain ⟨last, jump, rfl⟩ := Option.map_eq_some_iff.1 finish
  obtain ⟨held, listed, found⟩ := Option.bind_eq_some_iff.1 jump
  obtain ⟨loop, member, same, rfl⟩ := serves.held listed
  have place : loop.endPosition = held.endPosition :=
    Loop.eq_of_unread Loop.endPosition (fun _ => rfl) same
  rw [← place] at found
  exact ⟨_, Survey.position?_of_at? distinct found, (forward loop member).encloses split reads⟩

/-- A walk that repeats a loop goes on at the entry that directly follows. -/
theorem Serves.entry_follows (serves : n.Serves s) (forward : s.Forward)
    (split : s.records = before ++ r :: after) {i bound : Nat} {loop : Loop}
    (marked : r.marker? = some (.continuation index i)) (found : n.loop? index = some loop)
    (admitted : loop.admits (nextIteration i) bound = true) :
    ∃ entry more, after = entry :: more ∧ entry.id = loop.iterationEntry (nextIteration i) ∧
      entry.marker? = none := by
  obtain ⟨described, member, same, rfl⟩ := serves.held found
  have allowed : nextIteration i ≤ loop.maximum := by
    simp only [Loop.admits, Bool.and_eq_true, decide_eq_true_eq] at admitted
    exact admitted.2
  rw [← Loop.eq_of_unread Loop.maximum (fun _ => rfl) same] at allowed
  rw [← Loop.eq_of_unread (·.iterationEntry (nextIteration i)) (fun _ => rfl) same]
  exact (forward described member).follows split marked allowed

namespace Walk
variable {w v : Walk} {id : String}

/-- The records that a walk without a queue may still come to. -/
def ahead (s : Survey) (w : Walk) : Nat :=
  match w.forced with
  | some id => (s.position? id).elim (s.size + 1) (s.size - ·)
  | none => (w.cursor.bind s.position?).elim 0 (s.size - 1 - ·)

/-- The candidates that a walk may look at until it is over, the last one being none. -/
def budget (s : Survey) (w : Walk) : Nat :=
  if w.navigator.history.upcoming = [] then w.ahead s + 1
  else 2 * w.navigator.history.upcoming.length + s.size + 1 + w.forced.toList.length

/-- A walk that is forced on while targets are queued comes to a question. -/
def Leads (s : Survey) (w : Walk) : Prop :=
  w.navigator.history.upcoming ≠ [] → ∀ id ∈ w.forced, ∀ r, s.record? id = some r → r.marker? = none

theorem ahead_le (unforced : w.forced = none) : w.ahead s ≤ s.size := by
  rw [ahead, unforced]
  cases w.cursor.bind s.position? with
  | none => exact Nat.zero_le _
  | some position => exact (Nat.sub_le _ _).trans (Nat.sub_le _ _)

theorem ahead_cursor (distinct : (s.records.map Record.id).Nodup)
    (split : s.records = before ++ r :: after) (unforced : w.forced = none)
    (cursor : w.cursor = some r.id) : w.ahead s = after.length := by
  have length := Survey.size_of_split split
  simp only [ahead, unforced, cursor, Option.bind_some, Survey.position?_of_split distinct split,
    Option.elim_some]
  omega

theorem ahead_forced (distinct : (s.records.map Record.id).Nodup)
    (split : s.records = before ++ r :: after) (forced : w.forced = some r.id) :
    w.ahead s = after.length + 1 := by
  have length := Survey.size_of_split split
  simp only [ahead, forced, Survey.position?_of_split distinct split, Option.elim_some]
  omega

theorem ahead_successor (distinct : (s.records.map Record.id).Nodup)
    (split : s.records = before ++ r :: after) (unforced : w.forced = none) {next : Record}
    (behind : w.cursor.bind s.successor? = some next) (named : next.id = r.id) :
    w.ahead s = after.length + 1 := by
  have length := Survey.size_of_split split
  obtain ⟨cursor, at_, successor⟩ := Option.bind_eq_some_iff.1 behind
  obtain ⟨position, placed, found⟩ := Option.bind_eq_some_iff.1 successor
  have here : position + 1 = before.length := by
    have place := Survey.position?_of_at? distinct found
    rw [named, Survey.position?_of_split distinct split] at place
    exact (Option.some.inj place).symm
  simp only [ahead, unforced, at_, Option.bind_some, placed, Option.elim_some]
  omega

theorem Takes.unforced (candidate : Takes s w id v) : v.forced = none := by
  cases candidate with
  | forced => rfl
  | queued free => exact free
  | following free => exact free

/-- Whatever becomes of a known candidate, the budget of what is left is smaller: a walk that is
forced on by it is at a marker, to which it has not been forced itself. -/
theorem Takes.spends {taken : Walk} (candidate : Takes s w id taken)
    (distinct : (s.records.map Record.id).Nodup) (split : s.records = before ++ r :: after)
    (named : id = r.id) (leads : w.Leads s)
    (queue : v.navigator.history.upcoming = taken.navigator.history.upcoming)
    (near : v.ahead s ≤ after.length) (jumps : v.forced ≠ none → r.marker? ≠ none) :
    v.budget s < w.budget s := by
  have length := Survey.size_of_split split
  have once : v.forced.toList.length ≤ 1 := by cases v.forced <;> simp
  have known : s.record? r.id = some r := Survey.record?_of_mem distinct (by rw [split]; simp)
  unfold budget
  rw [queue]
  cases candidate with
  | forced jump =>
    have nearer := ahead_forced distinct split (named ▸ jump)
    dsimp only
    split
    · omega
    · next some =>
      have unmarked := leads some _ (named ▸ jump) r known
      have stays : v.forced = none := by
        by_contra onward
        exact jumps onward unmarked
      rw [stays, jump]
      simp
  | queued free queued =>
    rw [queued, if_neg (List.cons_ne_nil _ _), List.length_cons]
    dsimp only
    split <;> omega
  | following free empty behind =>
    have nearer := ahead_successor distinct split free behind named
    rw [if_pos empty, if_pos empty]
    omega

/-- A candidate that is unknown comes from the queue or by a jump. -/
theorem Takes.spends_unknown (candidate : Takes s w id v) (missing : s.record? id = none) :
    v.budget s < w.budget s := by
  have near := ahead_le candidate.unforced (s := s)
  unfold budget
  rw [candidate.unforced]
  cases candidate with
  | forced jump =>
    have absent : s.position? id = none := by
      rw [Survey.position?, List.findIdx?_eq_none_iff]
      intro r member
      simpa using List.find?_eq_none.1 missing r member
    have far : w.ahead s = s.size + 1 := by
      simp only [ahead, jump, absent, Option.elim_none]
    dsimp only at near ⊢
    split
    · omega
    · simp [jump]
  | queued free queued =>
    rw [queued, if_neg (List.cons_ne_nil _ _), List.length_cons]
    dsimp only at near ⊢
    split
    · omega
    · simp
      omega
  | @following r free empty behind =>
    obtain ⟨cursor, -, successor⟩ := Option.bind_eq_some_iff.1 behind
    obtain ⟨position, -, found⟩ := Option.bind_eq_some_iff.1 successor
    have unknown := List.find?_eq_none.1 missing r (List.mem_of_getElem? found)
    simp at unknown

theorem leads_unforced (unforced : w.forced = none) : w.Leads s := by
  intro _ id forced
  rw [unforced] at forced
  cases forced

theorem ahead_behind {cursor : Option String} (unforced : w.forced = none)
    (split : s.records = before ++ r :: after) (at_ : w.cursor = cursor)
    (behind : ∀ id, cursor = some id →
      ∃ position, s.position? id = some position ∧ before.length < position) :
    w.ahead s ≤ after.length := by
  have length := Survey.size_of_split split
  rw [ahead, unforced, at_]
  cases cursor with
  | none => exact Nat.zero_le _
  | some id =>
    obtain ⟨position, placed, further⟩ := behind id rfl
    simp only [Option.bind_some, placed, Option.elim_some]
    omega

theorem Takes.goesOn {taken : Walk} (candidate : Takes s w r.id taken)
    (distinct : (s.records.map Record.id).Nodup) (split : s.records = before ++ r :: after)
    (leads : w.Leads s) (queue : v.navigator.history.upcoming = taken.navigator.history.upcoming)
    (stays : v.forced = taken.forced) (near : v.ahead s ≤ after.length) :
    v.budget s < w.budget s ∧ v.Leads s := by
  have unforced : v.forced = none := stays.trans candidate.unforced
  have spent := candidate.spends distinct split rfl leads queue near
  exact ⟨spent fun onward => (onward unforced).elim, leads_unforced unforced⟩

/-- Every step that goes on spends some of the budget. -/
theorem Steps.spends (step : Steps env w (.onward v))
    (distinct : (env.survey.records.map Record.id).Nodup) (forward : env.survey.Forward)
    (serves : w.navigator.Serves env.survey) (leads : w.Leads env.survey) :
    v.budget env.survey < w.budget env.survey ∧ v.Leads env.survey := by
  have place {id : String} {r : Record} (found : env.survey.record? id = some r) :
      ∃ before after, env.survey.records = before ++ r :: after ∧ id = r.id := by
    obtain ⟨member, named⟩ := Survey.mem_of_record? found
    obtain ⟨before, after, split⟩ := List.append_of_mem member
    exact ⟨before, after, split, named.symm⟩
  cases step with
  | unknown candidate missing =>
    exact ⟨candidate.spends_unknown missing, leads_unforced candidate.unforced⟩
  | finished candidate found marked =>
    obtain ⟨before, after, split, rfl⟩ := place found
    refine candidate.goesOn distinct split leads ?_ ?_ ?_
    · rfl
    · rfl
    · refine le_of_eq (ahead_cursor distinct split ?_ rfl)
      exact candidate.unforced
  | hidden candidate found unmarked enters forbidden =>
    obtain ⟨before, after, split, rfl⟩ := place found
    refine candidate.goesOn distinct split leads ?_ ?_ ?_
    · rw [enters.history]
    · rfl
    · refine le_of_eq (ahead_cursor distinct split ?_ rfl)
      exact candidate.unforced
  | @repeated id taken r index i bound loop n candidate found marked read admitted =>
    obtain ⟨before, after, split, rfl⟩ := place found
    have serves : (taken.navigator.passing r.id).Serves env.survey := candidate.passes.serves serves
    obtain ⟨listed, -, rfl⟩ := readBound_eq_ok read
    obtain ⟨entry, more, rfl, named, unmarked⟩ :=
      serves.entry_follows forward split marked listed admitted
    have split' : env.survey.records = (before ++ [r]) ++ entry :: more := by simp [split]
    refine ⟨candidate.spends distinct split rfl leads ?_ ?_ ?_, ?_⟩
    · rfl
    · exact (ahead_forced distinct split' (congrArg some named.symm)).le
    · exact fun _ => by simp [marked]
    · intro _ id jump other known
      obtain rfl := Option.some.inj jump
      rw [← named, Survey.record?_of_mem distinct (by rw [split']; simp)] at known
      exact Option.some.inj known ▸ unmarked
  | @left id taken r index i bound loop n candidate found marked read refused =>
    obtain ⟨before, after, split, rfl⟩ := place found
    have serves : (taken.navigator.passing r.id).Serves env.survey := candidate.passes.serves serves
    obtain ⟨-, -, rfl⟩ := readBound_eq_ok read
    refine candidate.goesOn distinct split leads ?_ ?_ ?_
    · rfl
    · rfl
    · refine ahead_behind candidate.unforced split rfl fun id finish => ?_
      exact (serves.withBound index bound).endMarker?_behind forward distinct split
        (.inr ⟨i, marked⟩) finish
  | @beyond id taken r e bound loop n candidate found unmarked annotated read refused =>
    obtain ⟨before, after, split, rfl⟩ := place found
    have serves := candidate.passes.serves serves
    obtain ⟨-, -, rfl⟩ := readBound_eq_ok read
    refine candidate.goesOn distinct split leads ?_ ?_ ?_
    · rfl
    · rfl
    · refine ahead_behind candidate.unforced split rfl fun id finish => ?_
      exact (serves.withBound e.loopIndex bound).endMarker?_behind forward distinct split
        (.inl ⟨e, annotated, rfl⟩) finish

/-- A step fails where a bound is read, and nowhere else. -/
theorem step_error {e : SurveyError} (failed : w.step env = .error e) :
    ∃ (k : Navigator) (index : Nat), k.readBound env.source index = .error e := by
  unfold step at failed
  split at failed
  · cases failed
  · next id v _ =>
    split at failed
    · cases failed
    · split at failed
      · next index i _ =>
        cases passed : v.passContinuation env id index i with
        | ok u =>
          rw [passed] at failed
          cases failed
        | error e =>
          rw [passed] at failed
          cases failed
          simp only [passContinuation, bind, Except.bind] at passed
          split at passed
          · next refused =>
            cases passed
            exact ⟨_, _, refused⟩
          · split at passed <;> cases passed
      · cases failed
      · unfold visitQuestion at failed
        split at failed
        · cases failed
        · simp only [bind, Except.bind] at failed
          split at failed
          · next refused =>
            cases failed
            exact ⟨_, _, refused⟩
          · split at failed <;> cases failed

theorem readBound_unlimited (n : Navigator) (source : Source) (index : Nat) (fault : LimitFault) :
    n.readBound source index ≠ .error (.limit fault) := by
  intro failed
  unfold readBound at failed
  split at failed
  · cases failed
  · next loop _ =>
    cases read : loop.readBound source with
    | ok bound =>
      rw [read] at failed
      cases failed
    | error e =>
      rw [read] at failed
      cases failed
      unfold Loop.readBound at read
      split at read <;> cases read

theorem budget_pos : 0 < w.budget s := by
  unfold budget
  split <;> omega

/-- Within its budget a walk is over. -/
theorem run_unlimited (distinct : (env.survey.records.map Record.id).Nodup)
    (forward : env.survey.Forward) (serves : w.navigator.Serves env.survey)
    (leads : w.Leads env.survey) (limit : Nat) {steps : Nat} (enough : w.budget env.survey ≤ steps)
    (fault : LimitFault) : w.run env limit steps ≠ .error (.limit fault) := by
  induction steps generalizing w with
  | zero => exact absurd enough (Nat.not_le_of_lt budget_pos)
  | succ steps ih =>
    intro failed
    simp only [run, bind, Except.bind] at failed
    split at failed
    · next stopped =>
      cases failed
      obtain ⟨k, index, refused⟩ := step_error stopped
      exact readBound_unlimited k env.source index fault refused
    · next stepped =>
      split at failed
      · cases failed
      · have step := step_steps stepped
        obtain ⟨spent, leads⟩ := step.spends distinct forward serves leads
        exact ih (step.passes.serves serves) leads (by omega) failed
      · cases failed

end Walk

/-- The queue of the next move: the targets of the active question that are selected, and what
is queued already. -/
def pending (n : Navigator) (env : Surroundings) : List String :=
  match n.state with
  | .active id => ((env.survey.get? id).elim [] env.skipTargets) ++ n.history.upcoming
  | .idle | .terminal _ => n.history.upcoming

theorem start_unlimited (distinct : (env.survey.records.map Record.id).Nodup)
    (forward : env.survey.Forward) (serves : n.Serves env.survey)
    (enough : env.survey.size + 1 ≤ n.maxSteps) (fault : LimitFault) :
    (n.start env).1 ≠ .error (.limit fault) := by
  intro failed
  unfold start at failed
  split at failed
  · cases failed
  · next first begins =>
    obtain ⟨after, split⟩ := List.head?_eq_some_iff.1 begins
    let w : Walk := ⟨{ n with history := {}, state := .idle }, none, some first.id⟩
    have split : env.survey.records = [] ++ first :: after := split
    have near : w.ahead env.survey = after.length + 1 := Walk.ahead_forced distinct split rfl
    have budget : w.budget env.survey ≤ n.maxSteps := by
      have length := Survey.size_of_split split
      rw [Walk.budget, if_pos rfl, near]
      simp only [List.length_nil] at length
      omega
    have leads : w.Leads env.survey := fun queued => (queued rfl).elim
    split at failed
    · cases failed
    · cases failed
    · next e walked =>
      cases failed
      exact Walk.run_unlimited distinct forward (w := w) serves leads n.maxSteps budget fault walked

theorem next_unlimited (distinct : (env.survey.records.map Record.id).Nodup)
    (forward : env.survey.Forward) (serves : n.Serves env.survey)
    (enough : 2 * (n.pending env).length + env.survey.size + 1 ≤ n.maxSteps)
    (fault : LimitFault) : (n.next env).1 ≠ .error (.limit fault) := by
  intro failed
  unfold next at failed
  split at failed
  · cases failed
  · cases failed
  · next id active =>
    split at failed
    · cases failed
    · next r found =>
      let queued : Navigator := { n with history := n.history.enqueue (env.skipTargets r) }
      let w : Walk := ⟨queued, some id, none⟩
      have queue : w.navigator.history.upcoming = n.pending env := by
        simp only [pending, active, found, Option.elim_some]
        rfl
      have budget : w.budget env.survey ≤ n.maxSteps := by
        have near : w.ahead env.survey ≤ env.survey.size := Walk.ahead_le rfl
        rw [Walk.budget, queue]
        split
        · omega
        · simpa [w] using enough
      split at failed
      · cases failed
      · cases failed
      · next e walked =>
        cases failed
        exact Walk.run_unlimited distinct forward (w := w) serves (Walk.leads_unforced rfl)
          n.maxSteps budget fault walked

/-- A move that may look at twice as many candidates as there are targets in its queue, and at
every record and one more, never runs out of steps. So where jumps lead forward, a limit is only
reported if it is set lower. -/
theorem steps_suffice (distinct : (env.survey.records.map Record.id).Nodup)
    (forward : env.survey.Forward) (serves : n.Serves env.survey)
    (enough : 2 * (n.pending env).length + env.survey.size + 1 ≤ n.maxSteps) (fault : LimitFault) :
    (n.start env).1 ≠ .error (.limit fault) ∧ (n.next env).1 ≠ .error (.limit fault) :=
  ⟨start_unlimited distinct forward serves (by omega) fault,
    next_unlimited distinct forward serves enough fault⟩

/-- A queue of a marker, of an entry that its loop does not admit and of an unknown target. -/
theorem steps_suffice_guests : ∃ s, (Survey.compile {} "guests" guestText).toOption = some s ∧
    let env : Surroundings := ⟨s, {}, fun _ => some (.text "1")⟩
    let n : Navigator := { ofSurvey s { maxNavigationSteps := 16 } with
      state := .active "COUNT", history := { upcoming := ["__CONT_0_1", "MEAL_2_2", "GONE"] } }
    (n.start env).1 ≠ .error (.limit (.navigationSteps 16)) ∧
      (n.next env).1 ≠ .error (.limit (.navigationSteps 16)) := by
  obtain ⟨s, count, _, _, _, _, accepted, guests⟩ := exists_guests
  obtain ⟨countId, countBare⟩ := guests.count
  have compiled : s.Compiled := Survey.compiled_of_toOption accepted
  have forward : s.Forward := guests.layout.forward compiled.linked compiled.distinct
  have member : count ∈ s.records := by
    rw [guests.layout.records]
    simp [Block.places]
  have found : s.get? "COUNT" = some count := by
    rw [← countId]
    exact Survey.get?_of_record? (Survey.record?_of_mem compiled.distinct member)
  refine ⟨s, accepted, ?_⟩
  intro env n
  have serves : n.Serves env.survey := serves_ofSurvey s {}
  refine steps_suffice compiled.distinct forward serves ?_ _
  simp [n, env, pending, found, Surroundings.skipTargets, countBare, guests.size, ofSurvey]

end Questionnaire.Navigator
