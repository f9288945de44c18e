import Questionnaire.Proofs.Navigation.Course

/-! The queue of targets across one move. What the active question adds stands in front of
what was queued before, and a move takes targets off the front only. A target that is taken
off is shown, unless no move could have shown it then. -/
namespace Questionnaire

/-- The values that an answer to a group of options selects. -/
def Value.selections : Value → List String
  | .list items => items.map Value.display
  | v => [v.display]

/-- The option of a target is among the selected ones, and its guard holds if it has one. -/
structure SkipTarget.Fires (env : Surroundings) (question : String) (t : SkipTarget) : Prop where
  selected : ∃ key ∈ [radioKey, checkboxKey], ∃ v ∈ env.source (compoundName key question),
    t.optionValue ∈ v.selections
  guarded : ∀ guard ∈ t.directive.guard, env.holds guard = true

theorem Surroundings.mem_selected {env : Surroundings} {question value : String} :
    value ∈ env.selected question ↔ ∃ key ∈ [radioKey, checkboxKey],
      ∃ v ∈ env.source (compoundName key question), value ∈ v.selections := by
  rw [selected, List.mem_flatMap]
  apply exists_congr
  intro key
  apply and_congr_right
  intro _
  cases answer : env.source (compoundName key question) with
  | none => simp
  | some v => cases v <;> simp [Value.selections]

theorem SkipTarget.fires_iff {env : Surroundings} {question : String} {t : SkipTarget} :
    t.Fires env question ↔
      ((env.selected question).contains t.optionValue && env.permits t.directive.guard) = true := by
  rw [Bool.and_eq_true, List.contains_iff_mem, Surroundings.mem_selected]
  have permits : env.permits t.directive.guard = true ↔
      ∀ guard ∈ t.directive.guard, env.holds guard = true := by
    cases t.directive.guard <;> simp [Surroundings.permits]
  rw [permits]
  exact ⟨fun fires => ⟨fires.selected, fires.guarded⟩, fun ⟨selected, guarded⟩ => ⟨selected, guarded⟩⟩

instance (env : Surroundings) (question : String) : DecidablePred (SkipTarget.Fires env question) :=
  fun _ => decidable_of_iff _ SkipTarget.fires_iff.symm

/-- The targets of a question are those that fire, as they are declared. -/
theorem Surroundings.skipTargets_eq (env : Surroundings) (r : Record) :
    env.skipTargets r = (r.directives.skipTargets.filter
      fun t => decide (t.Fires env r.id)).map (·.directive.target) := by
  unfold skipTargets
  split
  · next none =>
    rw [List.isEmpty_iff.1 none]
    rfl
  · have same : (r.directives.skipTargets.filter fun t =>
        (env.selected r.id).contains t.optionValue && env.permits t.directive.guard) =
        r.directives.skipTargets.filter fun t => decide (t.Fires env r.id) := by
      apply List.filter_congr
      intro t _
      exact Bool.eq_iff_iff.2 (SkipTarget.fires_iff.symm.trans decide_eq_true_iff.symm)
    rw [← same]

namespace Navigator
variable {env : Surroundings} {n m k : Navigator} {id : String} {queue : List String} {r : Record}

/-- A candidate that is not shown: it is unknown or a marker, or else begins an iteration
that does not run or has a condition that does not hold. -/
inductive PassedOver (env : Surroundings) (n : Navigator) (id : String) : Prop
  | unknown (missing : env.survey.record? id = none)
  | marker {r : Record} {marker : LoopMarker} (found : env.survey.record? id = some r)
      (marked : r.marker? = some marker)
  | beyond {r : Record} {e : LoopEntry} {loop : Loop} {bound : Nat}
      (found : env.survey.record? id = some r) (annotated : r.directives.loopEntry = some e)
      (held : n.loop? e.loopIndex = some loop) (read : loop.readBound env.source = .ok bound)
      (refused : ¬(e.iteration ≤ bound ∧ e.iteration ≤ loop.maximum))
  | hidden {r : Record} {condition : String} (found : env.survey.record? id = some r)
      (conditional : r.directives.displayIf = some condition)
      (fails : env.holds condition = false)

/-- The visit made last is one of a continuation marker that the navigator has passed since
and that leads on to a question. -/
inductive Jumps (env : Surroundings) (n : Navigator) (visits : List Frame) (id : String) : Prop
  | intro {f : Frame} {earlier : List Frame} {r : Record} {index i bound : Nat} {loop : Loop}
      (top : visits = f :: earlier) (since : n.history.visits <:+ earlier)
      (found : env.survey.record? f.id = some r)
      (marked : r.marker? = some (.continuation index i))
      (held : n.loop? index = some loop) (read : loop.readBound env.source = .ok bound)
      (admitted : loop.admits (nextIteration i) bound = true)
      (entry : id = loop.iterationEntry (nextIteration i))

/-- What has become of a queue on the way: its front is gone, and nothing in it could be
shown, except that of what is looked at now nothing is known yet. -/
structure Drained (env : Surroundings) (n : Navigator) (queue looked : List String)
    (k : Navigator) : Prop where
  loops : n.loops.map Loop.unread = k.loops.map Loop.unread
  visits : n.history.visits <:+ k.history.visits
  removed : ∃ front, queue = front ++ looked ++ k.history.upcoming ∧
    ∀ id ∈ front, PassedOver env n id

/-- The question shown last is the last target taken off the queue, or none of them could be
shown and it is another one that follows: behind the queue, or by a jump of a marker. -/
def Lands (env : Surroundings) (n : Navigator) (queue : List String) (id : String)
    (m : Navigator) : Prop :=
  ∃ removed, queue = removed ++ m.history.upcoming ∧
    (∀ x ∈ removed.dropLast, PassedOver env n x) ∧
    (removed.getLast? ≠ some id → (∀ x ∈ removed, PassedOver env n x) ∧
      (m.history.upcoming = [] ∨ Jumps env n m.history.visits.tail id))

namespace Drained
variable {looked : List String}

theorem pass (drained : Drained env n queue looked k)
    (passed : ∀ id ∈ looked, PassedOver env n id) : Drained env n queue [] k := by
  obtain ⟨front, same, removed⟩ := drained.removed
  refine ⟨drained.loops, drained.visits, front ++ looked, ?_, ?_⟩
  · rw [List.append_nil, same]
  · intro id member
    rcases List.mem_append.1 member with earlier | now
    · exact removed id earlier
    · exact passed id now

theorem readBound {source : Source} {index bound : Nat} {loop : Loop}
    (drained : Drained env n queue looked k)
    (read : k.readBound source index = .ok (loop, bound, m)) : Drained env n queue looked m := by
  obtain ⟨-, -, rfl⟩ := readBound_eq_ok read
  exact ⟨drained.loops.trans (setBound_unread _ _ _).symm, drained.visits, drained.removed⟩

theorem passing (drained : Drained env n queue looked k) (marker : String) :
    Drained env n queue looked (k.passing marker) :=
  ⟨drained.loops, drained.visits.trans (List.suffix_cons _ _), drained.removed⟩

theorem enters (drained : Drained env n queue looked k) (enters : k.Enters env r m) :
    Drained env n queue looked m := by
  cases enters with
  | bare => exact drained
  | running _ read _ => exact drained.readBound read

/-- The loop whose bound is read is one of those at the beginning, but for the bound. -/
theorem held {index bound : Nat} {loop : Loop} (drained : Drained env n queue looked k)
    (read : k.readBound env.source index = .ok (loop, bound, m)) :
    ∃ held, n.loop? index = some held ∧ held.unread = loop.unread ∧
      held.readBound env.source = .ok bound := by
  obtain ⟨found, accepted, -⟩ := readBound_eq_ok read
  have held := (find?_unread drained.loops index).trans (congrArg (Option.map Loop.unread) found)
  obtain ⟨held, listed, same⟩ := Option.map_eq_some_iff.1 held
  refine ⟨held, listed, same, ?_⟩
  rw [Loop.eq_of_unread (·.readBound env.source) (fun _ => rfl) same, accepted]

end Drained

theorem Enters.history (enters : n.Enters env r m) : m.history = n.history := by
  cases enters with
  | bare => rfl
  | running _ read _ =>
    obtain ⟨-, -, rfl⟩ := readBound_eq_ok read
    rfl

namespace Walk
variable {w v : Walk}

/-- A walk on the way: its queue is drained, and it is forced on only where a marker jumps. -/
structure Draws (env : Surroundings) (n : Navigator) (queue : List String) (w : Walk) :
    Prop where
  drained : Drained env n queue [] w.navigator
  jumps : ∀ id ∈ w.forced, Jumps env n w.navigator.history.visits id

/-- A candidate is looked at once, and stood in the queue if it did not come otherwise. -/
theorem Takes.drained (takes : Takes env.survey w id v) (draws : Draws env n queue w) :
    v.forced = none ∧ ∃ looked, (∀ x ∈ looked, x = id) ∧
      Drained env n queue looked v.navigator := by
  cases takes with
  | forced jump => exact ⟨rfl, [], by simp, draws.drained⟩
  | following free queue behind => exact ⟨free, [], by simp, draws.drained⟩
  | queued free queued =>
    obtain ⟨front, same, removed⟩ := draws.drained.removed
    refine ⟨free, [id], by simp, draws.drained.loops, draws.drained.visits, front, ?_, removed⟩
    rw [same, queued, List.append_nil, List.append_assoc]
    rfl

/-- Whatever a step does with a candidate that it does not show, the candidate could not be
shown. -/
theorem Steps.draws (step : Steps env w (.onward v)) (draws : Draws env n queue w) :
    Draws env n queue v := by
  cases step with
  | unknown candidate missing =>
    obtain ⟨free, looked, same, drained⟩ := candidate.drained draws
    refine ⟨drained.pass fun x member => ?_, by simp [free]⟩
    exact same x member ▸ .unknown missing
  | finished candidate found marked =>
    obtain ⟨free, looked, same, drained⟩ := candidate.drained draws
    refine ⟨drained.pass fun x member => ?_, by simp [free]⟩
    exact same x member ▸ .marker found marked
  | @repeated id v r index i bound loop _ candidate found marked read admitted =>
    obtain ⟨-, looked, same, drained⟩ := candidate.drained draws
    have drained : Drained env n queue [] v.navigator :=
      drained.pass fun x member => same x member ▸ .marker found marked
    have reading := drained.passing id
    obtain ⟨held, listed, unread, accepted⟩ := reading.held read
    refine ⟨reading.readBound read, ?_⟩
    intro entry forced
    obtain rfl := Option.some.inj forced
    obtain ⟨-, -, rfl⟩ := readBound_eq_ok read
    refine .intro rfl drained.visits found marked listed accepted ?_ ?_
    · rw [Loop.eq_of_unread (·.admits (nextIteration i) bound) (fun _ => rfl) unread, admitted]
    · exact Loop.eq_of_unread (·.iterationEntry (nextIteration i)) (fun _ => rfl) unread.symm
  | left candidate found marked read refused =>
    obtain ⟨free, looked, same, drained⟩ := candidate.drained draws
    refine ⟨((drained.passing _).readBound read).pass fun x member => ?_, by simp [free]⟩
    exact same x member ▸ .marker found marked
  | @beyond id v r e bound loop _ candidate found unmarked annotated read refused =>
    obtain ⟨free, looked, same, drained⟩ := candidate.drained draws
    obtain ⟨held, listed, unread, accepted⟩ := drained.held read
    refine ⟨(drained.readBound read).pass fun x member => ?_, by simp [free]⟩
    refine same x member ▸ .beyond found annotated listed accepted ?_
    rintro ⟨asked, allowed⟩
    rw [← Loop.eq_of_unread (·.admits e.iteration bound) (fun _ => rfl) unread] at refused
    simp [Loop.admits, asked, allowed] at refused
  | @hidden id v r n candidate found unmarked enters forbidden =>
    obtain ⟨free, looked, same, drained⟩ := candidate.drained draws
    refine ⟨(drained.enters enters).pass fun x member => ?_, by simp [free]⟩
    rw [same x member]
    unfold Surroundings.permits at forbidden
    cases conditional : r.directives.displayIf with
    | none =>
      rw [conditional] at forbidden
      contradiction
    | some condition =>
      rw [conditional, Option.all_some] at forbidden
      exact .hidden found conditional forbidden

theorem Arrives.lands (arrives : Arrives env w id m) (draws : Draws env n queue w) :
    Lands env n queue id m := by
  induction arrives with
  | later step _ ih => exact ih (step.draws draws)
  | @here w id m step =>
    cases step with
    | shown candidate found unmarked enters permitted =>
      obtain ⟨front, same, removed⟩ := draws.drained.removed
      rw [List.append_nil] at same
      cases candidate with
      | forced jump =>
        refine ⟨front, ?_, fun x member => removed x (List.dropLast_subset _ member), ?_⟩
        · rw [same, arrive, enters.history]
          rfl
        · intro _
          refine ⟨removed, .inr ?_⟩
          rw [arrive, enters.history]
          exact draws.jumps id jump
      | following free used behind =>
        refine ⟨front, ?_, fun x member => removed x (List.dropLast_subset _ member), ?_⟩
        · rw [same, arrive, enters.history]
          rfl
        · intro _
          refine ⟨removed, .inl ?_⟩
          rw [arrive, enters.history]
          exact used
      | queued free queued =>
        refine ⟨front ++ [id], ?_, ?_, ?_⟩
        · rw [same, arrive, enters.history, queued, List.append_assoc]
          rfl
        · rwa [List.dropLast_concat]
        · intro other
          rw [List.getLast?_concat] at other
          contradiction

end Walk

/-- No queued target is lost or overtaken. A move to another question first queues the targets
of the selected options whose guards hold, in front of those queued before. It then takes
targets off the front, of which only the last one can be shown. If that one is not shown, then
the queue is used up, or the last iteration's marker has led on to the next iteration. -/
theorem next_lands (moved : n.next env = (.ok (some id), m)) :
    ∃ last r, n.state = .active last ∧ env.survey.get? last = some r ∧
      Lands env n ((r.directives.skipTargets.filter fun t => decide (t.Fires env r.id)).map
        (·.directive.target) ++ n.history.upcoming) id m := by
  obtain ⟨last, r, active, found, arrives⟩ := next_arrives moved
  refine ⟨last, r, active, found, ?_⟩
  rw [← env.skipTargets_eq r]
  refine arrives.lands ⟨⟨rfl, List.suffix_refl _, [], rfl, by simp⟩, ?_⟩
  intro id none
  cases none

theorem next_lands_tour : ∃ s m, (Survey.compile {} "tour" tourText).toOption = some s ∧
    Lands ⟨s, {}, answering "choice.A" "1"⟩ ((ofSurvey s {}).run s [.start {} fun _ => none])
      ["A"] "A" m := by
  have toured : (Survey.compile {} "tour" tourText).toOption.map (fun s =>
      let n := (ofSurvey s {}).run s [.start {} fun _ => none]
      let env : Surroundings := ⟨s, {}, answering "choice.A" "1"⟩
      (n.state, (s.get? "A").map (fun r => (r.directives.skipTargets.filter
        fun t => decide (t.Fires env r.id)).map (·.directive.target) ++ n.history.upcoming),
        (n.next env).1.toOption)) =
      some (.active "A", some ["A"], some (some "A")) := by
    decide +kernel
  obtain ⟨s, accepted, toured⟩ := Option.map_eq_some_iff.1 toured
  simp only [Prod.mk.injEq] at toured
  obtain ⟨active, queue, shown⟩ := toured
  obtain ⟨m, moved⟩ : ∃ m, ((ofSurvey s {}).run s [.start {} fun _ => none]).next
      ⟨s, {}, answering "choice.A" "1"⟩ = (.ok (some "A"), m) := by
    generalize Navigator.next _ _ = outcome at shown ⊢
    obtain ⟨⟨_⟩ | ⟨_⟩, m⟩ := outcome <;> cases shown
    exact ⟨m, rfl⟩
  obtain ⟨last, r, state, found, lands⟩ := next_lands moved
  cases active.symm.trans state
  rw [found, Option.map_some] at queue
  rw [Option.some.inj queue] at lands
  exact ⟨s, m, accepted, lands⟩

end Navigator

end Questionnaire
