import Questionnaire.Proofs.Decimal.Quantity
import Questionnaire.Proofs.Navigation.LoopBound

/-! The bound of a loop as the answers ask for it. A whole number without a sign that fits
thirty-two bits is clamped to the maximum and kept, any other answer is refused and leaves
the bound as it was. -/
namespace Questionnaire

open Text

theorem Decimal.count?_eq_some_iff {n : Decimal} {k : Nat} : n.count? = some k ↔
    n.negative = false ∧ n.quantity = k ∧ k ≤ largestUInt32 := by
  rw [count?, toUInt32?]
  cases sign : n.negative with
  | true => simp
  | false =>
    rw [quantity_eq_iff_whole sign]
    cases n.isWhole with
    | false => simp
    | true =>
      simp only [Bool.not_true, Bool.or_self, Bool.false_eq_true, if_false, true_and,
        Option.ite_none_right_eq_some, Option.some.injEq]
      constructor
      · rintro ⟨fits, rfl⟩
        exact ⟨rfl, fits⟩
      · rintro ⟨rfl, fits⟩
        exact ⟨fits, rfl⟩

namespace Loop

/-- The answer to the bound question reads as a number that is the whole number `k` and has no
minus sign. -/
def AsksFor (loop : Loop) (source : Source) (k : Nat) : Prop :=
  ∃ n, (source loop.boundSource).bind Value.asNumber? = some n ∧ n.negative = false ∧
    n.quantity = k

/-- What a refused answer is reported as. -/
def unbounded (loop : Loop) (source : Source) : SurveyError :=
  .loopBound loop.index loop.boundSource (((source loop.boundSource).map Value.display).getD "")

variable {loop : Loop} {source : Source} {k : Nat}

theorem asksFor_of_count? (counted :
    ((source loop.boundSource).bind Value.asNumber?).bind Decimal.count? = some k) :
    loop.AsksFor source k ∧ k ≤ largestUInt32 := by
  obtain ⟨n, view, count⟩ := Option.bind_eq_some_iff.1 counted
  obtain ⟨unsigned, whole, fits⟩ := Decimal.count?_eq_some_iff.1 count
  exact ⟨⟨n, view, unsigned, whole⟩, fits⟩

theorem AsksFor.readBound (asks : loop.AsksFor source k) (fits : k ≤ largestUInt32) :
    loop.readBound source = .ok (min k loop.maximum) := by
  obtain ⟨n, view, unsigned, whole⟩ := asks
  have count := Decimal.count?_eq_some_iff.2 ⟨unsigned, whole, fits⟩
  rw [Loop.readBound, view, Option.bind_some, count]

theorem readBound_unasked (unasked : ∀ k, loop.AsksFor source k → largestUInt32 < k) :
    loop.readBound source = .error (loop.unbounded source) := by
  rw [Loop.readBound]
  split
  · next counted =>
    obtain ⟨asks, fits⟩ := asksFor_of_count? counted
    exact absurd fits (Nat.not_le.2 (unasked _ asks))
  · rfl

/-- A number that was read from a text has a sign only if it is less than zero. -/
theorem asksFor_iff_of_read {s : String}
    (view : (source loop.boundSource).bind Value.asNumber? = Decimal.read? s) :
    loop.AsksFor source k ↔ ∃ n, Decimal.read? s = some n ∧ n.quantity = k := by
  rw [AsksFor, view]
  constructor
  · rintro ⟨n, read, -, whole⟩
    exact ⟨n, read, whole⟩
  · rintro ⟨n, read, whole⟩
    exact ⟨n, read, (Decimal.read?_signCounts read).unsigned whole, whole⟩

theorem AsksFor.unique {k' : Nat} (asks : loop.AsksFor source k) (asks' : loop.AsksFor source k') :
    k = k' := by
  obtain ⟨n, view, -, whole⟩ := asks
  obtain ⟨n', view', -, whole'⟩ := asks'
  obtain rfl := Option.some.inj (view.symm.trans view')
  exact_mod_cast whole.symm.trans whole'

theorem admits_min {i : Nat} :
    loop.admits i (min k loop.maximum) = true ↔ i ≤ min k loop.maximum := by
  simp only [admits, Bool.and_eq_true, decide_eq_true_eq]
  omega

end Loop

namespace Navigator

theorem setBound_find? {index bound : Nat} {loops : List Loop} {loop : Loop}
    (found : loops.find? (·.index == index) = some loop) :
    (setBound index bound loops).find? (·.index == index) =
      some { loop with bound := some bound } := by
  induction loops with
  | nil => cases found
  | cons first rest ih =>
    rw [setBound]
    cases same : first.index == index with
    | true =>
      rw [List.find?_cons, same] at found
      cases found
      rw [if_pos rfl, List.find?_cons, same]
    | false =>
      rw [List.find?_cons, same] at found
      rw [if_neg Bool.false_ne_true, List.find?_cons, same]
      exact ih found

/-- A move reads a bound as the loop does and keeps it in the loop. -/
theorem readBound_kept {n : Navigator} {loop : Loop} (found : n.loop? loop.index = some loop)
    (source : Source) :
    (n.readBound source loop.index).map (fun (_, bound, m) => (bound, m.loop? loop.index)) =
      (loop.readBound source).map fun bound => (bound, some { loop with bound := some bound }) := by
  simp only [readBound, found]
  cases loop.readBound source with
  | error e => rfl
  | ok bound =>
    have kept : (n.withBound loop.index bound).loop? loop.index =
        some { loop with bound := some bound } := setBound_find? found
    exact congrArg (fun kept => Except.ok (bound, kept)) kept

theorem refreshLoop_ok {loop : Loop} {source : Source} {bound : Nat}
    (read : loop.readBound source = .ok bound) :
    refreshLoop source loop = { loop with bound := some bound } := by
  rw [refreshLoop, read]

theorem refreshLoop_error {loop : Loop} {source : Source} {e : SurveyError}
    (refused : loop.readBound source = .error e) : refreshLoop source loop = loop := by
  rw [refreshLoop, refused]

/-- An answer that asks for a whole number of thirty-two bits, or for none: the bound is
clamped and kept, or the answer is refused and the loop left alone, by a refresh and by a move
alike. A number from a text asks for what it is, whatever its sign. -/
theorem bound_clamped (loop : Loop) (source : Source) :
    (∀ k, loop.AsksFor source k → k ≤ largestUInt32 →
      loop.readBound source = .ok (min k loop.maximum) ∧
      refreshLoop source loop = { loop with bound := some (min k loop.maximum) } ∧
      ∀ i, loop.admits i (min k loop.maximum) = true ↔ i ≤ min k loop.maximum) ∧
    ((∀ k, loop.AsksFor source k → largestUInt32 < k) →
      loop.readBound source = .error (loop.unbounded source) ∧ refreshLoop source loop = loop) ∧
    (∀ s k, (source loop.boundSource).bind Value.asNumber? = Decimal.read? s →
      (loop.AsksFor source k ↔ ∃ n, Decimal.read? s = some n ∧ n.quantity = k)) ∧
    ∀ n : Navigator, n.loop? loop.index = some loop →
      (n.readBound source loop.index).map (fun (_, bound, m) => (bound, m.loop? loop.index)) =
        (loop.readBound source).map fun bound =>
          (bound, some { loop with bound := some bound }) := by
  refine ⟨fun k asks fits => ?_, fun unasked => ?_, fun s k view => Loop.asksFor_iff_of_read view,
    fun n found => readBound_kept found source⟩
  · have read := asks.readBound fits
    exact ⟨read, refreshLoop_ok read, fun i => Loop.admits_min⟩
  · have refused := Loop.readBound_unasked unasked
    exact ⟨refused, refreshLoop_error refused⟩

/-- A loop of at most two iterations. -/
def visits : Loop := ⟨0, 1, "A", 2, none, "Q", 5⟩

theorem visits_asksFor {s : String} {n : Decimal} {k : Nat} (read : Decimal.read? s = some n)
    (whole : n.negative = false ∧ n.isWhole = true ∧ n.wholePart = k)
    (plain : Text.trim s = s) : visits.AsksFor (fun _ => some (.list [.text s])) k := by
  have view : ((some (Value.list [.text s])).bind Value.asNumber?) = Decimal.read? s := by
    rw [Option.bind_some, Value.asNumber?, Value.asNumber?, plain]
  exact ⟨n, view.trans read, whole.1, (Decimal.quantity_eq_iff_whole whole.1).2 whole.2⟩

/-- Seven visits, written as a fraction and chosen in a list. -/
theorem bound_clamped_visits :
    visits.AsksFor (fun _ => some (.list [.text "7.0"])) 7 ∧ 7 ≤ largestUInt32 ∧
      visits.readBound (fun _ => some (.list [.text "7.0"])) = .ok 2 ∧
      refreshLoop (fun _ => some (.list [.text "7.0"])) visits =
        { visits with bound := some 2 } := by
  have asks := visits_asksFor (s := "7.0") (n := ⟨false, 70, 1, by decide, by decide⟩) (k := 7)
    (by decide +kernel) (by decide) (by decide +kernel)
  have fits : 7 ≤ largestUInt32 := by decide
  obtain ⟨read, kept, -⟩ := (bound_clamped visits _).1 7 asks fits
  exact ⟨asks, fits, read, kept⟩

/-- One more visit than thirty-two bits count is no bound at all. -/
theorem large_answer_refused :
    visits.AsksFor (fun _ => some (.list [.text "4294967296"])) 4294967296 ∧
      visits.readBound (fun _ => some (.list [.text "4294967296"])) =
        .error (.loopBound 0 "A" "4294967296") ∧
      refreshLoop (fun _ => some (.list [.text "4294967296"])) visits = visits := by
  have asks := visits_asksFor (s := "4294967296")
    (n := ⟨false, 4294967296, 0, by decide, by decide⟩) (k := 4294967296)
    (by decide +kernel) (by decide) (by decide +kernel)
  have refused := Loop.readBound_unasked fun k other => by
    rw [other.unique asks]
    decide
  exact ⟨asks, refused, refreshLoop_error refused⟩

end Navigator

end Questionnaire
