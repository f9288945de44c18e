import Mathlib.Data.List.Forall2
import Mathlib.Data.Option.Defs

/-! Results of two computations that keep in step: both fail, or both succeed with values that are
related, and lists are related element by element. -/
namespace Questionnaire

section Options
variable {α β γ δ : Type} {r : α → β → Prop} {s : γ → δ → Prop}

theorem rel_bind {a : Option α} {b : Option β} {f : α → Option γ} {g : β → Option δ}
    (first : Option.Rel r a b)
    (further : ∀ x y, r x y → Option.Rel s (f x) (g y)) : Option.Rel s (a.bind f) (b.bind g) := by
  cases first with
  | none => exact .none
  | some related => exact further _ _ related

theorem rel_map {a : Option α} {b : Option β} {f : α → γ} {g : β → δ} (first : Option.Rel r a b)
    (further : ∀ x y, r x y → s (f x) (g y)) : Option.Rel s (a.map f) (b.map g) := by
  cases first with
  | none => exact .none
  | some related => exact .some (further _ _ related)

theorem rel_cases {a : Option α} {b : Option β} (rel : Option.Rel r a b) :
    a = none ∧ b = none ∨ ∃ x y, a = some x ∧ b = some y ∧ r x y := by
  cases rel with
  | none => exact .inl ⟨rfl, rfl⟩
  | some related => exact .inr ⟨_, _, rfl, rfl, related⟩

theorem rel_eq_iff {a b : Option α} : Option.Rel (· = ·) a b ↔ a = b := by
  constructor
  · intro same
    cases same with
    | none => rfl
    | some same => rw [same]
  · rintro rfl
    cases a with
    | none => exact .none
    | some => exact .some rfl

end Options

/-! ### Computations with errors -/

/-- Both fail, or both succeed with results that are so related. -/
inductive Together {ε φ α β : Type} (r : α → β → Prop) : Except ε α → Except φ β → Prop
  | fail {e : ε} {f : φ} : Together r (.error e) (.error f)
  | succeed {a : α} {b : β} (related : r a b) : Together r (.ok a) (.ok b)

theorem Together.bind {ε φ α β γ δ : Type} {r : α → β → Prop} {s : γ → δ → Prop} {a : Except ε α}
    {b : Except φ β} {f : α → Except ε γ} {g : β → Except φ δ} (first : Together r a b)
    (further : ∀ x y, r x y → Together s (f x) (g y)) : Together s (a.bind f) (b.bind g) := by
  cases first with
  | fail => exact .fail
  | succeed related => exact further _ _ related

theorem Together.read {ε φ α β : Type} {r : α → β → Prop} {a : Except ε α} {b : Except φ β}
    (both : Together r a b) : Together (fun x y => r x y ∧ x ∈ a.toOption) a b := by
  cases both with
  | fail => exact .fail
  | succeed related => exact .succeed ⟨related, rfl⟩

/-! ### Lists -/

section Lists
variable {α β γ : Type} {r : α → β → Prop} {as : List α} {bs : List β}

theorem mapIdx_related {f : Nat → α → γ} {g : Nat → β → γ} (related : List.Forall₂ r as bs)
    (same : ∀ i a b, r a b → g i b = f i a) : bs.mapIdx g = as.mapIdx f := by
  induction related generalizing f g with
  | nil => rfl
  | cons first _ ih =>
    rw [List.mapIdx_cons, List.mapIdx_cons, same 0 _ _ first]
    exact congrArg _ (ih fun i => same (i + 1))

theorem related_mapIdx {f : Nat → γ → α} {g : Nat → γ → β} (each : ∀ i c, r (f i c) (g i c))
    (items : List γ) : List.Forall₂ r (items.mapIdx f) (items.mapIdx g) := by
  induction items generalizing f g with
  | nil => exact .nil
  | cons c items ih =>
    rw [List.mapIdx_cons, List.mapIdx_cons]
    exact .cons (each 0 c) (ih fun i => each (i + 1))

theorem mapM_rel {f : γ → Option α} {g : γ → Option β} (each : ∀ c, Option.Rel r (f c) (g c))
    (items : List γ) :
    Option.Rel (List.Forall₂ r) (items.mapM f) (items.mapM g) := by
  induction items with
  | nil => exact .some .nil
  | cons c items ih =>
    rw [List.mapM_cons, List.mapM_cons]
    exact rel_bind (each c) fun a b first => rel_bind ih fun as bs more => .some (.cons first more)

end Lists

end Questionnaire
