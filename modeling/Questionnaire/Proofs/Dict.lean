import Questionnaire.Dict

/-! Dictionaries seen through `get?`. The entries are determined by it, and a pass over
the entries touches every observation at most once, at the name it belongs to. -/
namespace Questionnaire.Dict
variable {α β σ : Type}

theorem lookup_eq_none_of_lt {name : String} {entries : List (String × α)}
    (above : ∀ e ∈ entries, name < e.1) : entries.lookup name = none := by
  induction entries with
  | nil => rfl
  | cons head rest ih =>
    obtain ⟨n, v⟩ := head
    have ne : name ≠ n := Std.ne_of_lt (above (n, v) List.mem_cons_self)
    rw [lookup_cons, if_neg ne]
    exact ih fun e he => above e (List.mem_cons_of_mem _ he)

theorem mem_iff_lookup {entries : List (String × α)} (ascending : Ascending entries)
    {name : String} {value : α} :
    (name, value) ∈ entries ↔ entries.lookup name = some value := by
  induction entries with
  | nil => simp
  | cons head rest ih =>
    obtain ⟨n, v⟩ := head
    obtain ⟨above, ascending⟩ := List.pairwise_cons.1 ascending
    rw [lookup_cons, List.mem_cons, ih ascending]
    by_cases same : name = n
    · subst same
      rw [if_pos rfl, lookup_eq_none_of_lt above]
      simp [eq_comm]
    · simp [same]

theorem mem_entries {d : Dict α} {name : String} {value : α} :
    (name, value) ∈ d.entries ↔ d.get? name = some value :=
  mem_iff_lookup d.ascending

/-- An observation changed by the entry of one name only sees that entry, if there is
one, and otherwise stays as it was. -/
theorem foldl_entries (d : Dict α) (step : σ → String × α → σ) (observe : σ → β) (name : String)
    (change : α → β → β)
    (hit : ∀ s v, observe (step s (name, v)) = change v (observe s))
    (miss : ∀ s n v, n ≠ name → observe (step s (n, v)) = observe s) (s : σ) :
    observe (d.entries.foldl step s) =
      (d.get? name).elim (observe s) fun v => change v (observe s) := by
  obtain ⟨entries, ascending⟩ := d
  simp only [get?]
  induction entries generalizing s with
  | nil => rfl
  | cons head rest ih =>
    obtain ⟨n, v⟩ := head
    obtain ⟨above, ascending⟩ := List.pairwise_cons.1 ascending
    rw [List.foldl_cons, ih _ ascending, lookup_cons]
    by_cases same : name = n
    · subst same
      rw [if_pos rfl, lookup_eq_none_of_lt above, hit]
      rfl
    · rw [if_neg same, miss s n v (Ne.symm same)]

/-- What every entry leaves alone is left alone. -/
theorem foldl_entries_unseen (d : Dict α) (step : σ → String × α → σ) (observe : σ → β)
    (miss : ∀ s n v, observe (step s (n, v)) = observe s) (s : σ) :
    observe (d.entries.foldl step s) = observe s := by
  induction d.entries generalizing s with
  | nil => rfl
  | cons head rest ih => rw [List.foldl_cons, ih, miss]

theorem entries_eq_of_lookup {left right : List (String × α)} (ascendingLeft : Ascending left)
    (ascendingRight : Ascending right) (same : ∀ name, left.lookup name = right.lookup name) :
    left = right := by
  have members : ∀ e, e ∈ left ↔ e ∈ right := fun ⟨name, value⟩ => by
    rw [mem_iff_lookup ascendingLeft, mem_iff_lookup ascendingRight, same]
  have nodup {entries : List (String × α)} (h : Ascending entries) : entries.Nodup :=
    h.imp fun lt eq => Std.ne_of_lt lt (congrArg Prod.fst eq)
  have perm := (List.perm_ext_iff_of_nodup (nodup ascendingLeft) (nodup ascendingRight)).2 members
  refine perm.eq_of_pairwise (fun a b _ _ lt gt => ?_) ascendingLeft ascendingRight
  exact absurd (Std.lt_trans lt gt) (Std.lt_irrefl)

/-- Dictionaries that answer every question alike are equal. -/
theorem ext_get? {d e : Dict α} (same : ∀ name, d.get? name = e.get? name) : d = e := by
  obtain ⟨left, ascendingLeft⟩ := d
  obtain ⟨right, ascendingRight⟩ := e
  obtain rfl := entries_eq_of_lookup ascendingLeft ascendingRight same
  rfl

/-- The entries of a dictionary in their order make it up again. -/
theorem ofList_entries (d : Dict α) : ofList d.entries = d := by
  apply ext_get?
  intro name
  have h := foldl_entries d (fun d (e : String × α) => d.insert e.1 e.2) (get? · name) name
    (fun v _ => some v) (by simp) (fun s n v ne => by simp [Ne.symm ne]) empty
  rw [ofList, h]
  cases d.get? name <;> rfl

theorem mem_foldl_insert {entries : List (String × α)} {d : Dict α} {e : String × α}
    (member : e ∈ (entries.foldl (fun d e => d.insert e.1 e.2) d).entries) :
    e ∈ d.entries ∨ e ∈ entries := by
  induction entries generalizing d with
  | nil => exact .inl member
  | cons head rest ih =>
    rcases ih member with earlier | later
    · rcases mem_insertEntry earlier with rfl | earlier
      · exact .inr List.mem_cons_self
      · exact .inl earlier
    · exact .inr (List.mem_cons_of_mem head later)

theorem mem_ofList {entries : List (String × α)} {e : String × α}
    (member : e ∈ (ofList entries).entries) : e ∈ entries :=
  (mem_foldl_insert member).resolve_left List.not_mem_nil

/-- The last entry with a name counts. -/
theorem get?_ofList (entries : List (String × α)) (name : String) :
    (ofList entries).get? name = entries.reverse.lookup name := by
  have folded (d : Dict α) : (entries.foldl (fun d (e : String × α) => d.insert e.1 e.2) d).get?
      name = (entries.reverse.lookup name).or (d.get? name) := by
    induction entries generalizing d with
    | nil => rfl
    | cons head rest ih =>
      rw [List.foldl_cons, ih, List.reverse_cons, List.lookup_append, Option.or_assoc, get?_insert,
        lookup_cons]
      split <;> rfl
  exact (folded empty).trans (Option.or_none ..)

theorem isEmpty_eq_false {d : Dict α} {name : String} {value : α}
    (held : d.get? name = some value) : d.isEmpty = false := by
  have member := mem_entries.2 held
  cases h : d.entries with
  | nil => rw [h] at member; cases member
  | cons => simp [isEmpty, h]

theorem exists_get? {d : Dict α} (present : d.isEmpty = false) :
    ∃ name value, d.get? name = some value := by
  cases held : d.entries with
  | nil => simp [isEmpty, held] at present
  | cons entry entries => exact ⟨entry.1, entry.2, mem_entries.1 (held ▸ List.mem_cons_self)⟩

theorem eq_empty {d : Dict α} (nothing : d.isEmpty = true) : d = ∅ := by
  obtain ⟨entries, ascending⟩ := d
  obtain rfl : entries = [] := List.isEmpty_iff.1 nothing
  rfl

end Questionnaire.Dict
