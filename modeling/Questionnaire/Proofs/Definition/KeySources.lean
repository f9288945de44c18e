import Questionnaire.Proofs.Definition.FieldKeys

/-! Where the keys of the fields in a body come from. A key is written down, or it is the free
text of an option, or it is counted among those of its kind. The counted keys never repeat
themselves and are never called like a free text. -/
namespace Questionnaire.Definition

open Text

/-- Where a field has its key from. -/
inductive KeyOrigin where
  /-- The key is written down. -/
  | own (key : String)
  /-- The free text of an option, called after the value of the option. -/
  | free (value : String)
  /-- A key that is counted among those of its kind. -/
  | counted (kind : FieldKind)
deriving DecidableEq

def FieldMarker.origin (option : Option String) (m : FieldMarker) : KeyOrigin :=
  match m.key, m.kind, option with
  | some key, _, _ => .own key
  | none, .other, some value => .free value
  | none, kind, _ => .counted kind

def InlineMarker.origin? (option : Option String) : InlineMarker → Option KeyOrigin
  | field m => some (m.origin option)
  | _ => none

def LineMarker.origins : LineMarker → List KeyOrigin
  | text markers => markers.filterMap (InlineMarker.origin? none)
  | choice _ value label _ => label.filterMap (InlineMarker.origin? (some value))

/-- The origins of all keys in a body, in the order of the fields. -/
def bodyOrigins (content : String) : List KeyOrigin :=
  ((bodyLines false content.toList).map readLine).flatMap LineMarker.origins

namespace KeyOrigin

/-- The key of a free text. -/
def freeKey (value : String) : String := "other_" ++ value

/-- A key and the counts behind it. -/
def key (counts : KeyCounts) : KeyOrigin → String × KeyCounts
  | own key => (key, counts)
  | free value => (freeKey value, counts)
  | counted kind => nextKey counts kind

def own? : KeyOrigin → Option String
  | own key => some key
  | _ => none

def free? : KeyOrigin → Option String
  | free value => some value
  | _ => none

def counted? : KeyOrigin → Option FieldKind
  | counted kind => some kind
  | _ => none

end KeyOrigin

/-- The keys that are written down, option values of free texts and kinds of counted keys. -/
def ownKeys (os : List KeyOrigin) : List String := os.filterMap KeyOrigin.own?

def freeValues (os : List KeyOrigin) : List String := os.filterMap KeyOrigin.free?

def countedKinds (os : List KeyOrigin) : List FieldKind := os.filterMap KeyOrigin.counted?

/-- The keys of origins in their order. -/
def keysOf (counts : KeyCounts) : List KeyOrigin → List String
  | [] => []
  | o :: more => (o.key counts).1 :: keysOf (o.key counts).2 more

def countsBehind (counts : KeyCounts) (os : List KeyOrigin) : KeyCounts :=
  os.foldl (fun counts o => (o.key counts).2) counts

def countedKeys (counts : KeyCounts) : List FieldKind → List String
  | [] => []
  | kind :: more => (nextKey counts kind).1 :: countedKeys (nextKey counts kind).2 more

/-- The keys that are handed out to fields without one of their own. -/
def handedKeys (os : List KeyOrigin) : List String :=
  (freeValues os).map KeyOrigin.freeKey ++ countedKeys (fun _ => 0) (countedKinds os)

/-! ### Keys and their origins -/

theorem fieldKey_origin (option : Option String) (m : FieldMarker) (counts : KeyCounts) :
    fieldKey option m counts = (m.origin option).key counts := by
  obtain ⟨kind, key, attributes⟩ := m
  cases key with
  | some key => rfl
  | none => cases kind <;> cases option <;> rfl

theorem keysOf_append (counts : KeyCounts) (os ps : List KeyOrigin) :
    keysOf counts (os ++ ps) = keysOf counts os ++ keysOf (countsBehind counts os) ps := by
  induction os generalizing counts with
  | nil => rfl
  | cons o os ih => exact congrArg (_ :: ·) (ih _)

theorem assignInlines_origins (option : Option String) (counts : KeyCounts)
    (markers : List InlineMarker) :
    inlineKeys (assignInlines option counts markers).1 =
        keysOf counts (markers.filterMap (InlineMarker.origin? option)) ∧
      (assignInlines option counts markers).2 =
        countsBehind counts (markers.filterMap (InlineMarker.origin? option)) := by
  induction markers generalizing counts with
  | nil => exact ⟨rfl, rfl⟩
  | cons marker more ih =>
    cases marker with
    | text | computed | context => exact ih counts
    | field m =>
      obtain ⟨keys, behind⟩ := ih (fieldKey option m counts).2
      rw [List.filterMap_cons]
      simp only [assignInlines, InlineMarker.origin?]
      rw [fieldKey_origin] at keys behind ⊢
      exact ⟨congrArg (_ :: ·) keys, behind⟩

/-- A body has the keys of its origins. -/
theorem assignLines_origins (counts : KeyCounts) (lines : List LineMarker) :
    (assignLines counts lines).flatMap (fun line => inlineKeys line.inlines) =
      keysOf counts (lines.flatMap LineMarker.origins) := by
  induction lines generalizing counts with
  | nil => rfl
  | cons line more ih =>
    rw [List.flatMap_cons, keysOf_append]
    cases line with
    | text markers =>
      obtain ⟨keys, behind⟩ := assignInlines_origins none counts markers
      simp only [assignLines]
      rw [← trimInlines_keys] at keys
      split
      · next nothing =>
        rw [nothing] at keys
        rw [ih, behind]
        exact congrArg (· ++ _) keys
      · rw [List.flatMap_cons, ih, behind]
        exact congrArg (· ++ _) keys
    | choice kind value label skips =>
      obtain ⟨keys, behind⟩ := assignInlines_origins (some value) counts label
      simp only [assignLines]
      rw [← trimInlines_keys] at keys
      rw [List.flatMap_cons, ih, behind]
      exact congrArg (· ++ _) keys

theorem readBody_origins (content : String) :
    (readBody content).flatMap (fun line => inlineKeys line.inlines) =
      keysOf (fun _ => 0) (bodyOrigins content) :=
  assignLines_origins _ _

/-- The keys sorted by where they come from. -/
theorem keysOf_perm (counts : KeyCounts) (os : List KeyOrigin) :
    (keysOf counts os).Perm (ownKeys os ++ ((freeValues os).map KeyOrigin.freeKey ++
      countedKeys counts (countedKinds os))) := by
  induction os generalizing counts with
  | nil => exact .refl _
  | cons o os ih =>
    cases o with
    | own key => exact (ih counts).cons key
    | free value =>
      refine ((ih counts).cons _).trans ?_
      exact List.perm_middle.symm
    | counted kind =>
      refine ((ih (nextKey counts kind).2).cons _).trans ?_
      change List.Perm _ (ownKeys os ++ ((freeValues os).map KeyOrigin.freeKey ++
        (nextKey counts kind).1 :: countedKeys (nextKey counts kind).2 (countedKinds os)))
      rw [← List.append_assoc, ← List.append_assoc]
      exact List.perm_middle.symm

/-! ### Counted keys -/

/-- The n-th key of a kind. -/
def numberedKey (kind : FieldKind) (n : Nat) : String :=
  if n = 1 then kind.keyword else kind.keyword ++ toString n

theorem mem_countedKeys {counts : KeyCounts} {kinds : List FieldKind} {key : String}
    (member : key ∈ countedKeys counts kinds) :
    ∃ kind n, counts kind < n ∧ key = numberedKey kind n := by
  induction kinds generalizing counts with
  | nil => cases member
  | cons kind more ih =>
    rcases List.mem_cons.1 member with rfl | later
    · exact ⟨kind, counts kind + 1, Nat.lt_succ_self _, rfl⟩
    · obtain ⟨kind', n, above, same⟩ := ih later
      refine ⟨kind', n, ?_, same⟩
      unfold nextKey at above
      dsimp only at above
      split at above
      · next equal =>
        subst equal
        omega
      · exact above

theorem keyword_letters (kind : FieldKind) :
    ∀ c ∈ kind.keyword.toList, (!c.isDigit) = true := by
  have letters : kind.keyword.toList.all (!·.isDigit) = true := by
    cases kind <;> decide
  exact List.all_eq_true.1 letters

theorem keyword_injective {first second : FieldKind} (same : first.keyword = second.keyword) :
    first = second := by
  revert same
  cases first <;> cases second <;> decide

/-- The letters of a numbered key are the keyword of its kind. -/
theorem numberedKey_letters (kind : FieldKind) (n : Nat) :
    (numberedKey kind n).toList.takeWhile (!·.isDigit) = kind.keyword.toList := by
  have letters := keyword_letters kind
  unfold numberedKey
  split
  · exact List.takeWhile_eq_self_iff.2 letters
  · rw [String.toList_append, List.takeWhile_append_of_pos letters]
    cases digits : (toString n).toList with
    | nil => rw [List.takeWhile_nil, List.append_nil]
    | cons c cs =>
      have digit := isDigit_toString n c (digits ▸ List.mem_cons_self)
      rw [List.takeWhile_cons_of_neg (by simp [digit]), List.append_nil]

theorem numberedKey_injective {first second : FieldKind} {n m : Nat}
    (same : numberedKey first n = numberedKey second m) : first = second ∧ n = m := by
  have letters := numberedKey_letters first n
  rw [same, numberedKey_letters] at letters
  obtain rfl := keyword_injective (String.toList_injective letters)
  refine ⟨rfl, ?_⟩
  have longer {n : Nat} : second.keyword ≠ second.keyword ++ toString n := by
    intro equal
    have chars := congrArg String.toList equal
    rw [String.toList_append, List.self_eq_append_right] at chars
    simp at chars
  unfold numberedKey at same
  split at same
  · next one =>
    split at same
    · next one' => rw [one, one']
    · exact absurd same longer
  · split at same
    · exact absurd same.symm longer
    · apply toString_injective
      have chars := congrArg String.toList same
      rw [String.toList_append, String.toList_append] at chars
      exact String.toList_injective (List.append_cancel_left chars)

/-- A kind hands out no key twice. -/
theorem nodup_countedKeys (counts : KeyCounts) (kinds : List FieldKind) :
    (countedKeys counts kinds).Nodup := by
  induction kinds generalizing counts with
  | nil => exact List.nodup_nil
  | cons kind more ih =>
    refine List.nodup_cons.2 ⟨fun again => ?_, ih _⟩
    obtain ⟨kind', n, above, same⟩ := mem_countedKeys again
    have here : (nextKey counts kind).1 = numberedKey kind (counts kind + 1) := rfl
    obtain ⟨rfl, rfl⟩ := numberedKey_injective (here.symm.trans same)
    simp [nextKey] at above

/-- A counted key consists of letters and digits. -/
theorem underscore_notMem_countedKeys {counts : KeyCounts} {kinds : List FieldKind}
    {key : String} (member : key ∈ countedKeys counts kinds) : '_' ∉ key.toList := by
  obtain ⟨kind, n, -, rfl⟩ := mem_countedKeys member
  have keyword : '_' ∉ kind.keyword.toList := by
    cases kind <;> decide
  unfold numberedKey
  split
  · exact keyword
  · rw [String.toList_append, List.mem_append, not_or]
    refine ⟨keyword, fun digit => ?_⟩
    have digit := isDigit_toString n '_' digit
    revert digit
    decide

/-! ### Keys that are handed out -/

theorem freeKey_toList (value : String) :
    (KeyOrigin.freeKey value).toList = "other_".toList ++ value.toList :=
  String.toList_append

theorem freeKey_injective : Function.Injective KeyOrigin.freeKey := by
  intro value value' same
  have chars := congrArg String.toList same
  rw [freeKey_toList, freeKey_toList] at chars
  exact String.toList_injective (List.append_cancel_left chars)

theorem underscore_mem_freeKey (value : String) : '_' ∈ (KeyOrigin.freeKey value).toList := by
  rw [freeKey_toList]
  exact List.mem_append_left _ (by decide)

/-- Keys that are handed out never repeat each other, unless an option has two free texts. -/
theorem nodup_handedKeys_iff (os : List KeyOrigin) :
    (handedKeys os).Nodup ↔ (freeValues os).Nodup := by
  have disjoint : List.Disjoint ((freeValues os).map KeyOrigin.freeKey)
      (countedKeys (fun _ => 0) (countedKinds os)) := by
    intro key free counted
    obtain ⟨value, -, rfl⟩ := List.mem_map.1 free
    exact underscore_notMem_countedKeys counted (underscore_mem_freeKey value)
  rw [handedKeys, List.nodup_append', List.nodup_map_iff freeKey_injective]
  exact ⟨fun parts => parts.1, fun free => ⟨free, nodup_countedKeys _ _, disjoint⟩⟩

/-- A group is not called like a free text. -/
theorem freeKey_ne_group (value : String) :
    ¬(KeyOrigin.freeKey value = radioKey ∨ KeyOrigin.freeKey value = checkboxKey) := by
  have underscore := underscore_mem_freeKey value
  have groups : '_' ∉ radioKey.toList ∧ '_' ∉ checkboxKey.toList := by
    decide
  rintro (same | same)
  · exact groups.1 (same ▸ underscore)
  · exact groups.2 (same ▸ underscore)

/-- A group is not called like a counted key. -/
theorem group_notMem_countedKeys {counts : KeyCounts} {kinds : List FieldKind} {key : String}
    (group : key = radioKey ∨ key = checkboxKey) : key ∉ countedKeys counts kinds := by
  intro counted
  obtain ⟨kind, n, -, same⟩ := mem_countedKeys counted
  have letters := numberedKey_letters kind n
  rw [← same] at letters
  rcases group with rfl | rfl
  · revert letters
    cases kind <;> decide
  · revert letters
    cases kind <;> decide

end Questionnaire.Definition
