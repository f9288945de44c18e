import Questionnaire.Proofs.Definition.CopiedGrids

/-! What the copies of one loop body declare. The copies of different iterations have nothing in
common, and none of it is a marker's. Within a copy two names fall together exactly where one of
them is the form of the other. -/
namespace Questionnaire.Definition

open Expr.Token (IsName)
open Text

/-- What a name of the body becomes in a copy. -/
def LoopBlock.nameIn (b : LoopBlock) (iteration : Nat) (n : String) : String :=
  renamed (formOf (declaredIds b.body) iteration) n

/-- A body that declares the same when the index is written out, in headers that end. -/
structure LoopBlock.Steady (b : LoopBlock) (iteration : Nat) : Prop where
  same : declaredIds (writeIndex b.body iteration) = declaredIds b.body
  close : HeadersClose (writeIndex b.body iteration)

/-- What the copies of a body declare, and what of it can be told apart. -/
structure LoopBlock.Declares (b : LoopBlock) : Prop where
  copy : ∀ i, HeadersClose (writeIndex b.body i) →
    declarations (b.copy i) = (declarations (writeIndex b.body i)).map (b.nameIn i)
  form : ∀ i, ∀ n ∈ declaredIds b.body, ∃ m ∈ declaredIds b.body,
    iterationId m i ∉ declaredIds b.body ∧ b.nameIn i n = iterationId m i
  unmarked : ∀ i, ∀ n ∈ declaredIds b.body, ∀ m, LoopMarker.ofId? (b.nameIn i n) = some m →
    "__CONT" ∈ declaredIds b.body
  apart : ∀ i j, b.Steady i → b.Steady j → i ≠ j →
    ∀ n ∈ declaredIds (b.copy i), n ∉ declaredIds (b.copy j)
  injective : ∀ i, (∀ n ∈ declaredIds b.body, ∀ m ∈ declaredIds b.body,
    b.nameIn i n = b.nameIn i m → n = m) ↔
      ∀ n ∈ declaredIds b.body, iterationId n i ∉ declaredIds b.body
  once : ∀ i, (∀ n ∈ declaredIds b.body, iterationId n i ∉ declaredIds b.body) →
    ∀ n ∈ declaredIds b.body, b.nameIn i n = iterationId n i
  nodup : ∀ i, b.Steady i → (declarations (writeIndex b.body i)).Nodup →
    ((declarations (b.copy i)).Nodup ↔
      ∀ n ∈ declaredIds b.body, iterationId n i ∉ declaredIds b.body)

section Declares
variable {b : LoopBlock} {iteration : Nat} {n : String}

theorem LoopBlock.copy_eq (named : ∀ n ∈ declaredIds b.body, IsName n.toList) (iteration : Nat) :
    b.copy iteration =
      copied (formOf (declaredIds b.body) iteration) (writeIndex b.body iteration) := by
  have rename : renameAll (declaredIds b.body) iteration =
      mapWords (formOf (declaredIds b.body) iteration) :=
    funext (renameAll_eq_foldl named iteration)
  rw [copy, renameDeclared, rename, copied]

theorem LoopBlock.nameIn_toList (named : ∀ n ∈ declaredIds b.body, IsName n.toList)
    (iteration : Nat) (member : n ∈ declaredIds b.body) :
    (b.nameIn iteration n).toList = formOf (declaredIds b.body) iteration n.toList :=
  renamed_word (named n member).run

/-- A name of the body ends in the form of a name that is not declared. -/
theorem LoopBlock.nameIn_form (named : ∀ n ∈ declaredIds b.body, IsName n.toList)
    (iteration : Nat) (member : n ∈ declaredIds b.body) : ∃ m ∈ declaredIds b.body,
      iterationId m iteration ∉ declaredIds b.body ∧
        b.nameIn iteration n = iterationId m iteration := by
  obtain ⟨m, member', stops, ends⟩ := formOf_name (sorted_declaredIds b.body) iteration member
  refine ⟨m, member', stops, String.toList_inj.1 ?_⟩
  rw [nameIn_toList named iteration member, ends]

theorem LoopBlock.declarations_copy (named : ∀ n ∈ declaredIds b.body, IsName n.toList)
    (close : HeadersClose (writeIndex b.body iteration)) : declarations (b.copy iteration) =
      (declarations (writeIndex b.body iteration)).map (b.nameIn iteration) := by
  rw [copy_eq named]
  exact declarations_copied (formOf_lengthens (sorted_declaredIds b.body) iteration) close

/-- What a copy declares is a name of the body in its form. -/
theorem LoopBlock.Steady.mem_copy (steady : b.Steady iteration)
    (named : ∀ n ∈ declaredIds b.body, IsName n.toList)
    (declared : n ∈ declaredIds (b.copy iteration)) :
    ∃ m ∈ declaredIds b.body, n = iterationId m iteration := by
  rw [mem_declaredIds_iff, LoopBlock.declarations_copy named steady.close, List.mem_map] at declared
  obtain ⟨m, member, rfl⟩ := declared
  rw [← mem_declaredIds_iff, steady.same] at member
  obtain ⟨m', member', -, same⟩ := LoopBlock.nameIn_form named iteration member
  exact ⟨m', member', same⟩

theorem LoopBlock.nameIn_injective_iff (named : ∀ n ∈ declaredIds b.body, IsName n.toList)
    (iteration : Nat) : (∀ n ∈ declaredIds b.body, ∀ m ∈ declaredIds b.body,
      b.nameIn iteration n = b.nameIn iteration m → n = m) ↔
        ∀ n ∈ declaredIds b.body, iterationId n iteration ∉ declaredIds b.body := by
  rw [← formOf_injective_iff (sorted_declaredIds b.body)]
  refine forall₂_congr fun n member => forall₂_congr fun m member' => ?_
  rw [← String.toList_inj, nameIn_toList named iteration member,
    nameIn_toList named iteration member']

theorem LoopBlock.declares (named : ∀ n ∈ declaredIds b.body, IsName n.toList) : b.Declares where
  copy _ close := declarations_copy named close
  form i _ member := nameIn_form named i member
  unmarked i n member m read := by
    obtain ⟨stem, member', -, same⟩ := nameIn_form named i member
    rw [same, LoopMarker.ofId?_iterationId] at read
    exact read.1 ▸ member'
  apart i j steady steady' other n declared declared' := by
    obtain ⟨stem, -, same⟩ := steady.mem_copy named declared
    obtain ⟨stem', -, same'⟩ := steady'.mem_copy named declared'
    exact other (iterationId_inj.1 (same.symm.trans same')).2
  injective := nameIn_injective_iff named
  once i form n member := by
    rw [← String.toList_inj, nameIn_toList named i member, formOf_eq form member]
  nodup i steady nodup := by
    rw [declarations_copy named steady.close, List.nodup_map_iff_inj_on nodup,
      ← nameIn_injective_iff named]
    simp only [← mem_declaredIds_iff, steady.same]

end Declares

/-- Stem and iteration are read off the identifier of a copy, a marker is read off its own, and no
identifier of a copy is read as a marker, save that of one stem. So what the copies of a body
declare is told apart, unless a declared name is the form of another one. -/
theorem generated_ids (b : LoopBlock) :
    (∀ stem stem' i i', iterationId stem i = iterationId stem' i' ↔ stem = stem' ∧ i = i') ∧
    (∀ stem i, stemOf (iterationId stem i).toList i = stem.toList) ∧
    (∀ m : LoopMarker, m.Fits → LoopMarker.ofId? m.id = some m) ∧
    (∀ m m' : LoopMarker, m.Fits → m'.Fits → m.id = m'.id → m = m') ∧
    (∀ stem i m, LoopMarker.ofId? (iterationId stem i) = some m ↔
      stem = "__CONT" ∧ i ≤ largestUInt32 ∧ m = .continuation i i) ∧
    ((∀ n ∈ declaredIds b.body, IsName n.toList) → b.Declares) := by
  refine ⟨fun _ _ _ _ => iterationId_inj, stemOf_iterationId, fun _ => LoopMarker.ofId?_id,
    fun m m' fits fits' same => ?_, fun _ _ _ => LoopMarker.ofId?_iterationId,
    b.declares⟩
  have read := LoopMarker.ofId?_id fits
  rw [same, LoopMarker.ofId?_id fits'] at read
  exact (Option.some.inj read).symm

/-- A loop over two questions. -/
def pairLoop : LoopBlock := ⟨" bound=N max=2".toList, "\n[A]\n[B]\n".toList⟩

theorem generated_ids_pair : declarations (pairLoop.copy 2) = ["A_2_2", "B_2_2"] ∧
    (declarations (pairLoop.copy 2)).Nodup ∧
    ∀ n ∈ declaredIds (pairLoop.copy 1), n ∉ declaredIds (pairLoop.copy 2) := by
  have names : declaredIds pairLoop.body = ["A", "B"] := by cbv
  have named : ∀ n ∈ declaredIds pairLoop.body, IsName n.toList := by
    rw [names, List.forall_mem_cons, List.forall_mem_singleton]
    exact ⟨⟨'A', [], rfl, rfl, List.forall_mem_nil _⟩, ⟨'B', [], rfl, rfl, List.forall_mem_nil _⟩⟩
  have form : ∀ n ∈ declaredIds pairLoop.body, iterationId n 2 ∉ declaredIds pairLoop.body := by
    rw [names]
    decide
  have written (i : Nat) (same : writeIndex pairLoop.body i = pairLoop.body) :
      pairLoop.Steady i := by
    have close : HeadersClose pairLoop.body := by
      have split : lines pairLoop.body = ["\n".toList, "[A]\n".toList, "[B]\n".toList] := by cbv
      rw [HeadersClose, split]
      decide
    exact ⟨by rw [same], by rwa [same]⟩
  have first : pairLoop.Steady 1 := written 1 (by cbv)
  have second : pairLoop.Steady 2 := written 2 (by cbv)
  obtain ⟨-, -, -, -, -, declared⟩ := generated_ids pairLoop
  have declares := declared named
  have listed : declarations (writeIndex pairLoop.body 2) = ["A", "B"] := by cbv
  refine ⟨?_, (declares.nodup 2 second (by rw [listed]; decide)).2 form,
    declares.apart 1 2 first second (by decide)⟩
  rw [declares.copy 2 second.close, listed, List.map_cons, List.map_singleton,
    declares.once 2 form "A" (by rw [names]; decide),
    declares.once 2 form "B" (by rw [names]; decide)]
  rfl

/-- A loop in which one identifier is the form of the other one. -/
def formedLoop : LoopBlock := ⟨" bound=N max=1".toList, "\n[A]\n[A_1_1]\n".toList⟩

/-- Both questions of a copy get the same identifier. -/
theorem extended_ids_clash : declarations formedLoop.body = ["A", "A_1_1"] ∧
    formedLoop.copy 1 = "\n[A_1_1_1_1]\n[A_1_1_1_1]\n".toList ∧
    declarations (formedLoop.copy 1) = ["A_1_1_1_1", "A_1_1_1_1"] := by
  exact ⟨by cbv, by cbv, by cbv⟩

end Questionnaire.Definition
