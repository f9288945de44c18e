import Questionnaire.Definition.LoopBlock
import Questionnaire.Definition.Rename
import Questionnaire.Definition.Span
import Questionnaire.Error
import Questionnaire.Limits

/-! Unrolling of loop blocks. A block becomes as many copies of its body as it may
have iterations, each followed by a continuation marker, and an end marker behind
the last. The first question or grid of every copy is annotated with the loop, its
bound and the iteration. -/
namespace Questionnaire.Definition

open Text

def previousIndexToken : List Char := ['$', 'p', 'r', 'e', 'v']

/-- The header that begins a line, as far as an annotation can be inserted: what
stands up to the end of its mandate, and the identifier. -/
def takeEntryHeader? (line : List Char) : Option (List Char × List Char) := do
  let (blanks, rest) := takeRun isLineBlank line
  let rest ← stripLeading? ['['] rest
  let (id, rest) ← takeQuestionId? rest
  let (mandate, rest) := match rest with
    | '!' :: rest => (['!'], rest)
    | '?' :: rest => (['?'], rest)
    | rest => ([], rest)
  let next ← rest.head?
  if next == ']' || next == ',' then some (blanks ++ '[' :: id ++ mandate, id) else none

/-- Where the annotation of a copy goes: the text before that place, the text behind
it, and the identifier of the first question or grid. -/
structure EntryPoint where
  before : List Char
  after : List Char
  id : List Char

/-- The entry point at the front of a text that begins a line. -/
def entryAhead? (cs : List Char) : Option EntryPoint :=
  match GridBlock.take? cs with
  | some (b, _) =>
    let before := b.indent ++ GridBlock.keyword ++ b.gap ++ b.id ++ '|' :: b.args
    some ⟨before, cs.drop before.length, b.id⟩
  | none =>
    (takeEntryHeader? cs).map fun (before, id) => ⟨before, cs.drop before.length, id⟩

def entryPoint? (cs : List Char) : Option EntryPoint :=
  match cs with
  | [] => none
  | c :: rest =>
    match entryAhead? (c :: rest) with
    | some entry => some entry
    | none =>
      (entryPoint? (takeLine (c :: rest)).2).map fun entry =>
        { entry with before := (takeLine (c :: rest)).1 ++ entry.before }
termination_by cs.length
decreasing_by exact takeLine_rest_length c rest

structure LoopHeader where
  index : Nat
  bound : String
  maximum : Nat

/-- The options that mark the first question of an iteration. -/
def annotation (loop : LoopHeader) (iteration : Nat) (stem : String) : String :=
  ",loop=" ++ toString loop.index ++ ",bound=" ++ loop.bound ++ ",max=" ++ toString loop.maximum ++
    ",iteration=" ++ toString iteration ++ ",base=" ++ stem

/-- An identifier without its iteration, if it has it. -/
def stemOf (id : List Char) (iteration : Nat) : List Char :=
  (stripTrailing? (iterationSuffix iteration).toList id).getD id

def markerLine (m : LoopMarker) : List Char := ('[' :: m.id.toList) ++ [']', '\n']

def endsLine (cs : List Char) : List Char :=
  if cs.getLast? == some '\n' then cs else cs ++ ['\n']

/-- The body with the loop index and its predecessor written out. -/
def writeIndex (body : List Char) (iteration : Nat) : List Char :=
  replaceLiteral loopIndexToken.toList (toString iteration).toList
    (replaceLiteral previousIndexToken (toString (iteration - 1)).toList body)

/-- One iteration with its continuation marker. -/
def unrollOnce? (names : List String) (loop : LoopHeader) (body : List Char)
    (iteration : Nat) : Option (List Char) := do
  let copy := renameDeclared names iteration (writeIndex body iteration)
  let entry ← entryPoint? copy
  let note := annotation loop iteration (String.ofList (stemOf entry.id iteration))
  return endsLine (entry.before ++ note.toList ++ entry.after) ++
    markerLine (.continuation loop.index iteration)

def unroll? (loop : LoopHeader) (body : List Char) : Option (List Char) := do
  let names := declaredIds body
  let copies ← (List.range loop.maximum).mapM fun i => unrollOnce? names loop body (i + 1)
  return copies.flatten ++ markerLine (.endOfLoop loop.index)

def readHeader (limits : Limits) (index : Nat) (b : LoopBlock)
    (fail : DefinitionFault → SurveyError) : Except SurveyError LoopHeader := do
  if containsLiteral LoopBlock.openTag b.body then .error (fail .nestedLoop)
  match b.attribute? "bound" with
  | none => .error (fail .loopWithoutBound)
  | some bound =>
    match (b.attribute? "max").bind readUInt32? with
    | none => .error (fail .loopWithoutMaximum)
    | some maximum =>
      if maximum > limits.maxLoopIterations then
        .error (.limit (.loopIterations limits.maxLoopIterations maximum))
      else .ok ⟨index, bound, maximum⟩

/-- The place of a block, given the text before it. Its column counts bytes. -/
def blockSpan (before : List Char) (b : LoopBlock) : Span :=
  let start := byteLength before
  let lineBefore := before.reverse.takeWhile (· != '\n')
  ⟨start, start + byteLength b.toChars, before.count '\n' + 1, byteLength lineBefore + 1⟩

/-- Unrolls the blocks of `cs`, given the text before it and the number of blocks in
that text. -/
def unrollAll (limits : Limits) (sourceId : String) (index : Nat) (before cs : List Char) :
    Except SurveyError (List Char) :=
  match h : LoopBlock.find? cs with
  | none => .ok cs
  | some (plain, b, rest) => do
    have := LoopBlock.find?_length h
    let preceding := before ++ plain
    let fail (fault : DefinitionFault) : SurveyError :=
      .definition fault (blockSpan preceding b) sourceId
    let loop ← readHeader limits index b fail
    match unroll? loop b.body with
    | none => .error (fail .loopWithoutEntry)
    | some expanded =>
      let further ← unrollAll limits sourceId (index + 1) (preceding ++ b.toChars) rest
      return plain ++ expanded ++ further
termination_by cs.length

def expandLoops (limits : Limits) (sourceId content : String) : Except SurveyError String :=
  (unrollAll limits sourceId 0 [] content.toList).map String.ofList

end Questionnaire.Definition
