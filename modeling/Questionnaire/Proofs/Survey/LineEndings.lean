import Questionnaire.Proofs.LineEnding.Questions
import Questionnaire.Proofs.LineEnding.Unrolled
import Questionnaire.Proofs.Survey.Compiled

/-! Compilation and line endings. A definition with a carriage return in front of every line feed
compiles exactly if the one without does, to a survey that differs in spans and raw bodies only,
as long as no grid block that the program finds spans lines: neither in the unrolled text, where
tables are taken out, nor in the body of a loop block, whose declared names are renamed. -/
namespace Questionnaire

/-- Records that differ in spans and in the line ends of raw bodies. -/
structure Record.Alike (r s : Record) : Prop where
  id : s.id = r.id
  directives : s.directives = r.directives
  content : s.content = r.content
  membership : s.membership = r.membership
  rawBody : Option.Rel (fun x y => Definition.Returns x.toList y.toList) r.rawBody s.rawBody

/-- Surveys whose records differ in spans and raw bodies only. -/
structure Survey.Alike (s t : Survey) : Prop where
  name : t.name = s.name
  records : List.Forall₂ Record.Alike s.records t.records
  rows : List.Forall₂ Record.Alike s.rows t.rows
  fields : t.records.map Record.fields = s.records.map Record.fields
  loops : t.loops = s.loops
  rowOwners : t.rowOwners = s.rowOwners

structure Draft.Alike (d e : Draft) : Prop where
  records : List.Forall₂ Record.Alike d.records e.records
  rows : List.Forall₂ Record.Alike d.rows e.rows
  tables : e.tables = d.tables

/-! ### Records -/

namespace Record

theorem Alike.fields {r s : Record} (alike : r.Alike s) : s.fields = r.fields := by
  rw [Record.fields, Record.fields, alike.content]

theorem ofQuestion_alike {p q : QuestionText} (alike : p.Alike q) :
    (ofQuestion p).Alike (ofQuestion q) := by
  rw [ofQuestion, ofQuestion, alike.id, alike.directives, alike.readBody]
  cases LoopMarker.ofId? p.id with
  | some m => exact ⟨rfl, rfl, rfl, rfl, .none⟩
  | none => exact ⟨rfl, rfl, rfl, rfl, .some alike.body⟩

theorem ofGrid_alike {p q : QuestionText} (alike : p.Alike q) (table : GridTable) :
    (ofGrid p table).Alike (ofGrid q table) :=
  ⟨alike.id, alike.directives, rfl, rfl, .none⟩

theorem ofRow_alike (table : GridTable) (span span' : Span) (index : Nat) (row : GridRow) :
    (ofRow table span index row).Alike (ofRow table span' index row) :=
  ⟨rfl, rfl, rfl, rfl, .none⟩

end Record

/-! ### Drafts -/

namespace Draft
variable {d e : Draft}

theorem Alike.push (alike : d.Alike e) {r s : Record} (same : r.Alike s) :
    (d.push r).Alike (e.push s) := by
  have ids {rs ss : List Record} (related : List.Forall₂ Record.Alike rs ss) :
      ss.any (·.id == s.id) = rs.any (·.id == r.id) := by
    induction related with
    | nil => rfl
    | cons first _ ih => rw [List.any_cons, List.any_cons, ih, first.id, same.id]
  rw [Draft.push, Draft.push, declares, declares, ids alike.records, ids alike.rows]
  split
  · exact alike
  · exact ⟨List.rel_append alike.records (.cons same .nil), alike.rows, alike.tables⟩

theorem Alike.addRows (alike : d.Alike e) (table : GridTable) (span span' : Span) :
    (d.addRows table span).Alike (e.addRows table span') := by
  refine ⟨alike.records, List.rel_append alike.rows ?_, alike.tables⟩
  exact related_mapIdx (fun i row => Record.ofRow_alike table span span' i row) table.rows

theorem Alike.add (alike : d.Alike e) {p q : QuestionText} (same : p.Alike q) :
    (d.add p).Alike (e.add q) := by
  rw [Draft.add, Draft.add, same.directives, same.id, alike.tables]
  cases (if p.directives.grid then d.tables.get? p.id else none) with
  | none => exact alike.push (Record.ofQuestion_alike same)
  | some table =>
    have without : ({ d with tables := d.tables.erase p.id } : Draft).Alike
        { e with tables := d.tables.erase p.id } := ⟨alike.records, alike.rows, rfl⟩
    exact (without.addRows table p.span q.span).push (Record.ofGrid_alike same table)

theorem Alike.foldl (alike : d.Alike e) {ps qs : List QuestionText}
    (related : List.Forall₂ QuestionText.Alike ps qs) :
    (ps.foldl Draft.add d).Alike (qs.foldl Draft.add e) :=
  List.rel_foldl (fun _ _ alike _ _ same => alike.add same) alike related

theorem Alike.loops (alike : d.Alike e) : e.loops = d.loops := by
  have markers (id : String) {rs ss : List Record} (related : List.Forall₂ Record.Alike rs ss) :
      ss.findIdx? (·.id == id) = rs.findIdx? (·.id == id) := by
    induction related with
    | nil => rfl
    | cons first _ ih => rw [List.findIdx?_cons, List.findIdx?_cons, ih, first.id]
  rw [Draft.loops, Draft.loops, mapIdx_related alike.records]
  intro position r s same
  rw [loopAt?, loopAt?, same.directives]
  simp only [markers _ alike.records]

theorem Alike.survey (alike : d.Alike e) (name : String) :
    (⟨name, d.records, d.rows, d.loops⟩ : Survey).Alike ⟨name, e.records, e.rows, e.loops⟩ := by
  have fields : List.Forall₂ (· = ·) (d.records.map Record.fields) (e.records.map Record.fields) :=
    List.rel_map (fun _ _ same => same.fields.symm) alike.records
  have owners : List.Forall₂ (· = ·)
      (d.rows.filterMap fun r => r.membership.map fun m => (r.id, m.grid))
      (e.rows.filterMap fun r => r.membership.map fun m => (r.id, m.grid)) :=
    List.rel_filterMap (fun _ _ same => rel_eq_iff.2 (by rw [same.membership, same.id])) alike.rows
  rw [List.forall₂_eq_eq_eq] at fields owners
  exact ⟨rfl, alike.records, alike.rows, fields.symm, alike.loops,
    congrArg Dict.ofList owners.symm⟩

end Draft

/-! ### Compilation -/

namespace Definition

/-- A text with a carriage return in front of every line feed. -/
def crlf (s : String) : String :=
  String.ofList (s.toList.flatMap fun c => if c == '\n' then ['\r', '\n'] else [c])

theorem returns_crlf {s : String} (plain : '\r' ∉ s.toList) : Returns s.toList (crlf s).toList := by
  rw [crlf, String.toList_ofList]
  generalize s.toList = cs at plain ⊢
  induction cs with
  | nil => exact .nil
  | cons c cs ih =>
    obtain ⟨here, later⟩ := not_or.1 (mt List.mem_cons.2 plain)
    rw [List.flatMap_cons]
    by_cases feed : c = '\n'
    · subst feed
      exact .feed (ih later)
    · rw [if_neg (by simpa using feed)]
      exact .same (Ne.symm here) (ih later)

/-- No grid block that is found on the way from a definition to its records spans lines. -/
structure GridsInLine (limits : Limits) (sourceId definition : String) : Prop where
  bodies : ∀ b ∈ loopBlocks (stripComments definition).toList, BlocksInLines b.body
  unrolled : ∀ text ∈ (expandLoops limits sourceId (stripComments definition)).toOption,
    BlocksInLines text.toList

instance (limits : Limits) (sourceId definition : String) :
    Decidable (GridsInLine limits sourceId definition) :=
  decidable_of_iff
    ((∀ b ∈ loopBlocks (stripComments definition).toList, BlocksInLines b.body) ∧
      ∀ text ∈ (expandLoops limits sourceId (stripComments definition)).toOption,
        BlocksInLines text.toList)
    ⟨fun both => ⟨both.1, both.2⟩, fun inLine => ⟨inLine.bodies, inLine.unrolled⟩⟩

end Definition

namespace Survey

open Definition

theorem compile_alike {limits : Limits} {sourceId left right : String}
    (returns : Returns left.toList right.toList) (inLine : GridsInLine limits sourceId left)
    (fits : left.utf8ByteSize ≤ limits.maxDefinitionBytes)
    (fits' : right.utf8ByteSize ≤ limits.maxDefinitionBytes) :
    Together Survey.Alike (compile limits sourceId left) (compile limits sourceId right) := by
  have expanded := expandLoops_alike returns.stripComments inLine.bodies limits sourceId
  rw [compile, compile]
  simp only [Nat.not_lt.2 fits, Nat.not_lt.2 fits', if_false]
  refine expanded.read.bind ?_
  rintro text text' ⟨unrolled, read⟩
  refine (extractGrids_alike unrolled (inLine.unrolled text read)).bind fun g h grids => ?_
  have start : ({ tables := g.tables } : Draft).Alike { tables := h.tables } :=
    ⟨.nil, .nil, grids.tables⟩
  have content : Returns (String.ofList g.content).toList (String.ofList h.content).toList := by
    simpa using grids.content
  have draft := start.foldl (questions_alike content)
  generalize (questions (String.ofList g.content)).foldl Draft.add { tables := g.tables } = d,
    (questions (String.ofList h.content)).foldl Draft.add { tables := h.tables } = e at draft ⊢
  have empty : e.records.isEmpty = d.records.isEmpty := by
    have records := draft.records
    generalize d.records = rs, e.records = ss at records
    cases records <;> rfl
  rw [empty]
  split
  · exact .fail
  · exact .succeed (draft.survey sourceId)

/-- Line endings do not change the survey. Where no grid block spans lines, both forms of a
definition within the limit are refused, or both compile to surveys that differ in spans and raw
bodies only. -/
theorem compile_crlf {limits : Limits} {sourceId definition : String}
    (plain : '\r' ∉ definition.toList) (inLine : GridsInLine limits sourceId definition)
    (fits : definition.utf8ByteSize ≤ limits.maxDefinitionBytes)
    (fits' : (crlf definition).utf8ByteSize ≤ limits.maxDefinitionBytes) :
    Together Survey.Alike (compile limits sourceId definition)
      (compile limits sourceId (crlf definition)) :=
  compile_alike (returns_crlf plain) inLine fits fits'

/-- A loop and a grid, with more than one line. -/
def visitText : String := "[A]\n<loop bound=A max=1>\n[Q]\nx\n</loop>\n|grid G||y|R=r|1=c|\n"

theorem compile_crlf_visit : '\r' ∉ visitText.toList ∧ GridsInLine {} "visit" visitText ∧
    ∃ s t, (compile {} "visit" visitText).toOption = some s ∧
      (compile {} "visit" (crlf visitText)).toOption = some t ∧ s.Alike t ∧
      s.records.map Record.id = ["A", "Q_1_1", "__CONT_0_1", "__ENDLOOP_0", "G"] := by
  have plain : '\r' ∉ visitText.toList := by decide
  have inLine : GridsInLine {} "visit" visitText := by decide +kernel
  have fits : visitText.utf8ByteSize ≤ ({} : Limits).maxDefinitionBytes := by decide +kernel
  have fits' : (crlf visitText).utf8ByteSize ≤ ({} : Limits).maxDefinitionBytes := by
    decide +kernel
  have ids : (compile {} "visit" visitText).toOption.map (fun s => s.records.map Record.id) =
      some ["A", "Q_1_1", "__CONT_0_1", "__ENDLOOP_0", "G"] := by
    rw [compile_eq_chars fits]
    decide +kernel
  obtain ⟨s, accepted, records⟩ := Option.map_eq_some_iff.1 ids
  have both := compile_crlf plain inLine fits fits'
  refine ⟨plain, inLine, s, ?_⟩
  generalize compile {} "visit" visitText = a, compile {} "visit" (crlf visitText) = b
    at both accepted ⊢
  cases both with
  | fail => cases accepted
  | @succeed s' t alike =>
    obtain rfl := Option.some.inj accepted
    exact ⟨t, accepted, rfl, alike, records⟩

/-- A definition none of whose grid blocks spans lines, and what is read otherwise off its survey
if the lines end with returns. -/
structure ShowsReturns {α : Type} (definition : String) (read : Survey → α) (feeds returns : α) :
    Prop where
  plain : '\r' ∉ definition.toList
  written : BlocksInLines definition.toList
  stripped : BlocksInLines (stripComments definition).toList
  fits : definition.utf8ByteSize ≤ ({} : Limits).maxDefinitionBytes
  fits' : (crlf definition).utf8ByteSize ≤ ({} : Limits).maxDefinitionBytes
  feeds : (compile {} "visit" definition).toOption.map read = some feeds
  returns : (compile {} "visit" (crlf definition)).toOption.map read = some returns

theorem ShowsReturns.of_chars {α : Type} {definition : String} {read : Survey → α}
    {feeds returns : α} (plain : '\r' ∉ definition.toList)
    (written : BlocksInLines definition.toList)
    (stripped : BlocksInLines (stripComments definition).toList)
    (fits : definition.utf8ByteSize ≤ ({} : Limits).maxDefinitionBytes)
    (fits' : (crlf definition).utf8ByteSize ≤ ({} : Limits).maxDefinitionBytes)
    (first : (compileChars {} "visit" definition).toOption.map read = some feeds)
    (second : (compileChars {} "visit" (crlf definition)).toOption.map read = some returns) :
    ShowsReturns definition read feeds returns := by
  rw [← compile_eq_chars fits] at first
  rw [← compile_eq_chars fits'] at second
  exact ⟨plain, written, stripped, fits, fits', first, second⟩

/-- No line begins a grid block that is closed, but in the second copy of the body its first line
closes the block that the first copy opens. -/
def unclosedText : String := "[A]\n<loop bound=A max=2>\n[Q]\n|1=c|\n|grid G||x\ny|R=r\n</loop>"

/-- Only the body by itself begins with a grid block. Of the names of its rows the second comes
first if there is a return in the first. -/
def inlineText : String :=
  "[A]\nx <loop bound=A max=1>|grid G||x|A\nB=r;A\x0bA\nB C=s|1=c|\n</loop>"

def sharedTexts (s : Survey) : List String :=
  s.records.filterMap fun r =>
    match r.content with
    | .grid table => some table.sharedText
    | _ => none

def lastLine? (s : Survey) : Option BodyLine := s.records.head?.bind fun r => r.lines.getLast?

/-- Blocks that only come about between copies of a loop body, or in the body by itself, show how
the lines of the definition end. -/
theorem returns_shown : ShowsReturns unclosedText sharedTexts ["x\ny"] ["x\r\ny"] ∧
    ShowsReturns inlineText lastLine? (some (.text [.text "B_1_1 C=s|1=c|"]))
      (some (.text [.text "B_1_1 C_1_1=s|1=c|"])) := by
  constructor
  · apply ShowsReturns.of_chars
    all_goals decide +kernel
  · apply ShowsReturns.of_chars
    all_goals decide +kernel

end Survey

end Questionnaire
