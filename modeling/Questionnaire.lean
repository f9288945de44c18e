import Questionnaire.Main
import Questionnaire.Proofs.Dict
import Questionnaire.Proofs.Navigation.LoopBound
import Questionnaire.Proofs.Survey.Compiled
import Questionnaire.Proofs.Survey.Position
import Questionnaire.Proofs.Navigation.Layout
import Questionnaire.Proofs.Navigation.LoopScan
import Questionnaire.Proofs.Navigation.Step
import Questionnaire.Proofs.Navigation.Walk
import Questionnaire.Proofs.Answer.Store
import Questionnaire.Proofs.Answer.Stored
import Questionnaire.Proofs.Navigation.History
import Questionnaire.Proofs.Navigation.Trail
import Questionnaire.Proofs.Navigation.Course
import Questionnaire.Proofs.Navigation.Retrace
import Questionnaire.Proofs.Navigation.Queue
import Questionnaire.Proofs.Navigation.Invariant
import Questionnaire.Proofs.Session.Sitting
import Questionnaire.Proofs.Session.Agreement
import Questionnaire.Proofs.Session.Rollback
import Questionnaire.Proofs.Session.Resume
import Questionnaire.Proofs.Json.Text
import Questionnaire.Proofs.Definition.HeaderLine
import Questionnaire.Proofs.Definition.Heads
import Questionnaire.Proofs.Definition.Pieces
import Questionnaire.Proofs.Definition.Entry
import Questionnaire.Proofs.Definition.GridHeader
import Questionnaire.Proofs.Definition.Annotation
import Questionnaire.Proofs.Definition.Options
import Questionnaire.Proofs.Definition.Opening
import Questionnaire.Proofs.Definition.Markers
import Questionnaire.Proofs.Definition.Unrolled
import Questionnaire.Proofs.Survey.Drafted
import Questionnaire.Proofs.Definition.Numbered
import Questionnaire.Proofs.Navigation.Described
import Questionnaire.Proofs.Survey.Loops
import Questionnaire.Proofs.Answer.Lookup
import Questionnaire.Proofs.Session.ResumeFailure
import Questionnaire.Proofs.Answer.LegacyIndex
import Questionnaire.Proofs.Session.ReadBack
import Questionnaire.Proofs.Session.Cleared
import Questionnaire.Proofs.Definition.Conditions
import Questionnaire.Proofs.Navigation.Resumed
import Questionnaire.Proofs.Answer.Overlay
import Questionnaire.Proofs.Answer.Cache
import Questionnaire.Proofs.Value.Missing
import Questionnaire.Proofs.Expr.Nested
import Questionnaire.Proofs.Expr.Reduction
import Questionnaire.Proofs.Expr.Unanswered
import Questionnaire.Proofs.Session.Mandate
import Questionnaire.Proofs.Definition.Table
import Questionnaire.Proofs.Survey.Apart
import Questionnaire.Proofs.Survey.Identity
import Questionnaire.Proofs.Survey.MarkupText
import Questionnaire.Proofs.Survey.Controls
import Questionnaire.Proofs.Survey.ControlKey
import Questionnaire.Proofs.Definition.FieldKeys
import Questionnaire.Proofs.Survey.RenderedControls
import Questionnaire.Proofs.Survey.FieldCount
import Questionnaire.Proofs.Answer.Exclusive
import Questionnaire.Proofs.Session.Exclusive
import Questionnaire.Proofs.Session.Moves
import Questionnaire.Proofs.Session.Handed
import Questionnaire.Proofs.Session.Shared
import Questionnaire.Proofs.Definition.Segments
import Questionnaire.Proofs.Definition.Segmentation
import Questionnaire.Proofs.Survey.LineEndings
import Questionnaire.Proofs.Navigation.Forward
import Questionnaire.Proofs.Navigation.StepLimit
import Questionnaire.Proofs.Navigation.InPlace
import Questionnaire.Proofs.Expr.CallTree
import Questionnaire.Proofs.Expr.Precedence
import Questionnaire.Proofs.Expr.Derivation
import Questionnaire.Proofs.YearMonth.Shift
import Questionnaire.Proofs.Value.Comparison
import Questionnaire.Proofs.Navigation.Clamped
import Questionnaire.Proofs.Expr.CallForm
import Questionnaire.Proofs.Definition.GridArguments
import Questionnaire.Proofs.Definition.Outline
import Questionnaire.Proofs.Survey.Declarations
import Questionnaire.Proofs.Definition.KeySources
import Questionnaire.Proofs.Survey.KeysApart
import Questionnaire.Proofs.Survey.MarkupRead
import Questionnaire.Proofs.Survey.AlikeMarkup
import Questionnaire.Proofs.Survey.TextPositions
import Questionnaire.Proofs.Answer.Every
import Questionnaire.Proofs.Answer.Filled
import Questionnaire.Proofs.Json.Tree
import Questionnaire.Proofs.Answer.LastLeaf
import Questionnaire.Proofs.Survey.StartTags
import Questionnaire.Proofs.Survey.ComputedSpans
import Questionnaire.Proofs.Report.Prompt
import Questionnaire.Proofs.Survey.InputNames
import Questionnaire.Proofs.YearMonth.Words
import Questionnaire.Proofs.Value.MonthWords
import Questionnaire.Proofs.Text.Reworded
import Questionnaire.Proofs.Definition.IterationIds
import Questionnaire.Proofs.Definition.Forms
import Questionnaire.Proofs.Definition.CopiedHeaders
import Questionnaire.Proofs.Definition.CopiedGrids
import Questionnaire.Proofs.Definition.CopiedIds
import Questionnaire.Proofs.Navigation.Remaining
import Questionnaire.Proofs.CommandLine.ScriptedWalk
