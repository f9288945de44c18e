/-! Bounds that keep runaway definitions in check. -/
namespace Questionnaire

structure Limits where
  /-- Bytes of a definition. -/
  maxDefinitionBytes : Nat := 5 * 1024 * 1024
  /-- Nesting of an expression. -/
  maxExpressionDepth : Nat := 64
  /-- Iterations of a loop, all of which are written out. -/
  maxLoopIterations : Nat := 100
  /-- Candidates that one move may look at. -/
  maxNavigationSteps : Nat := 10000
deriving DecidableEq

end Questionnaire
