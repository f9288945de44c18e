import Questionnaire.CommandLine.Execution
import Std.Time.Zoned

/-! The command line on the files of this machine. Of those only the files that the
arguments name are seen: directories are not searched. -/
namespace Questionnaire

/-- The content of a file, `none` where there is no readable text. -/
def loadFile (path : String) : IO (Option (String × String)) := do
  try return some (path, ← IO.FS.readFile path)
  catch _ => return none

def loadFiles (paths : List String) : IO Files := do
  let start := Files.namesFrom [] (toString (← IO.currentDir))
  return .ofList start (← paths.filterMapM loadFile)

def currentMoment : IO Moment := do
  let now ← Std.Time.PlainDateTime.now
  return ⟨now.year.toInt, now.month.toInt.toNat, now.day.toInt.toNat, now.hour.toInt.toNat,
    now.minute.toInt.toNat⟩

end Questionnaire

open Questionnaire in
def main (args : List String) : IO UInt32 := do
  let paths := ((Command.read? args).map Command.paths).getD []
  let result := Command.executeLine (← loadFiles paths) (some (← currentMoment)) args
  IO.print result.output
  for complaint in result.complaints do IO.eprintln complaint
  return result.code.toUInt32
