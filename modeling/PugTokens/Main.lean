import PugTokens.Command.Report

/-! # The command line

Reads the document that the arguments ask for, prints the report and ends with
its status.
-/

namespace PugTokens.Command

/-- What a failure to read says about a path.  A path through something that is
    no directory leads nowhere. -/
def Document.ofFailure : IO.Error → Document
  | .noFileOrDirectory _ _ _ => .missing
  | .inappropriateType _ code _ =>
      if code = 21 then .unreadable "Is a directory (os error 21)" else .missing
  | .permissionDenied _ _ _ => .unreadable "Permission denied (os error 13)"
  | .invalidArgument _ _ _ => .missing
  | failure => .unreadable (toString failure)

def Document.load (path : String) : IO Document := do
  match ← (IO.FS.readBinFile path).toBaseIO with
  | .ok bytes => return .contents bytes
  | .error failure => return .ofFailure failure

end PugTokens.Command

def main (arguments : List String) : IO UInt32 := do
  let document ← match PugTokens.Command.path? arguments with
    | some path => PugTokens.Command.Document.load path
    | none => pure .missing
  match PugTokens.Command.run arguments document with
  | .ok report =>
      IO.print report.stdout
      IO.eprint report.stderr
      return report.status.toUInt32
  | .error _ => return 70
