import UnitLoader.CommandLine.Program
import UnitLoader.Files.Survey

/-! The program. It runs on what is known of the disk, looks at the paths that the
run asked for, and runs again until it asks for no more. -/

namespace UnitLoader

namespace CommandLine

def numbered (number : UInt32) (reason : String) : FileError :=
  .ofNumber reason.capitalize (if number < 0x80000000 then number else -number).toNat

def fileError : IO.Error → FileError
  | .noFileOrDirectory _ number reason => numbered number reason
  | .inappropriateType _ number reason => numbered number reason
  | .permissionDenied _ number reason => numbered number reason
  | .invalidArgument _ number reason => numbered number reason
  | .resourceExhausted _ number reason => numbered number reason
  | .otherError number reason => numbered number reason
  | e => .refused (toString e) 0

/-- Looks at a path. Why a path leads nowhere is told by the attempt to read it. -/
def lookAt (path : String) : IO Finding := do
  if path.contains '\x00' then
    return ⟨path, .error .nulInName, .error .nulInName⟩
  let content := (← (IO.FS.readBinFile path).toBaseIO).mapError fileError
  match ← (IO.FS.realPath path).toBaseIO, content with
  | .ok canonical, content => return ⟨path, .ok (toString canonical), content⟩
  | .error _, .error e => return ⟨path, .error e, .error e⟩
  | .error e, .ok text => return ⟨path, .error (fileError e), .ok text⟩

partial def surveyed (arguments : List String) (survey : Survey) : IO Output := do
  let output := run survey.disk arguments
  match survey.unknown output.paths with
  | [] => return output
  | paths => surveyed arguments (survey.add (← paths.mapM lookAt))

end CommandLine

end UnitLoader

def main (arguments : List String) : IO UInt32 := do
  let here ← IO.currentDir
  let output ← UnitLoader.CommandLine.surveyed arguments ⟨toString here, []⟩
  IO.print output.stdout
  IO.eprint (output.remarks ++ output.error.getD "")
  return output.status.toUInt32
