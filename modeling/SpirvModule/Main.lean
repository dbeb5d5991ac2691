import SpirvModule.Blessing.Run

/-!
# The command line

`spirvModule [bless] [--input <file>] <scenario>...` performs scenarios in the
current directory. No outside tools are at hand.
-/
namespace SpirvModule

/-- The file error that an error of the system stands for. -/
def FileError.ofSystem : IO.Error → FileError
  | .noFileOrDirectory .. => .missing
  | .inappropriateType _ 20 _ => .notDirectory
  | .inappropriateType .. => .isDirectory
  | .invalidArgument _ 36 _ => .nameTooLong
  | _ => .missing

/-- The bytes of a file, or why it cannot be read. -/
def readFile (path : String) : IO (Except FileError (List UInt8)) := do
  try
    return .ok (← IO.FS.readBinFile path).toList
  catch e => return .error (.ofSystem e)

end SpirvModule

open SpirvModule in
/-- Reads the files that the arguments may speak of, runs, reports, and writes the database. -/
def main (args : List String) : IO UInt32 := do
  let files ← (databaseName :: args).mapM fun path => do return (path, ← readFile path)
  let outcome := run args (fun path => (files.lookup path).getD (.error .missing)) ⟨none, none⟩
  for r in outcome.log do
    IO.eprintln r.text
  match outcome.saved with
  | some d => IO.FS.writeFile databaseName d.render
  | none => pure ()
  return outcome.exit.code.toUInt32
