/-!
# File errors

Why a file cannot be read, and what is said about it.
-/
namespace SpirvModule

/-- Why the file that a path leads to cannot be read. -/
inductive FileError where
  | missing
  | notDirectory
  | isDirectory
  | nameTooLong
  deriving DecidableEq

/-- What is said about a file that cannot be read. -/
def FileError.message : FileError → String
  | missing => "No such file or directory (os error 2)"
  | notDirectory => "Not a directory (os error 20)"
  | isDirectory => "Is a directory (os error 21)"
  | nameTooLong => "File name too long (os error 36)"

end SpirvModule
