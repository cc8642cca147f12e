/-!
Reading a file by its path, and why that can fail. The wording of a failure is that of the
operating system.
-/

namespace FlowLint

inductive ReadError where
  | missing
  | denied
  /-- The path goes on behind something that is no directory. -/
  | notDirectory
  | directory
  | nameTooLong
  | notText
  | other (reason : String)
  deriving DecidableEq, Repr

def ReadError.message : ReadError → String
  | missing => "No such file or directory (os error 2)"
  | denied => "Permission denied (os error 13)"
  | notDirectory => "Not a directory (os error 20)"
  | directory => "Is a directory (os error 21)"
  | nameTooLong => "File name too long (os error 36)"
  | notText => "stream did not contain valid UTF-8"
  | other reason => reason

abbrev Reader := String → Except ReadError String

end FlowLint
