/-!
# Files

A program reads files by name and writes none, so all it needs to know of them is
what it is told when it asks for the text of one.
-/

namespace DualScope

/-- Why a file cannot be read. -/
inductive FileError
  | notFound
  | isDirectory
  | notDirectory
  | notText
  | nameTooLong
  | nulInName
  /-- Anything else, in the words of the system. -/
  | other (message : String)
deriving DecidableEq

/-- The words of the system for the fault. -/
def FileError.message : FileError → String
  | .notFound => "No such file or directory (os error 2)"
  | .isDirectory => "Is a directory (os error 21)"
  | .notDirectory => "Not a directory (os error 20)"
  | .notText => "stream did not contain valid UTF-8"
  | .nameTooLong => "File name too long (os error 36)"
  | .nulInName => "file name contained an unexpected NUL byte"
  | .other message => message

/-- What the system answers when it is asked for the text of a file. -/
abbrev Files := String → Except FileError String

end DualScope
