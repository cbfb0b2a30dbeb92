/-!
# Failures of the file system

Why a file could not be read or written, with the system's wording of each cause.
-/

namespace SchemaTypegen.Files

/-- Why an operation on a path failed. -/
inductive Failure where
  | notFound
  | notADirectory
  | isADirectory
  /-- The path ends in a place that no file can take: `.`, `..` or the root. -/
  | busy
  /-- The file's bytes are not UTF-8. -/
  | notText
  /-- The path holds the character U+0000. -/
  | badPath
  /-- A name or a whole path has more bytes than the system takes. -/
  | nameTooLong
  deriving DecidableEq, Repr

/-- The system's text for a failure. -/
def Failure.text : Failure → String
  | .notFound => "No such file or directory (os error 2)"
  | .notADirectory => "Not a directory (os error 20)"
  | .isADirectory => "Is a directory (os error 21)"
  | .busy => "Device or resource busy (os error 16)"
  | .notText => "stream did not contain valid UTF-8"
  | .badPath => "file name contained an unexpected NUL byte"
  | .nameTooLong => "File name too long (os error 36)"

/-- The two steps of a write: the text goes to a fresh file beside the target, which then takes
the target's place. -/
inductive WriteStep where
  | stage
  | replace
  deriving DecidableEq, Repr

/-- A write that failed: at which step, and why. -/
structure WriteFailure where
  step : WriteStep
  cause : Failure
  deriving DecidableEq, Repr

end SchemaTypegen.Files
