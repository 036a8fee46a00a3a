/-!
# Failures of the file system

The causes for which the operating system, or the reading of text, refuses an operation.
-/

namespace Rebuild

/-- Why a file operation failed. -/
inductive OsError where
  | notFound
  | resourceBusy
  | alreadyExists
  | notDirectory
  | isDirectory
  | directoryNotEmpty
  | nameTooLong
  /-- The bytes of a file are no text. -/
  | invalidText
  /-- Any other cause, in its own words. -/
  | other (message : String)
  deriving DecidableEq, Repr, Inhabited

/-- The wording of a failure, with its number where it has one. -/
def OsError.message : OsError → String
  | notFound => "No such file or directory (os error 2)"
  | resourceBusy => "Device or resource busy (os error 16)"
  | alreadyExists => "File exists (os error 17)"
  | notDirectory => "Not a directory (os error 20)"
  | isDirectory => "Is a directory (os error 21)"
  | directoryNotEmpty => "Directory not empty (os error 39)"
  | nameTooLong => "File name too long (os error 36)"
  | invalidText => "stream did not contain valid UTF-8"
  | other message => message

end Rebuild
