/-!
# Why an access fails

The reasons for which a file or directory cannot be reached, read or written, with the texts that report them. Reasons
that lie in permissions, in the hardware or in other programs are left out.
-/

namespace GetSet

/-- The reason for which an access to a directory tree fails. -/
inductive SystemError where
  /-- Some name on the way has no entry. -/
  | notFound
  /-- A file stands where the path needs a directory. -/
  | notADirectory
  /-- A directory stands where a file is read or written. -/
  | isADirectory
  /-- The entry to be made is there already. -/
  | alreadyExists
  /-- A name is longer than 255 bytes or the path has 4096 bytes or more. -/
  | nameTooLong
  /-- More than 40 links have to be followed. -/
  | tooManyLinks
  /-- The path has a NUL character in it. -/
  | interiorNul
  /-- The bytes of a file are no text. -/
  | notText
deriving DecidableEq, Repr

namespace SystemError

/-- The text that reports the error. -/
def message : SystemError → String
  | notFound => "No such file or directory (os error 2)"
  | notADirectory => "Not a directory (os error 20)"
  | isADirectory => "Is a directory (os error 21)"
  | alreadyExists => "File exists (os error 17)"
  | nameTooLong => "File name too long (os error 36)"
  | tooManyLinks => "Too many levels of symbolic links (os error 40)"
  | interiorNul => "file name contained an unexpected NUL byte"
  | notText => "stream did not contain valid UTF-8"

end SystemError

end GetSet
