/-!
# System errors

The causes for which the operating system refuses a file operation, with the
text and the number that it gives each of them.
-/

namespace BenchCharts

/-- Why a file operation or a write failed. -/
inductive SystemError where
  | notFound
  | noDevice
  | alreadyExists
  | notDirectory
  | isDirectory
  | invalidArgument
  | noSpace
  | nameTooLong
  | addressInUse
  | nulInName
  | nulInSocketName
  | socketNameTooLong
  | other (text : String)
  deriving DecidableEq

namespace SystemError

/-- A system text with its number. -/
def numbered (text : String) (number : Nat) : String :=
  s!"{text} (os error {number})"

def message : SystemError → String
  | notFound => numbered "No such file or directory" 2
  | noDevice => numbered "No such device or address" 6
  | alreadyExists => numbered "File exists" 17
  | notDirectory => numbered "Not a directory" 20
  | isDirectory => numbered "Is a directory" 21
  | invalidArgument => numbered "Invalid argument" 22
  | noSpace => numbered "No space left on device" 28
  | nameTooLong => numbered "File name too long" 36
  | addressInUse => numbered "Address already in use" 98
  | nulInName => "file name contained an unexpected NUL byte"
  | nulInSocketName => "paths must not contain interior null bytes"
  | socketNameTooLong => "path must be shorter than SUN_LEN"
  | other text => text

end SystemError

end BenchCharts
