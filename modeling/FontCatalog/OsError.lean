/-! Errors of the operating system that the library meets, with their numbers and texts. -/
namespace FontCatalog
set_option autoImplicit false

inductive OsError where
  | notPermitted
  | notFound
  | denied
  | busy
  | exists
  | notDirectory
  | isDirectory
  | invalidArgument
  | nameTooLong
  | directoryNotEmpty
  | tooManyLinks
  | wouldBlock
  | addressInUse
  | noSuchAddress
  | unreachable
  | timedOut
  | refused
  /-- an address without a number -/
  | noNumber
  | badNumber
  /-- a host without an address -/
  | unknownHost
  /-- a path with a zero byte, which is refused before the system is asked -/
  | zeroByte
  /-- bytes that should be a text but are not UTF-8 -/
  | notText
  deriving DecidableEq, Repr, Inhabited

namespace OsError

/-- The number of an error that the system itself reports. -/
def number? : OsError → Option Nat
  | .notPermitted => some 1
  | .notFound => some 2
  | .wouldBlock => some 11
  | .denied => some 13
  | .busy => some 16
  | .exists => some 17
  | .notDirectory => some 20
  | .isDirectory => some 21
  | .invalidArgument => some 22
  | .nameTooLong => some 36
  | .directoryNotEmpty => some 39
  | .tooManyLinks => some 40
  | .addressInUse => some 98
  | .noSuchAddress => some 99
  | .unreachable => some 101
  | .timedOut => some 110
  | .refused => some 111
  | .noNumber | .badNumber | .unknownHost | .zeroByte | .notText => none

/-- The errors that have a number. -/
def numbered : List OsError :=
  [.notPermitted, .notFound, .wouldBlock, .denied, .busy, .exists, .notDirectory, .isDirectory,
   .invalidArgument, .nameTooLong, .directoryNotEmpty, .tooManyLinks, .addressInUse, .noSuchAddress,
   .unreachable, .timedOut, .refused]

def ofNumber? (n : Nat) : Option OsError := numbered.find? fun e => e.number? == some n

def text : OsError → String
  | .notPermitted => "Operation not permitted"
  | .notFound => "No such file or directory"
  | .denied => "Permission denied"
  | .busy => "Device or resource busy"
  | .exists => "File exists"
  | .notDirectory => "Not a directory"
  | .isDirectory => "Is a directory"
  | .invalidArgument => "Invalid argument"
  | .nameTooLong => "File name too long"
  | .directoryNotEmpty => "Directory not empty"
  | .tooManyLinks => "Too many levels of symbolic links"
  | .wouldBlock => "Resource temporarily unavailable"
  | .addressInUse => "Address already in use"
  | .noSuchAddress => "Cannot assign requested address"
  | .unreachable => "Network is unreachable"
  | .timedOut => "Connection timed out"
  | .refused => "Connection refused"
  | .noNumber => "invalid socket address"
  | .badNumber => "invalid port value"
  | .unknownHost => "failed to lookup address information: Temporary failure in name resolution"
  | .zeroByte => "file name contained an unexpected NUL byte"
  | .notText => "stream did not contain valid UTF-8"

def message (e : OsError) : String :=
  match e.number? with
  | some n => e.text ++ " (os error " ++ toString n ++ ")"
  | none => e.text

end OsError

end FontCatalog
