import InferenceOS.Lib.Bytes

/-! The error numbers of `errors.h` and the byte buffers of the storage layers. A function that
    returns an `ios_status` becomes a program or an `Except` value: `IOS_OK` is its result. -/

namespace InferenceOS

inductive IosError where
  | invalidArgument | badAddress | outOfRange | overflow | notSupported | unsupportedVersion | invalidFlags
  | notFound | alreadyExists | noMemory | noSpace | accessDenied | badHandle | wrongHandleType | busy
  | wouldBlock | timeout | interrupted | io | corrupt | readOnly | notEmpty | protocol | invalidState
  | unknownSyscall | unexpectedFormat
  deriving DecidableEq, Repr

/-- A C string without its terminator, or a text given with its length. -/
abbrev Text : Type := List UInt8

/-- A logical sector, `IOS_BLOCK_SECTOR_SIZE` bytes. -/
abbrev Sector : Type := Bytes 512

end InferenceOS
