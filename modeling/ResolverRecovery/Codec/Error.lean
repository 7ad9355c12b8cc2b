/-!
# Why a stream cannot be decoded

Each codec has its own faults; a stream is refused with exactly one of them.

## Main definitions

* `QuickLz.Fault`: what goes wrong in the body of a QuickLZ stream.
* `Deflate.Fault`: what goes wrong in a deflate stream.
* `Codec.Error` with `Codec.Error.message`: every cause and its wording.
-/

namespace ResolverRecovery.Codec

/-- What goes wrong in the body of a QuickLZ stream. -/
inductive QuickLz.Fault where
  /-- The input ends before the next control word does. -/
  | controlPastInput
  /-- The input has ended where a literal byte is due. -/
  | literalPastInput
  /-- The output is full where a literal byte is due. -/
  | literalPastOutput
  /-- A match points at itself, or before the start of the output. -/
  | badOffset (offset written : Nat)
  /-- A match has no source in the output so far, or runs over the end of the output. -/
  | copyOutOfRange (length written : Nat)
  deriving DecidableEq

/-- The wording of a fault in the body of a QuickLZ stream. -/
def QuickLz.Fault.message : QuickLz.Fault → String
  | .controlPastInput => "control word past end of input"
  | .literalPastInput => "literal past end of input"
  | .literalPastOutput => "literal past end of output"
  | .badOffset offset written =>
    "back-reference offset " ++ toString offset ++ " at output position " ++ toString written
  | .copyOutOfRange length written =>
    "back-reference of " ++ toString length ++ " bytes at output position " ++ toString written ++
      " out of range"

/-- What goes wrong in a deflate stream. -/
inductive Deflate.Fault where
  /-- The input ends before the final block does. -/
  | incomplete
  /-- The input breaks a rule of the format. -/
  | corrupt
  deriving DecidableEq

/-- The wording of a fault in a deflate stream. -/
def Deflate.Fault.message : Deflate.Fault → String
  | .incomplete => "incomplete deflate stream"
  | .corrupt => "corrupt deflate stream"

/-- Why a stream is refused. -/
inductive Error where
  /-- The header of a QuickLZ stream is cut off, or its sizes do not fit the stream. -/
  | invalidHeader
  /-- The stream is of a QuickLZ level that is not read here. -/
  | unsupportedLevel (level : Nat)
  /-- The body of a QuickLZ stream is at fault. -/
  | quickLz (fault : QuickLz.Fault)
  /-- A deflate stream is at fault. -/
  | deflate (fault : Deflate.Fault)
  /-- There are fewer bytes than the header announces. -/
  | inputTooShort
  deriving DecidableEq

/-- The wording of a refusal. -/
def Error.message : Error → String
  | .invalidHeader => "Invalid QuickLZ header"
  | .unsupportedLevel level => "Unsupported QuickLZ compression level " ++ toString level
  | .quickLz fault => "QuickLZ decompression error: " ++ fault.message
  | .deflate fault => "Deflate decompression error: " ++ fault.message
  | .inputTooShort => "Input buffer too small"

end ResolverRecovery.Codec
