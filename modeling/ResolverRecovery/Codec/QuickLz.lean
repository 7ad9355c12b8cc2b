import ResolverRecovery.Codec.QuickLz.Decoder
import ResolverRecovery.Codec.QuickLz.Header

/-!
# QuickLZ streams

A stream holds its data as it is or compressed at level 1 or 3.  The sizes in the header are checked
against the stream before anything is decoded.

## Main definitions

* `QuickLz.decompress`: the data in a stream.
-/

namespace ResolverRecovery.Codec.QuickLz

/-- No byte of a stream stands for more bytes of data than this. -/
def maxExpansion : Nat := 256

/-- The data of a stream that is stored as it is: the bytes behind the header. -/
def stored (h : Header) (data : List UInt8) : Except Error (List UInt8) :=
  if data.length < h.length + h.dataSize then
    .error .inputTooShort
  else
    .ok ((data.drop h.length).take h.dataSize)

/-- The header of a compressed stream fits the stream: the stream size is exact, there is room for a
control word, and the data size is within reach of the stream size. -/
def Header.fits (h : Header) (data : List UInt8) : Bool :=
  h.streamSize == data.length && h.length + controlLength ≤ h.streamSize &&
    h.dataSize ≤ h.streamSize * maxExpansion

/-- The frame in which the body behind a header is decoded. -/
def Header.frame (h : Header) (level : Level) (data : List UInt8) : Frame :=
  ⟨data.toArray, level, h.dataSize⟩

/-- The data of a compressed stream, decoded without a look at its sizes. -/
def decodeBody (h : Header) (level : Level) (data : List UInt8) : Except Error (List UInt8) :=
  let f := h.frame level data
  match f.run (f.start h.length) with
  | .ok _ s => .ok s.output.toList
  | .error fault _ => .error (.quickLz fault)

/-- The data in a stream. -/
def decompress (data : List UInt8) : Except Error (List UInt8) :=
  match Header.read data with
  | .error e => .error e
  | .ok h =>
    match Level.ofNat? h.level with
    | none => .error (.unsupportedLevel h.level)
    | some level =>
      if data.length < h.streamSize then .error .inputTooShort
      else if !h.compressed then stored h data
      else if !h.fits data then .error .invalidHeader
      else decodeBody h level data

end ResolverRecovery.Codec.QuickLz
