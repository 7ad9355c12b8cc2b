/-!
# Attribute flags

Methods and embedded resources carry a word of attribute bits.  Some bits have names; the words
themselves may hold any bit and are kept whole.

## Main definitions

* `Flag`: a named bit, and `methodFlags`, `resourceFlags`: the named bits of either kind of word.
* `Flag.known`, `Flag.covers`, `Flag.namesIn`: a word seen through a list of named bits.
* `staticFlag`, `privateFlag`: the two bits that the rest of the library reads or writes.
-/

namespace ResolverRecovery

/-- A named attribute bit. -/
structure Flag where
  name : String
  /-- The word that holds this bit alone. -/
  bit : UInt32

namespace Flag

/-- The bits of `word` that some flag of the list names. -/
def known (flags : List Flag) (word : UInt32) : UInt32 :=
  word &&& flags.foldl (fun acc f => acc ||| f.bit) 0

/-- Every bit of `word` is named. -/
def covers (flags : List Flag) (word : UInt32) : Bool :=
  known flags word == word

/-- The flag is set in `word`. -/
def isSet (f : Flag) (word : UInt32) : Bool :=
  word &&& f.bit == f.bit

/-- The names of the flags set in `word`, in the order of the list. -/
def namesIn (flags : List Flag) (word : UInt32) : List String :=
  (flags.filter fun f => f.isSet word).map Flag.name

end Flag

/-- The method belongs to its type and not to an instance. -/
def staticFlag : Flag := ⟨"STATIC", 0x0010⟩

/-- The named attributes of methods, from the lowest bit up. -/
def methodFlags : List Flag :=
  [staticFlag, ⟨"FINAL", 0x0020⟩, ⟨"VIRTUAL", 0x0040⟩, ⟨"HIDE_BY_SIG", 0x0080⟩,
    ⟨"ABSTRACT", 0x0400⟩, ⟨"SPECIAL_NAME", 0x0800⟩, ⟨"RTSPECIAL_NAME", 0x1000⟩,
    ⟨"PINVOKE_IMPL", 0x2000⟩]

/-- The resource is visible to its module only. -/
def privateFlag : Flag := ⟨"PRIVATE", 0x0002⟩

/-- The named attributes of embedded resources, from the lowest bit up. -/
def resourceFlags : List Flag :=
  [⟨"PUBLIC", 0x0001⟩, privateFlag]

end ResolverRecovery
