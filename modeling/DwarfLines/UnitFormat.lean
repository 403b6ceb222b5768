/-!
# Units

What the units of all sections have in common: a 32-bit length, whose largest values announce the
64-bit format instead, and a version.
-/

namespace DwarfLines

/-- The smallest unit length that announces the 64-bit format in place of a length. -/
def wideFormatLength : UInt32 := 0xfffffff0

/-- Whether a version is one of 2, 3 and 4. -/
def supportedVersion (version : UInt16) : Bool := 2 ≤ version && version ≤ 4

end DwarfLines
