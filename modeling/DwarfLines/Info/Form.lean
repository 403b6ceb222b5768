import DwarfLines.Leb128

/-!
# Attribute forms

The form of an attribute says how its value is stored. `Form.resolve` follows indirect forms, whose
real form is stored in front of the value, and `Form.value` takes the bytes of a value.
-/

namespace DwarfLines

/-- How the value of an attribute is stored. -/
inductive Form where
  /-- An address of the target. -/
  | addr
  | block2
  | block4
  | data2
  | data4
  | data8
  /-- A string, stored in place. -/
  | string
  | block
  | block1
  | data1
  | flag
  | sdata
  /-- A string, stored elsewhere. -/
  | strp
  | udata
  | refAddr
  | ref1
  | ref2
  | ref4
  | ref8
  | refUdata
  /-- The real form precedes the value. -/
  | indirect
  | secOffset
  | exprloc
  /-- A flag that is set by being there: no bytes are stored. -/
  | flagPresent
  | refSig8
  | unknown (code : Nat)
  deriving DecidableEq, Repr

namespace Form

/-- The form that a code stands for. -/
def ofCode : Nat → Form
  | 0x01 => addr
  | 0x03 => block2
  | 0x04 => block4
  | 0x05 => data2
  | 0x06 => data4
  | 0x07 => data8
  | 0x08 => string
  | 0x09 => block
  | 0x0a => block1
  | 0x0b => data1
  | 0x0c => flag
  | 0x0d => sdata
  | 0x0e => strp
  | 0x0f => udata
  | 0x10 => refAddr
  | 0x11 => ref1
  | 0x12 => ref2
  | 0x13 => ref4
  | 0x14 => ref8
  | 0x15 => refUdata
  | 0x16 => indirect
  | 0x17 => secOffset
  | 0x18 => exprloc
  | 0x19 => flagPresent
  | 0x20 => refSig8
  | code => unknown code

/-- The first form that is not indirect, taking the codes that lead to it. -/
def resolve (form : Form) : Decoder Form := fun bytes =>
  if form = indirect then
    match _h : Leb128.unsigned bytes with
    | none => none
    | some (code, rest) => resolve (ofCode code) rest
  else some (form, bytes)
termination_by bytes => bytes.length
decreasing_by exact Leb128.length_lt_of_unsigned _h

/-- What the size of a value may depend on besides its form. -/
structure Layout where
  /-- The version of the unit. -/
  version : UInt16
  /-- The size of a target address. -/
  addressSize : UInt8
  deriving DecidableEq, Repr

/-- Takes the bytes of a value; the form is neither indirect nor unknown. -/
def value (layout : Layout) : Form → Decoder Unit
  | flagPresent => pure ()
  | data1 | ref1 | flag => skip 1
  | data2 | ref2 => skip 2
  | data4 | ref4 | strp | secOffset => skip 4
  | data8 | ref8 | refSig8 => skip 8
  | addr => skip layout.addressSize.toNat
  | refAddr => skip (if layout.version = 2 then layout.addressSize.toNat else 4)
  | sdata => discard Leb128.signed
  | udata | refUdata => discard Leb128.unsigned
  | string => discard Decoder.cstring
  | block1 => do skip (← Decoder.byte).toNat
  | block2 => do skip (← Decoder.word16).toNat
  | block4 => do skip (← Decoder.word32).toNat
  | block | exprloc => do skip (← Leb128.unsigned)
  | indirect | unknown _ => failure
where
  /-- Passes over `n` bytes. -/
  skip (n : Nat) : Decoder Unit := discard (Decoder.take n)

end Form

end DwarfLines
