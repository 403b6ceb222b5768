import DwarfLines.Bytes

/-!
# Output images

A file in the making. Writing past the end fills the gap with zeros, and so does making the image
longer.
-/

namespace DwarfLines.Elf

/-- The bytes of a file in the making. -/
structure Image where
  bytes : Bytes
  deriving DecidableEq, Repr

namespace Image

/-- The image without bytes. -/
def empty : Image := ⟨[]⟩

/-- The number of bytes. -/
def length (image : Image) : Nat := image.bytes.length

/-- Whether there are no bytes. -/
def isEmpty (image : Image) : Bool := image.bytes.isEmpty

/-- Cuts the image, or fills it up with zeros, to exactly `length` bytes. -/
def setLength (image : Image) (length : Nat) : Image :=
  ⟨image.bytes.take length ++ List.replicate (length - image.bytes.length) 0⟩

/-- Writes bytes at an offset. The image is filled up to the end of the write first, even if nothing
is written there. -/
def writeAt (image : Image) (offset : Nat) (data : Bytes) : Image :=
  let filled := image.setLength (max image.length (offset + data.length))
  ⟨filled.bytes.take offset ++ data ++ filled.bytes.drop (offset + data.length)⟩

/-- Writes a word at an offset. -/
def writeWord32 (image : Image) (offset : Nat) (word : UInt32) : Image :=
  image.writeAt offset (bytesOfWord32 word)

@[simp]
theorem length_setLength (image : Image) (length : Nat) :
    (image.setLength length).length = length := by
  simp only [setLength, Image.length, List.length_append, List.length_take, List.length_replicate]
  omega

@[simp]
theorem length_writeAt (image : Image) (offset : Nat) (data : Bytes) :
    (image.writeAt offset data).length = max image.length (offset + data.length) := by
  have h := length_setLength image (max image.length (offset + data.length))
  simp only [length] at h
  simp only [writeAt, length, List.length_append, List.length_take, List.length_drop, h]
  omega

end Image

end DwarfLines.Elf
