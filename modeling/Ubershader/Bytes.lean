/-!
# Byte forms

Everything that is hashed is first laid out as bytes: words in little-endian order, text in
UTF-8, flags as one byte. A *framed* field carries its length in front, in eight bytes, so that
neighbouring fields cannot be mistaken for one another.
-/

namespace Ubershader

/-- The `count` lowest bytes of a number, least significant first. -/
def littleEndian : (count : Nat) → Nat → List UInt8
  | 0, _ => []
  | count + 1, n => UInt8.ofNat (n % 256) :: littleEndian count (n / 256)

@[simp] theorem length_littleEndian (count n : Nat) : (littleEndian count n).length = count := by
  induction count generalizing n with
  | zero => rfl
  | succ count ih => simp [littleEndian, ih]

namespace Bytes

def ofUInt32 (word : UInt32) : List UInt8 :=
  littleEndian 4 word.toNat

/-- A signed word in four bytes, in two's complement. -/
def ofInt32 (word : Int32) : List UInt8 :=
  ofUInt32 word.toUInt32

def ofBool (flag : Bool) : List UInt8 :=
  [if flag then 1 else 0]

/-- A text in UTF-8. -/
def ofString (text : String) : List UInt8 :=
  text.toUTF8.data.toList

/-- A field with its length in front, so that nothing behind the field is taken for a part of
it. -/
def framed (field : List UInt8) : List UInt8 :=
  littleEndian 8 field.length ++ field

@[simp] theorem length_ofUInt32 (word : UInt32) : (ofUInt32 word).length = 4 :=
  length_littleEndian 4 _

@[simp] theorem length_ofInt32 (word : Int32) : (ofInt32 word).length = 4 :=
  length_ofUInt32 _

@[simp] theorem length_ofBool (flag : Bool) : (ofBool flag).length = 1 := rfl

@[simp] theorem length_framed (field : List UInt8) :
    (framed field).length = 8 + field.length := by
  simp [framed]

end Bytes

end Ubershader
