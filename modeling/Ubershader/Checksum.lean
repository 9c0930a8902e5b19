/-!
# The 64-bit checksum

A reflected cyclic redundancy check of width 64: the register starts with every bit set, takes
the message byte by byte from its low end, and is complemented at the end. Eight single-bit steps
absorb a byte. Each of them is a shift followed, when a one falls out, by adding the polynomial,
so the register after a byte is linear over exclusive or.
-/

namespace Ubershader.Checksum

/-- The generating polynomial, with the coefficient of the highest power in the lowest bit. -/
def polynomial : UInt64 := 0x9A6C9329AC4BC9B5

/-- The register before the first byte, and the mask that complements it after the last. -/
def allOnes : UInt64 := 0xFFFFFFFFFFFFFFFF

/-- One step of the shift register. The bit that falls out belongs to the highest power, so the
polynomial is taken off whenever that bit is set. -/
def shiftStep (register : UInt64) : UInt64 :=
  if register &&& 1 = 1 then (register >>> 1) ^^^ polynomial else register >>> 1

def shiftSteps : Nat → UInt64 → UInt64
  | 0, register => register
  | count + 1, register => shiftSteps count (shiftStep register)

def absorb (register : UInt64) (byte : UInt8) : UInt64 :=
  shiftSteps 8 (register ^^^ byte.toUInt64)

def register (start : UInt64) (message : List UInt8) : UInt64 :=
  message.foldl absorb start

@[simp] theorem register_append (start : UInt64) (front back : List UInt8) :
    register start (front ++ back) = register (register start front) back := by
  simp [register]

end Ubershader.Checksum

namespace Ubershader

def checksum (message : List UInt8) : UInt64 :=
  Checksum.register Checksum.allOnes message ^^^ Checksum.allOnes

end Ubershader
