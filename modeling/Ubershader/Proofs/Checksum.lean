import Mathlib.Data.Nat.Bitwise
import Ubershader.Bytes
import Ubershader.Checksum

/-!
# What the checksum notices

The shift register is linear over exclusive or, and the polynomial has its highest bit set. So a
step can only leave the highest bit clear if nothing fell out of the register, and then the
register was twice as large before. Looking back from two registers that have become equal, the
difference between them was a multiple of 256 before each of the last eight bytes, and two bytes
whose difference is a multiple of 256 are the same.

Hence two messages that differ in at most eight bytes in a row have different checksums, however
long they are.
-/

namespace Ubershader

namespace Checksum

/-! ## The shift register -/

theorem shiftStep_of_even {register : UInt64} (heven : register.toNat % 2 = 0) :
    shiftStep register = register >>> 1 := by
  have hlow : register &&& 1 ≠ 1 := by
    intro hone
    have hmod := congrArg UInt64.toNat hone
    rw [UInt64.toNat_and, UInt64.toNat_one, Nat.and_one_is_mod] at hmod
    omega
  exact if_neg hlow

theorem shiftStep_of_odd {register : UInt64} (hodd : register.toNat % 2 = 1) :
    shiftStep register = (register >>> 1) ^^^ polynomial := by
  have hlow : register &&& 1 = 1 := by
    rw [← UInt64.toNat_inj, UInt64.toNat_and, UInt64.toNat_one, Nat.and_one_is_mod, hodd]
  exact if_pos hlow

theorem shiftStep_xor (left right : UInt64) :
    shiftStep (left ^^^ right) = shiftStep left ^^^ shiftStep right := by
  have hparity : (left ^^^ right).toNat % 2 = (left.toNat + right.toNat) % 2 := by
    rw [UInt64.toNat_xor, Nat.xor_mod_two_eq]
  obtain hleft | hleft := Nat.mod_two_eq_zero_or_one left.toNat
  · obtain hright | hright := Nat.mod_two_eq_zero_or_one right.toNat
    · rw [shiftStep_of_even hleft, shiftStep_of_even hright, shiftStep_of_even (by omega),
        UInt64.shiftRight_xor]
    · rw [shiftStep_of_even hleft, shiftStep_of_odd hright, shiftStep_of_odd (by omega),
        UInt64.shiftRight_xor, UInt64.xor_assoc]
  · obtain hright | hright := Nat.mod_two_eq_zero_or_one right.toNat
    · rw [shiftStep_of_odd hleft, shiftStep_of_even hright, shiftStep_of_odd (by omega),
        UInt64.shiftRight_xor]
      ac_rfl
    · -- The polynomial is added twice, and cancels.
      rw [shiftStep_of_odd hleft, shiftStep_of_odd hright, shiftStep_of_even (by omega),
        UInt64.shiftRight_xor]
      have hcancel : polynomial ^^^ polynomial = 0 := UInt64.xor_self
      calc (left >>> 1) ^^^ (right >>> 1)
          = ((left >>> 1) ^^^ (right >>> 1)) ^^^ (polynomial ^^^ polynomial) := by
            rw [hcancel, UInt64.xor_zero]
        _ = ((left >>> 1) ^^^ polynomial) ^^^ ((right >>> 1) ^^^ polynomial) := by
            ac_rfl

/-- A step that leaves the highest bit clear only halves the register. -/
theorem toNat_eq_of_shiftStep_lt {register : UInt64}
    (hlt : (shiftStep register).toNat < 2 ^ 63) :
    register.toNat = 2 * (shiftStep register).toNat := by
  obtain heven | hodd := Nat.mod_two_eq_zero_or_one register.toNat
  · have hhalf : (shiftStep register).toNat = register.toNat / 2 := by
      rw [shiftStep_of_even heven, UInt64.toNat_shiftRight]
      exact Nat.shiftRight_one _
    omega
  · have hbit : (shiftStep register).toNat.testBit 63 = true := by
      have hshifted : (register >>> 1).toNat.testBit 63 = false := by
        refine Nat.testBit_lt_two_pow ?_
        have hsize := register.toNat_lt
        rw [UInt64.toNat_shiftRight]
        show register.toNat >>> 1 < 2 ^ 63
        rw [Nat.shiftRight_one]
        omega
      have hpolynomial : polynomial.toNat.testBit 63 = true := by decide
      rw [shiftStep_of_odd hodd, UInt64.toNat_xor, Nat.testBit_xor, hshifted, hpolynomial]
      rfl
    exact absurd (Nat.ge_two_pow_of_testBit hbit) (Nat.not_le.mpr hlt)

theorem shiftSteps_xor (count : Nat) (left right : UInt64) :
    shiftSteps count (left ^^^ right) = shiftSteps count left ^^^ shiftSteps count right := by
  induction count generalizing left right with
  | zero => rfl
  | succ count ih =>
    show shiftSteps count (shiftStep (left ^^^ right)) = _
    rw [shiftStep_xor, ih]
    rfl

/-- Steps that leave as many bits clear as there are steps only divide the register. -/
theorem toNat_eq_of_shiftSteps_lt {count : Nat} {register : UInt64} (hcount : count ≤ 64)
    (hlt : (shiftSteps count register).toNat < 2 ^ (64 - count)) :
    register.toNat = 2 ^ count * (shiftSteps count register).toNat := by
  induction count generalizing register with
  | zero => exact (Nat.one_mul _).symm
  | succ count ih =>
    have hpow : 2 ^ (64 - count) = 2 * 2 ^ (64 - (count + 1)) := by
      rw [← Nat.pow_succ']
      congr 1
      omega
    have hafter : (shiftStep register).toNat =
        2 ^ count * (shiftSteps (count + 1) register).toNat := by
      refine ih (by omega) ?_
      show (shiftSteps (count + 1) register).toNat < _
      omega
    have hsmall : (shiftStep register).toNat < 2 ^ 63 :=
      calc (shiftStep register).toNat
          < 2 ^ count * 2 ^ (64 - (count + 1)) := by
            rw [hafter]
            exact Nat.mul_lt_mul_of_pos_left hlt (Nat.two_pow_pos count)
        _ = 2 ^ 63 := by
            rw [← Nat.pow_add]
            congr 1
            omega
    rw [toNat_eq_of_shiftStep_lt hsmall, hafter, Nat.pow_succ', Nat.mul_assoc]

/-! ## Registers that become equal -/

theorem absorb_xor (left right : UInt64) (byte other : UInt8) :
    absorb left byte ^^^ absorb right other =
      shiftSteps 8 ((left ^^^ right) ^^^ (byte.toUInt64 ^^^ other.toUInt64)) := by
  rw [absorb, absorb, ← shiftSteps_xor]
  congr 1
  ac_rfl

theorem absorb_inj {left right : UInt64} {byte : UInt8} :
    absorb left byte = absorb right byte ↔ left = right := by
  refine ⟨fun habsorb => ?_, fun heq => by rw [heq]⟩
  have hzero : shiftSteps 8 (left ^^^ right) = 0 := by
    have hxor := absorb_xor left right byte byte
    rw [habsorb, UInt64.xor_self, UInt64.xor_self, UInt64.xor_zero] at hxor
    exact hxor.symm
  have hdifference := toNat_eq_of_shiftSteps_lt (by decide : 8 ≤ 64)
    (by rw [hzero]; decide : (shiftSteps 8 (left ^^^ right)).toNat < 2 ^ (64 - 8))
  rw [hzero] at hdifference
  exact UInt64.xor_eq_zero_iff.mp (UInt64.toNat_inj.mp hdifference)

/-- The same bytes keep different registers different. -/
theorem register_inj {left right : UInt64} {message : List UInt8} :
    register left message = register right message ↔ left = right := by
  induction message generalizing left right with
  | nil => exact Iff.rfl
  | cons byte message ih => exact ih.trans absorb_inj

/-- If the registers after a byte differ in seven low bytes at most, the difference before it was a
multiple of 256. -/
theorem toNat_eq_of_absorb_lt {left right : UInt64} {byte other : UInt8} {count : Nat}
    (hcount : count < 8)
    (hlt : (absorb left byte ^^^ absorb right other).toNat < 2 ^ (8 * count)) :
    ((left ^^^ right) ^^^ (byte.toUInt64 ^^^ other.toUInt64)).toNat =
      256 * (absorb left byte ^^^ absorb right other).toNat := by
  have hbound : 2 ^ (8 * count) ≤ 2 ^ (64 - 8) := Nat.pow_le_pow_right (by decide) (by omega)
  rw [absorb_xor] at hlt ⊢
  exact toNat_eq_of_shiftSteps_lt (by decide) (Nat.lt_of_lt_of_le hlt hbound)

theorem toNat_xor_lt (byte other : UInt8) : (byte.toUInt64 ^^^ other.toUInt64).toNat < 2 ^ 8 := by
  rw [UInt64.toNat_xor, UInt8.toNat_toUInt64, UInt8.toNat_toUInt64]
  exact Nat.xor_lt_two_pow byte.toNat_lt other.toNat_lt

/-- Registers that become equal after a few bytes differ in as many low bytes at most. -/
theorem xor_lt_of_register_eq {left right : UInt64} {message other : List UInt8}
    (hlength : message.length = other.length) (hshort : message.length ≤ 8)
    (hregister : register left message = register right other) :
    (left ^^^ right).toNat < 2 ^ (8 * message.length) := by
  induction message generalizing left right other with
  | nil =>
    obtain rfl := List.eq_nil_of_length_eq_zero hlength.symm
    obtain rfl : left = right := hregister
    rw [UInt64.xor_self]
    exact Nat.one_pos
  | cons byte message ih =>
    obtain _ | ⟨second, other⟩ := other
    · cases hlength
    have hlater := ih (Nat.succ.inj hlength) (Nat.le_of_succ_le hshort) hregister
    have hmultiple := toNat_eq_of_absorb_lt hshort hlater
    have hpow : 2 ^ (8 * (byte :: message).length) = 256 * 2 ^ (8 * message.length) := by
      rw [List.length_cons, Nat.mul_succ, Nat.pow_add, Nat.mul_comm]
    have hsplit : left ^^^ right =
        ((left ^^^ right) ^^^ (byte.toUInt64 ^^^ second.toUInt64)) ^^^
          (byte.toUInt64 ^^^ second.toUInt64) := by
      rw [UInt64.xor_assoc, UInt64.xor_self, UInt64.xor_zero]
    rw [hsplit, UInt64.toNat_xor]
    refine Nat.xor_lt_two_pow ?_ ?_
    · omega
    · exact Nat.lt_of_lt_of_le (toNat_xor_lt byte second)
        (Nat.pow_le_pow_right (by decide) (by rw [List.length_cons]; omega))

/-- Messages of up to eight bytes take one register to different ones. -/
theorem eq_of_register_eq {start : UInt64} {message other : List UInt8}
    (hlength : message.length = other.length) (hshort : message.length ≤ 8)
    (hregister : register start message = register start other) : message = other := by
  induction message generalizing start other with
  | nil => exact (List.eq_nil_of_length_eq_zero hlength.symm).symm
  | cons byte message ih =>
    obtain _ | ⟨second, other⟩ := other
    · cases hlength
    have hlater := xor_lt_of_register_eq (Nat.succ.inj hlength) (Nat.le_of_succ_le hshort)
      hregister
    have hmultiple := toNat_eq_of_absorb_lt hshort hlater
    rw [UInt64.xor_self, UInt64.zero_xor] at hmultiple
    have hsmall := toNat_xor_lt byte second
    have hzero : byte.toUInt64 ^^^ second.toUInt64 = 0 :=
      UInt64.toNat_inj.mp (by rw [UInt64.toNat_zero]; omega)
    obtain rfl : byte = second := by
      have hbytes := congrArg UInt64.toNat (UInt64.xor_eq_zero_iff.mp hzero)
      rw [UInt8.toNat_toUInt64, UInt8.toNat_toUInt64] at hbytes
      exact UInt8.toNat_inj.mp hbytes
    rw [ih (Nat.succ.inj hlength) (Nat.le_of_succ_le hshort) hregister]

end Checksum

/-! ## Messages that differ in one place -/

/-- Messages of one length that differ within eight bytes in a row. The register has as many bits,
so none of these differences is lost. -/
inductive DifferLocally : List UInt8 → List UInt8 → Prop
  | within (front : List UInt8) {window other : List UInt8} (back : List UInt8)
      (sameLength : window.length = other.length) (short : window.length ≤ 8)
      (different : window ≠ other) :
      DifferLocally (front ++ window ++ back) (front ++ other ++ back)

namespace DifferLocally

variable {left right : List UInt8}

theorem of_short (hlength : left.length = right.length) (hshort : left.length ≤ 8)
    (hne : left ≠ right) : DifferLocally left right := by
  have hwithin := within [] [] hlength hshort hne
  rwa [List.append_nil, List.append_nil] at hwithin

theorem length_eq (hdiffer : DifferLocally left right) : left.length = right.length := by
  cases hdiffer with
  | within front back hlength => simp only [List.length_append, hlength]

theorem append (hdiffer : DifferLocally left right) (more : List UInt8) :
    DifferLocally (left ++ more) (right ++ more) := by
  cases hdiffer with
  | within front back hlength hshort hne =>
    rw [List.append_assoc, List.append_assoc _ back]
    exact within front (back ++ more) hlength hshort hne

theorem prepend (hdiffer : DifferLocally left right) (more : List UInt8) :
    DifferLocally (more ++ left) (more ++ right) := by
  cases hdiffer with
  | within front back hlength hshort hne =>
    rw [← List.append_assoc, ← List.append_assoc, ← List.append_assoc, ← List.append_assoc]
    exact within (more ++ front) back hlength hshort hne

/-- The frame of a field only tells its length. -/
theorem framed (hdiffer : DifferLocally left right) :
    DifferLocally (Bytes.framed left) (Bytes.framed right) := by
  rw [Bytes.framed, Bytes.framed, hdiffer.length_eq]
  exact hdiffer.prepend _

/-- The checksum tells messages apart that differ within eight bytes in a row: they take the
register apart, and what follows does not bring it together again. -/
theorem checksum_ne (hdiffer : DifferLocally left right) : checksum left ≠ checksum right := by
  cases hdiffer with
  | within front back hlength hshort hne =>
    intro hchecksum
    have hregister := (UInt64.xor_left_inj Checksum.allOnes).mp hchecksum
    simp only [Checksum.register_append, Checksum.register_inj] at hregister
    exact hne (Checksum.eq_of_register_eq hlength hshort hregister)

end DifferLocally

end Ubershader
