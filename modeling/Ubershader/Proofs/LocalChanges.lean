import Ubershader.Program.Fingerprint
import Ubershader.Proofs.Bytes
import Ubershader.Proofs.Checksum

/-!
# Changes within a few places

The checksum notices every change of eight bytes in a row. `DiffersWithin` says by places what such
a change is, for lists of any kind: the lists differ, and outside of some window they agree. Cut at
the two ends of the window, they have the same parts around it.

A mutation takes four bytes for each of its values, so a change of one value, or of two next to
each other, stays within eight bytes and shows in the fingerprint.
-/

namespace Ubershader

/-- Two lists of one length that differ, but only at `width` places in a row. -/
structure DiffersWithin {α : Type} (width : Nat) (left right : List α) : Prop where
  sameLength : left.length = right.length
  different : left ≠ right
  elsewhere : ∃ start, ∀ place, place < start ∨ start + width ≤ place →
    left[place]? = right[place]?

/-- Places behind the end of both lists need not be compared. -/
theorem differsWithin_of_forall_lt {α : Type} {width start : Nat} {left right : List α}
    (hlength : left.length = right.length) (hne : left ≠ right)
    (hplaces : ∀ place < left.length, place < start ∨ start + width ≤ place →
      left[place]? = right[place]?) : DiffersWithin width left right where
  sameLength := hlength
  different := hne
  elsewhere := by
    refine ⟨start, fun place hplace => ?_⟩
    by_cases hinside : place < left.length
    · exact hplaces place hinside hplace
    · rw [List.getElem?_eq_none (by omega), List.getElem?_eq_none (by omega)]

/-- Lists that differ within a window are the same in front of it and behind it. -/
theorem DiffersWithin.exists_parts {α : Type} {width : Nat} {left right : List α}
    (hdiffers : DiffersWithin width left right) :
    ∃ front window other back, left = front ++ window ++ back ∧ right = front ++ other ++ back ∧
      window.length = other.length ∧ window.length ≤ width ∧ window ≠ other := by
  obtain ⟨hlength, hne, start, helsewhere⟩ := hdiffers
  have hcut : ∀ list : List α, list =
      list.take start ++ (list.drop start).take width ++ list.drop (start + width) := by
    intro list
    rw [List.append_assoc, ← List.drop_drop, List.take_append_drop, List.take_append_drop]
  have hfront : right.take start = left.take start := by
    refine List.ext_getElem? fun place => ?_
    rw [List.getElem?_take, List.getElem?_take]
    split
    · next hplace => exact (helsewhere place (.inl hplace)).symm
    · rfl
  have hback : right.drop (start + width) = left.drop (start + width) := by
    refine List.ext_getElem? fun place => ?_
    rw [List.getElem?_drop, List.getElem?_drop]
    exact (helsewhere _ (.inr (Nat.le_add_right ..))).symm
  refine ⟨left.take start, (left.drop start).take width, (right.drop start).take width,
    left.drop (start + width), hcut left, ?_, ?_, ?_, ?_⟩
  · rw [← hfront, ← hback]
    exact hcut right
  · simp [hlength]
  · exact List.length_take_le _ _
  · intro hsame
    refine hne ?_
    rw [hcut left, hcut right, hfront, hback, hsame]

theorem DiffersWithin.differLocally {left right : List UInt8}
    (hdiffers : DiffersWithin 8 left right) : DifferLocally left right := by
  obtain ⟨front, window, other, back, rfl, rfl, hlength, hshort, hne⟩ := hdiffers.exists_parts
  exact .within front back hlength hshort hne

theorem length_flatMap_ofInt32 (values : List Int32) :
    (values.flatMap Bytes.ofInt32).length = 4 * values.length := by
  induction values with
  | nil => rfl
  | cons value values ih =>
    rw [List.flatMap_cons, List.length_append, ih, Bytes.length_ofInt32, List.length_cons]
    omega

/-- The byte forms of mutations differ within eight bytes where the mutations differ within two
values. -/
theorem Mutation.differLocally_bytes {left right : Mutation}
    (hdiffers : DiffersWithin 2 left right) : DifferLocally left.bytes right.bytes := by
  obtain ⟨front, window, other, back, rfl, rfl, hlength, hshort, hne⟩ := hdiffers.exists_parts
  simp only [Mutation.bytes, List.flatMap_append]
  refine .within _ _ ?_ ?_ ?_
  · rw [length_flatMap_ofInt32, length_flatMap_ofInt32, hlength]
  · rw [length_flatMap_ofInt32]
    omega
  · intro hbytes
    exact hne (Bytes.flatMap_ofInt32_append_inj hlength (congrArg (· ++ []) hbytes)).1

/-- No local change goes unnoticed. Two messages of one length that differ, and differ only within
eight bytes in a row, have different checksums, however long they are. Hence two mutations of one
length that differ, and differ only in one value or in two values next to each other, have
different fingerprints. -/
theorem checksum_ne_and_fingerprint_ne_of_differsWithin :
    (∀ left right : List UInt8, DiffersWithin 8 left right → checksum left ≠ checksum right) ∧
    ∀ left right : Mutation, DiffersWithin 2 left right →
      left.fingerprint ≠ right.fingerprint := by
  constructor
  · intro left right hdiffers
    exact hdiffers.differLocally.checksum_ne
  · intro left right hdiffers
    exact (Mutation.differLocally_bytes hdiffers).checksum_ne

theorem checksum_ne_and_fingerprint_ne_invertedWindow_and_swappedValues :
    let message : List UInt8 := [7, 0, 1, 2, 3, 4, 5, 6, 7, 7]
    let inverted : List UInt8 := [7, 255, 254, 253, 252, 251, 250, 249, 248, 7]
    let mutation : Mutation := [1, 2, 3, 4]
    let swapped : Mutation := [1, 3, 2, 4]
    DiffersWithin 8 message inverted ∧ checksum message ≠ checksum inverted ∧
      DiffersWithin 2 mutation swapped ∧ mutation.fingerprint ≠ swapped.fingerprint := by
  intro message inverted mutation swapped
  have hmessage : DiffersWithin 8 message inverted :=
    differsWithin_of_forall_lt (by decide) (by decide) (by decide : ∀ place < message.length,
      place < 1 ∨ 1 + 8 ≤ place → message[place]? = inverted[place]?)
  have hmutation : DiffersWithin 2 mutation swapped :=
    differsWithin_of_forall_lt (by decide) (by decide) (by decide : ∀ place < mutation.length,
      place < 1 ∨ 1 + 2 ≤ place → mutation[place]? = swapped[place]?)
  obtain ⟨hchecksum, hfingerprint⟩ := checksum_ne_and_fingerprint_ne_of_differsWithin
  exact ⟨hmessage, hchecksum _ _ hmessage, hmutation, hfingerprint _ _ hmutation⟩

/-- The check value of the polynomial. -/
example : checksum (Bytes.ofString "123456789") = 12577168950296156296 := by decide +kernel

/-- Nine bytes in a row are too many: the polynomial with its highest coefficient in front takes
sixty-five bits, and adding it goes unnoticed. -/
example : checksum (littleEndian 9 0) =
    checksum (littleEndian 9 (2 * Checksum.polynomial.toNat + 1)) := by
  decide +kernel

end Ubershader
