import Mathlib.Data.List.Forall2
import Ubershader.Bytes
import Ubershader.Text.Tokens

/-!
# Reading byte forms back

A byte form is *self-delimiting* if it can be read off the front of any bytes: when two of them
start the same bytes, they are forms of the same thing and what follows them is the same. Words
and flags have this by their fixed lengths, and framed fields by the length in front, as long as
that length fits in its eight bytes.

A list without a count in front is self-delimiting only together with what may follow it.
`flatMap_append_inj` says what that takes: an item can be told from the end of the list. A row of
framed fields needs nothing more, as a frame is never empty.
-/

namespace Ubershader

theorem littleEndian_inj {count m n : Nat} (hm : m < Nat.pow 256 count) (hn : n < Nat.pow 256 count)
    (hbytes : littleEndian count m = littleEndian count n) : m = n := by
  induction count generalizing m n with
  | zero =>
    have hzero : Nat.pow 256 0 = 1 := rfl
    omega
  | succ count ih =>
    have hpow : Nat.pow 256 (count + 1) = Nat.pow 256 count * 256 := rfl
    rw [hpow] at hm hn
    obtain ⟨hlow, hhigh⟩ := List.cons.inj hbytes
    have hmod : m % 256 = n % 256 := by
      have htoNat := congrArg UInt8.toNat hlow
      simpa using htoNat
    have hdiv : m / 256 = n / 256 := by
      refine ih ?_ ?_ hhigh
      · exact Nat.div_lt_of_lt_mul (by omega)
      · exact Nat.div_lt_of_lt_mul (by omega)
    omega

/-- Numbers in a fixed count of bytes can be read back. -/
theorem littleEndian_append_inj {count m n : Nat} {s t : List UInt8} (hm : m < Nat.pow 256 count)
    (hn : n < Nat.pow 256 count) (hbytes : littleEndian count m ++ s = littleEndian count n ++ t) :
    m = n ∧ s = t := by
  obtain ⟨hfront, hback⟩ := List.append_inj hbytes (by simp)
  exact ⟨littleEndian_inj hm hn hfront, hback⟩

namespace Bytes

variable {s t : List UInt8}

theorem ofUInt32_append_inj {m n : UInt32} (hbytes : ofUInt32 m ++ s = ofUInt32 n ++ t) :
    m = n ∧ s = t := by
  obtain ⟨hword, hrest⟩ := littleEndian_append_inj m.toNat_lt n.toNat_lt hbytes
  exact ⟨UInt32.toNat_inj.mp hword, hrest⟩

theorem ofInt32_append_inj {m n : Int32} (hbytes : ofInt32 m ++ s = ofInt32 n ++ t) :
    m = n ∧ s = t := by
  obtain ⟨hword, hrest⟩ := ofUInt32_append_inj hbytes
  exact ⟨congrArg Int32.ofUInt32 hword, hrest⟩

theorem ofBool_append_inj {p q : Bool} (hbytes : ofBool p ++ s = ofBool q ++ t) :
    p = q ∧ s = t := by
  obtain ⟨hflag, hrest⟩ := List.append_inj hbytes rfl
  refine ⟨?_, hrest⟩
  cases p <;> cases q <;> simp_all [ofBool]

theorem ofString_inj {left right : String} (hbytes : ofString left = ofString right) :
    left = right := by
  have hdata : left.toUTF8.data = right.toUTF8.data := Array.toList_inj.mp hbytes
  exact String.toByteArray_inj.mp (ByteArray.ext hdata)

/-- Framed fields can be read back if their lengths fit in the frame. -/
theorem framed_append_inj {left right : List UInt8} (hleft : left.length < UInt64.size)
    (hright : right.length < UInt64.size) (hbytes : framed left ++ s = framed right ++ t) :
    left = right ∧ s = t := by
  rw [framed, framed, List.append_assoc, List.append_assoc] at hbytes
  obtain ⟨hlength, hrest⟩ := littleEndian_append_inj hleft hright hbytes
  exact List.append_inj hrest hlength

theorem framed_ofString_append_inj {left right : String}
    (hleft : (ofString left).length < UInt64.size)
    (hright : (ofString right).length < UInt64.size)
    (hbytes : framed (ofString left) ++ s = framed (ofString right) ++ t) :
    left = right ∧ s = t := by
  obtain ⟨htext, hrest⟩ := framed_append_inj hleft hright hbytes
  exact ⟨ofString_inj htext, hrest⟩

/-- As many words can be read back as there are known to be. -/
theorem flatMap_ofInt32_append_inj {xs ys : List Int32} (hlength : xs.length = ys.length)
    (hbytes : xs.flatMap ofInt32 ++ s = ys.flatMap ofInt32 ++ t) : xs = ys ∧ s = t := by
  induction xs generalizing ys with
  | nil =>
    have hys : ys = [] := List.eq_nil_of_length_eq_zero hlength.symm
    rw [hys] at hbytes ⊢
    exact ⟨rfl, hbytes⟩
  | cons x xs ih =>
    cases ys with
    | nil => cases hlength
    | cons y ys =>
      rw [List.flatMap_cons, List.flatMap_cons, List.append_assoc, List.append_assoc] at hbytes
      obtain ⟨rfl, hrest⟩ := ofInt32_append_inj hbytes
      obtain ⟨rfl, htail⟩ := ih (Nat.succ.inj hlength) hrest
      exact ⟨rfl, htail⟩

end Bytes

/-- A list of self-delimiting items can be read back, given what may stand behind an item: `rest`
holds of that. No item may be mistaken for what stands behind the list. -/
theorem flatMap_append_inj {α : Type} {encode : α → List UInt8} {alike : α → α → Prop}
    (rest : List UInt8 → Prop) {xs ys : List α} {s t : List UInt8}
    (hmore : ∀ x s, rest s → rest (encode x ++ s))
    (hstep : ∀ x ∈ xs, ∀ y ∈ ys, ∀ s t, rest s → rest t → encode x ++ s = encode y ++ t →
      alike x y ∧ s = t)
    (hleft : ∀ x ∈ xs, ∀ s, rest s → encode x ++ s ≠ t)
    (hright : ∀ y ∈ ys, ∀ t, rest t → encode y ++ t ≠ s) (hs : rest s) (ht : rest t)
    (hbytes : xs.flatMap encode ++ s = ys.flatMap encode ++ t) :
    List.Forall₂ alike xs ys ∧ s = t := by
  have htail : ∀ (items : List α) {s}, rest s → rest (items.flatMap encode ++ s) := by
    intro items s hs
    induction items with
    | nil => exact hs
    | cons item items ih =>
      rw [List.flatMap_cons, List.append_assoc]
      exact hmore item _ ih
  induction xs generalizing ys with
  | nil =>
    cases ys with
    | nil => exact ⟨.nil, hbytes⟩
    | cons y ys =>
      rw [List.flatMap_cons, List.append_assoc] at hbytes
      exact absurd hbytes.symm (hright y (List.mem_cons_self ..) _ (htail ys ht))
  | cons x xs ih =>
    cases ys with
    | nil =>
      rw [List.flatMap_cons, List.append_assoc] at hbytes
      exact absurd hbytes (hleft x (List.mem_cons_self ..) _ (htail xs hs))
    | cons y ys =>
      rw [List.flatMap_cons, List.flatMap_cons, List.append_assoc, List.append_assoc] at hbytes
      obtain ⟨halike, hremaining⟩ := hstep x (List.mem_cons_self ..) y (List.mem_cons_self ..) _ _
        (htail xs hs) (htail ys ht) hbytes
      obtain ⟨hforall, hends⟩ := ih
        (fun x hx y hy => hstep x (List.mem_cons_of_mem _ hx) y (List.mem_cons_of_mem _ hy))
        (fun x hx => hleft x (List.mem_cons_of_mem _ hx))
        (fun y hy => hright y (List.mem_cons_of_mem _ hy)) hremaining
      exact ⟨.cons halike hforall, hends⟩

/-! ## Fields in a row -/

namespace Bytes

theorem framed_append_ne_nil (field s : List UInt8) : framed field ++ s ≠ [] := by
  intro hnil
  have hlength := congrArg List.length hnil
  rw [List.length_append, length_framed, List.length_nil] at hlength
  omega

theorem flatMap_framed_inj {left right : List (List UInt8)}
    (hleft : ∀ field ∈ left, field.length < UInt64.size)
    (hright : ∀ field ∈ right, field.length < UInt64.size)
    (hbytes : left.flatMap framed = right.flatMap framed) : left = right := by
  -- Nothing is known of what stands behind a field, and nothing is needed.
  obtain ⟨hfields, -⟩ := flatMap_append_inj (fun _ => True) (fun _ _ _ => trivial)
    (fun x hx y hy _ _ _ _ hframed => framed_append_inj (hleft x hx) (hright y hy) hframed)
    (fun x _ s _ => framed_append_ne_nil x s) (fun y _ t _ => framed_append_ne_nil y t)
    trivial trivial (congrArg (· ++ []) hbytes)
  exact List.forall₂_eq_eq_eq ▸ hfields

/-- A row of framed fields can be read back, without a count of them. A field may hold anything,
also what looks like a frame: the length in front says where it ends, and the row ends where no
length is left. The same goes for a row of texts. -/
theorem flatMap_framed_eq_iff :
    (∀ left right : List (List UInt8), (∀ field ∈ left ++ right, field.length < UInt64.size) →
      (left.flatMap framed = right.flatMap framed ↔ left = right)) ∧
    ∀ left right : List String, (∀ text ∈ left ++ right, (ofString text).length < UInt64.size) →
      (left.flatMap (fun text => framed (ofString text)) =
        right.flatMap (fun text => framed (ofString text)) ↔ left = right) := by
  constructor
  · intro left right hsize
    obtain ⟨hleft, hright⟩ := List.forall_mem_append.mp hsize
    exact ⟨flatMap_framed_inj hleft hright, fun hsame => by rw [hsame]⟩
  · intro left right hsize
    obtain ⟨hleft, hright⟩ := List.forall_mem_append.mp hsize
    refine ⟨fun hbytes => ?_, fun hsame => by rw [hsame]⟩
    have hrow : ∀ texts : List String, (texts.map ofString).flatMap framed =
        texts.flatMap fun text => framed (ofString text) :=
      fun _ => List.flatMap_map ..
    rw [← hrow, ← hrow] at hbytes
    have hcontents : left.map ofString = right.map ofString :=
      flatMap_framed_inj (List.forall_mem_map.mpr hleft) (List.forall_mem_map.mpr hright) hbytes
    exact List.map_injective_iff.mpr (fun _ _ => ofString_inj) hcontents

theorem flatMap_framed_ne_movedBorder_and_emptyText :
    let fields : List (List UInt8) := [framed [1], [2]]
    let moved : List (List UInt8) := [framed [1] ++ [2], []]
    let texts : List String := ["ab", "c"]
    (∀ field ∈ fields ++ moved, field.length < UInt64.size) ∧
      fields.flatMap framed ≠ moved.flatMap framed ∧
      (∀ text ∈ texts ++ "" :: texts, (ofString text).length < UInt64.size) ∧
      texts.flatMap (fun text => framed (ofString text)) ≠
        ("" :: texts).flatMap (fun text => framed (ofString text)) := by
  intro fields moved texts
  have hsize : ∀ field ∈ fields ++ moved, field.length < UInt64.size := by decide
  have htexts : ∀ text ∈ texts ++ "" :: texts, (ofString text).length < UInt64.size := by
    decide +kernel
  obtain ⟨hfields, hstrings⟩ := flatMap_framed_eq_iff
  exact ⟨hsize, fun hsame => absurd ((hfields _ _ hsize).mp hsame) (by decide), htexts,
    fun hsame => absurd ((hstrings _ _ htexts).mp hsame) (by decide)⟩

end Bytes

/-! ## Identifiers -/

namespace Text

theorem bounds_of_isIdentifierRest {c : Char} (hc : isIdentifierRest c = true) :
    0 < c.toNat ∧ c.toNat < 128 := by
  have hranges : (decide (c.val ≥ 'A'.val ∧ c.val ≤ 'Z'.val) ||
      decide (c.val ≥ 'a'.val) && decide (c.val ≤ 'z'.val) ||
      decide (c.val ≥ '0'.val) && decide (c.val ≤ '9'.val) || c == '_') = true := hc
  simp only [Bool.or_eq_true, Bool.and_eq_true, decide_eq_true_eq, beq_iff_eq,
    UInt32.le_iff_toNat_le, ge_iff_le, UInt32.reduceToNat, Char.reduceVal] at hranges
  have hvalue : c.toNat = c.val.toNat := rfl
  obtain hletter | rfl := hranges
  · omega
  · decide

theorem isIdentifierRest_of_mem {name : String} (hname : isIdentifier name = true) {c : Char}
    (hc : c ∈ name.toList) : isIdentifierRest c = true := by
  rw [isIdentifier] at hname
  cases hcs : name.toList with
  | nil =>
    rw [hcs] at hc
    cases hc
  | cons first cs =>
    rw [hcs] at hname hc
    simp only [Bool.and_eq_true, List.all_eq_true] at hname
    obtain rfl | hlater := List.mem_cons.mp hc
    · have hstart : (c.isAlpha || c == '_') = true := hname.1
      have hletter : ((c.isAlpha || c.isDigit) || c == '_') = true := by
        obtain halpha | hunderscore := (Bool.or_eq_true ..).mp hstart
        · rw [halpha, Bool.true_or, Bool.true_or]
        · rw [hunderscore, Bool.or_true]
      exact hletter
    · exact hname.2 c hlater

theorem ofString_eq_flatMap (text : String) :
    Bytes.ofString text = text.toList.flatMap String.utf8EncodeChar := by
  rw [Bytes.ofString, String.toUTF8_eq_toByteArray, ← String.utf8Encode_toList]
  simp [List.utf8Encode]

/-- The characters of an identifier take one byte each, and none is zero. -/
theorem zero_notMem_ofString {name : String} (hname : isIdentifier name = true) :
    (0 : UInt8) ∉ Bytes.ofString name := by
  rw [ofString_eq_flatMap]
  intro hzero
  obtain ⟨c, hc, hbyte⟩ := List.mem_flatMap.mp hzero
  obtain ⟨hpos, hlt⟩ := bounds_of_isIdentifierRest (isIdentifierRest_of_mem hname hc)
  have hvalue : c.val.toNat = c.toNat := rfl
  have hsize : c.utf8Size = 1 := by
    rw [Char.utf8Size_eq_one_iff, UInt32.le_iff_toNat_le, hvalue]
    exact Nat.le_of_lt_succ hlt
  rw [String.utf8EncodeChar_eq_singleton hsize, List.mem_singleton] at hbyte
  have hzero : 0 = c.val.toNat % 256 :=
    calc 0 = c.val.toUInt8.toNat := congrArg UInt8.toNat hbyte
      _ = c.val.toNat % 256 := UInt32.toNat_toUInt8 c.val
  omega

theorem ofString_ne_nil {name : String} (hname : isIdentifier name = true) :
    Bytes.ofString name ≠ [] := by
  rw [ofString_eq_flatMap]
  cases hcs : name.toList with
  | nil => simp [isIdentifier, hcs] at hname
  | cons c cs => simp

end Text

end Ubershader
