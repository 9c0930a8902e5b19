import Ubershader.Program.Fingerprint
import Ubershader.Proofs.Bytes
import Ubershader.Proofs.Space.WellFormed

/-!
# The byte form of a space

The byte form of a space can be read back, with one exception: a mutator does not say how many
values it has, so the name of a mutator may be taken for more values of the mutator before it.
Spaces whose mutators have equally many values have different byte forms, unless they are equal.
-/

namespace Ubershader

/-- A field that is closed by a zero can be read back if it has no zero. -/
theorem append_zero_inj {left right s t : List UInt8} (hleft : 0 ∉ left) (hright : 0 ∉ right)
    (hbytes : left ++ 0 :: s = right ++ 0 :: t) : left = right ∧ s = t := by
  induction left generalizing right with
  | nil =>
    cases right with
    | nil => exact ⟨rfl, List.tail_eq_of_cons_eq hbytes⟩
    | cons b right =>
      have hhead : 0 = b := List.head_eq_of_cons_eq hbytes
      exact absurd (hhead ▸ List.mem_cons_self ..) hright
  | cons a left ih =>
    cases right with
    | nil =>
      have hhead : a = 0 := List.head_eq_of_cons_eq hbytes
      exact absurd (hhead ▸ List.mem_cons_self ..) hleft
    | cons b right =>
      obtain ⟨rfl, htail⟩ := List.cons.inj hbytes
      obtain ⟨rfl, hrest⟩ := ih (fun hmem => hleft (List.mem_cons_of_mem _ hmem))
        (fun hmem => hright (List.mem_cons_of_mem _ hmem)) htail
      exact ⟨rfl, hrest⟩

def Space.valueCounts (space : Space) : List Nat :=
  space.mutators.map fun mutator => mutator.values.length

theorem mutators_append_inj {xs ys : List Mutator} {s t : List UInt8}
    (hxs : ∀ mutator ∈ xs, mutator.WellFormed) (hys : ∀ mutator ∈ ys, mutator.WellFormed)
    (hcounts : (xs.map fun mutator => mutator.values.length) =
      ys.map fun mutator => mutator.values.length)
    (hbytes : xs.flatMap Mutator.bytes ++ s = ys.flatMap Mutator.bytes ++ t) :
    xs = ys ∧ s = t := by
  induction xs generalizing ys with
  | nil =>
    have hnil : ys = [] := List.map_eq_nil_iff.mp hcounts.symm
    rw [hnil] at hbytes ⊢
    exact ⟨rfl, hbytes⟩
  | cons x xs ih =>
    cases ys with
    | nil => cases hcounts
    | cons y ys =>
      obtain ⟨hcount, hlater⟩ := List.cons.inj hcounts
      obtain ⟨hx, hxs⟩ := List.forall_mem_cons.mp hxs
      obtain ⟨hy, hys⟩ := List.forall_mem_cons.mp hys
      simp only [List.flatMap_cons, Mutator.bytes, List.append_assoc, List.cons_append,
        List.nil_append] at hbytes
      obtain ⟨hname, hrest⟩ := append_zero_inj (Text.zero_notMem_ofString hx.identifier)
        (Text.zero_notMem_ofString hy.identifier) hbytes
      obtain ⟨hvalues, htail⟩ := Bytes.flatMap_ofInt32_append_inj hcount hrest
      obtain ⟨rfl, hends⟩ := ih hxs hys hlater htail
      have hsame : x = y := by
        obtain ⟨name, values⟩ := x
        obtain ⟨otherName, otherValues⟩ := y
        cases hvalues
        cases Bytes.ofString_inj hname
        rfl
      exact ⟨by rw [hsame], hends⟩

/-- What may stand behind a rule: nothing, or the letter of another rule. -/
def StartsRule (bytes : List UInt8) : Prop :=
  ∀ byte ∈ bytes.head?, byte = 0x73 ∨ byte = 0x72

theorem slots_append_inj {xs ys : List (Option Int32)} {s t : List UInt8} (hs : StartsRule s)
    (ht : StartsRule t)
    (hbytes : xs.flatMap SkipRule.slotBytes ++ s = ys.flatMap SkipRule.slotBytes ++ t) :
    xs = ys ∧ s = t := by
  -- A slot starts with a zero or a one, which no letter is.
  have hletter : ∀ (slot : Option Int32) (bytes tail : List UInt8), StartsRule tail →
      SkipRule.slotBytes slot ++ bytes ≠ tail := by
    intro slot bytes tail htail heq
    rw [← heq] at htail
    cases slot with
    | none => exact absurd (htail 0 rfl) (by decide)
    | some value => exact absurd (htail 1 rfl) (by decide)
  have hslot : ∀ (x y : Option Int32) (s t : List UInt8),
      SkipRule.slotBytes x ++ s = SkipRule.slotBytes y ++ t → x = y ∧ s = t := by
    intro x y s t hslots
    cases x with
    | none =>
      cases y with
      | none => exact ⟨rfl, List.tail_eq_of_cons_eq hslots⟩
      | some value => exact absurd (List.head_eq_of_cons_eq hslots) (by decide)
    | some value =>
      cases y with
      | none => exact absurd (List.head_eq_of_cons_eq hslots) (by decide)
      | some other =>
        obtain ⟨rfl, hrest⟩ := Bytes.ofInt32_append_inj (List.tail_eq_of_cons_eq hslots)
        exact ⟨rfl, hrest⟩
  obtain ⟨hforall, hends⟩ := flatMap_append_inj (fun _ => True) (fun _ _ _ => trivial)
    (fun x _ y _ s t _ _ => hslot x y s t) (fun x _ bytes _ => hletter x bytes t ht)
    (fun y _ bytes _ => hletter y bytes s hs) trivial trivial hbytes
  exact ⟨by simpa using hforall, hends⟩

theorem skips_append_inj {xs ys : List SkipRule} {s t : List UInt8} (hs : StartsRule s)
    (ht : StartsRule t) (hsends : s.head? ≠ some 0x73) (htends : t.head? ≠ some 0x73)
    (hbytes : xs.flatMap SkipRule.bytes ++ s = ys.flatMap SkipRule.bytes ++ t) :
    xs = ys ∧ s = t := by
  have hmore : ∀ (rule : SkipRule) (bytes : List UInt8), StartsRule (rule.bytes ++ bytes) := by
    intro rule bytes byte hbyte
    cases hbyte
    exact .inl rfl
  have hrule : ∀ (x y : SkipRule) (s t : List UInt8), StartsRule s → StartsRule t →
      x.bytes ++ s = y.bytes ++ t → x = y ∧ s = t := by
    intro x y s t hs ht hrules
    obtain ⟨xs⟩ := x
    obtain ⟨ys⟩ := y
    obtain ⟨rfl, hrest⟩ := slots_append_inj hs ht (List.tail_eq_of_cons_eq hrules)
    exact ⟨rfl, hrest⟩
  have hends : ∀ (rule : SkipRule) (bytes tail : List UInt8), tail.head? ≠ some 0x73 →
      rule.bytes ++ bytes ≠ tail := by
    intro rule bytes tail htail heq
    exact htail (heq ▸ rfl)
  obtain ⟨hforall, hrest⟩ := flatMap_append_inj StartsRule (fun rule bytes _ => hmore rule bytes)
    (fun x _ y _ => hrule x y) (fun x _ bytes _ => hends x bytes t htends)
    (fun y _ bytes _ => hends y bytes s hsends) hs ht hbytes
  exact ⟨by simpa using hforall, hrest⟩

theorem changes_append_inj {xs ys : List Change} {s t : List UInt8}
    (hxs : ∀ change ∈ xs, change.index < Space.maxMutators)
    (hys : ∀ change ∈ ys, change.index < Space.maxMutators) (hs : StartsRule s)
    (ht : StartsRule t) (hbytes : xs.flatMap Change.bytes ++ s = ys.flatMap Change.bytes ++ t) :
    xs = ys ∧ s = t := by
  -- A change starts with the low byte of an index, which is too small to be a letter.
  have hletter : ∀ change : Change, change.index < Space.maxMutators →
      ∀ bytes tail : List UInt8, StartsRule tail → change.bytes ++ bytes ≠ tail := by
    intro change hindex bytes tail htail heq
    rw [← heq] at htail
    have hbyte := htail (UInt8.ofNat (change.index % 256)) rfl
    have hsmall : (UInt8.ofNat (change.index % 256)).toNat < 64 := by
      rw [Space.maxMutators] at hindex
      rw [UInt8.toNat_ofNat']
      omega
    obtain hs | hr := hbyte
    · rw [hs] at hsmall
      exact absurd hsmall (by decide)
    · rw [hr] at hsmall
      exact absurd hsmall (by decide)
  have hchange : ∀ x : Change, x.index < Space.maxMutators → ∀ y : Change,
      y.index < Space.maxMutators → ∀ s t, x.bytes ++ s = y.bytes ++ t → x = y ∧ s = t := by
    intro x hx y hy s t hchanges
    rw [Space.maxMutators] at hx hy
    obtain ⟨index, before, after⟩ := x
    obtain ⟨otherIndex, otherBefore, otherAfter⟩ := y
    simp only [Change.bytes, List.append_assoc] at hchanges hx hy
    have hpow : 64 ≤ Nat.pow 256 4 := by decide
    obtain ⟨rfl, hvalues⟩ := littleEndian_append_inj (by omega) (by omega) hchanges
    obtain ⟨rfl, hlast⟩ := Bytes.ofInt32_append_inj hvalues
    obtain ⟨rfl, hrest⟩ := Bytes.ofInt32_append_inj hlast
    exact ⟨rfl, hrest⟩
  obtain ⟨hforall, hends⟩ := flatMap_append_inj (fun _ => True) (fun _ _ _ => trivial)
    (fun x hx y hy s t _ _ => hchange x (hxs x hx) y (hys y hy) s t)
    (fun x hx bytes _ => hletter x (hxs x hx) bytes t ht)
    (fun y hy bytes _ => hletter y (hys y hy) bytes s hs) trivial trivial hbytes
  exact ⟨by simpa using hforall, hends⟩

theorem startsRule_replacements (rules : List Replacement) :
    StartsRule (rules.flatMap Replacement.bytes) ∧
      (rules.flatMap Replacement.bytes).head? ≠ some 0x73 := by
  cases rules with
  | nil => exact ⟨by simp [StartsRule], by simp⟩
  | cons rule rules => exact ⟨by simp [StartsRule, Replacement.bytes], by simp [Replacement.bytes]⟩

theorem replacements_inj {xs ys : List Replacement}
    (hxs : ∀ rule ∈ xs, ∀ change ∈ rule.changes, change.index < Space.maxMutators)
    (hys : ∀ rule ∈ ys, ∀ change ∈ rule.changes, change.index < Space.maxMutators)
    (hbytes : xs.flatMap Replacement.bytes = ys.flatMap Replacement.bytes) : xs = ys := by
  have hmore : ∀ (rule : Replacement) (bytes : List UInt8),
      StartsRule (rule.bytes ++ bytes) := by
    intro rule bytes byte hbyte
    cases hbyte
    exact .inr rfl
  have hrule : ∀ x ∈ xs, ∀ y ∈ ys, ∀ s t, StartsRule s → StartsRule t →
      x.bytes ++ s = y.bytes ++ t → x = y ∧ s = t := by
    intro x hx y hy s t hs ht hrules
    have hchanges := changes_append_inj (hxs x hx) (hys y hy) hs ht
      (List.tail_eq_of_cons_eq hrules)
    obtain ⟨changes⟩ := x
    obtain ⟨others⟩ := y
    obtain ⟨rfl, hrest⟩ := hchanges
    exact ⟨rfl, hrest⟩
  have hempty : StartsRule [] := by simp [StartsRule]
  obtain ⟨hforall, -⟩ := flatMap_append_inj StartsRule (fun rule bytes _ => hmore rule bytes) hrule
    (fun x _ bytes _ heq => by cases heq) (fun y _ bytes _ heq => by cases heq) hempty hempty
    (congrArg (· ++ []) hbytes)
  simpa using hforall

namespace Space

variable {space other : Space}

theorem WellFormed.index_lt (hspace : space.WellFormed) {rule : Replacement}
    (hrule : rule ∈ space.replacements) {change : Change} (hchange : change ∈ rule.changes) :
    change.index < maxMutators :=
  Nat.lt_of_lt_of_le ((hspace.replacements rule hrule).before change hchange).lt hspace.length_le

/-- Spaces with the same byte form are equal if their mutators have equally many values. -/
theorem eq_of_bytes_eq (hspace : space.WellFormed) (hother : other.WellFormed)
    (hcounts : space.valueCounts = other.valueCounts) (hbytes : space.bytes = other.bytes) :
    space = other := by
  rw [bytes, bytes, List.append_assoc, List.append_assoc] at hbytes
  obtain ⟨hmutators, hrules⟩ :=
    mutators_append_inj hspace.mutators hother.mutators hcounts hbytes
  obtain ⟨hstarts, hends⟩ := startsRule_replacements space.replacements
  obtain ⟨hotherStarts, hotherEnds⟩ := startsRule_replacements other.replacements
  obtain ⟨hskips, hrest⟩ := skips_append_inj hstarts hotherStarts hends hotherEnds hrules
  have hreplacements := replacements_inj (fun _ hrule _ => hspace.index_lt hrule)
    (fun _ hrule _ => hother.index_lt hrule) hrest
  obtain ⟨mutators, skips, replacements⟩ := space
  obtain ⟨otherMutators, otherSkips, otherReplacements⟩ := other
  cases hmutators
  cases hskips
  cases hreplacements
  rfl

/-- There are no rules without mutators, so a byte form that is not empty closes a name. -/
theorem WellFormed.zero_mem_bytes (hspace : space.WellFormed) (hbytes : space.bytes ≠ []) :
    (0 : UInt8) ∈ space.bytes := by
  cases hmutators : space.mutators with
  | cons mutator mutators => simp [bytes, hmutators, Mutator.bytes]
  | nil =>
    have hskips : space.skips = [] := by
      refine List.eq_nil_iff_forall_not_mem.mpr fun rule hrule => ?_
      obtain ⟨index, value, hslot⟩ := (hspace.skips rule hrule).fixed
      have hlt := ((hspace.skips rule hrule).legal index value hslot).lt
      simp [hmutators] at hlt
    have hreplacements : space.replacements = [] := by
      refine List.eq_nil_iff_forall_not_mem.mpr fun rule hrule => ?_
      obtain ⟨change, hchange⟩ :=
        List.exists_mem_of_ne_nil _ (hspace.replacements rule hrule).inhabited
      have hlt := ((hspace.replacements rule hrule).before change hchange).lt
      simp [hmutators] at hlt
    simp [bytes, hmutators, hskips, hreplacements] at hbytes

end Space

end Ubershader
