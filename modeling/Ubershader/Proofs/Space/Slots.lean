import Ubershader.Space.Declare

/-!
# Slots of partial mutations

The pairs of a skip rule go into the slots of a partial mutation, one after the other. Of two pairs
for one place the later one stays, so a slot holds the value of the last pair for its place.
-/

namespace Ubershader

section LastPairs

variable {α β : Type}

/-- A pair that no later pair with the same key follows. -/
def IsLast (pairs : List (α × β)) (pair : α × β) : Prop :=
  ∃ front back, pairs = front ++ pair :: back ∧ pair.1 ∉ back.map Prod.fst

theorem not_isLast_nil (pair : α × β) : ¬IsLast [] pair := by
  rintro ⟨front, back, hnil, -⟩
  simp at hnil

theorem isLast_cons {first pair : α × β} {pairs : List (α × β)} :
    IsLast (first :: pairs) pair ↔
      (pair = first ∧ first.1 ∉ pairs.map Prod.fst) ∨ IsLast pairs pair := by
  constructor
  · rintro ⟨front, back, hpairs, hlast⟩
    cases front with
    | nil =>
      cases hpairs
      exact .inl ⟨rfl, hlast⟩
    | cons other front =>
      cases hpairs
      exact .inr ⟨front, back, rfl, hlast⟩
  · rintro (⟨rfl, hlast⟩ | ⟨front, back, rfl, hlast⟩)
    · exact ⟨[], pairs, rfl, hlast⟩
    · exact ⟨first :: front, back, rfl, hlast⟩

theorem forall_isLast_cons {first : α × β} {pairs : List (α × β)} {P : α × β → Prop} :
    (∀ pair, IsLast (first :: pairs) pair → P pair) ↔
      (first.1 ∉ pairs.map Prod.fst → P first) ∧ ∀ pair, IsLast pairs pair → P pair := by
  constructor
  · intro hall
    refine ⟨fun hlast => ?_, fun pair hpair => ?_⟩
    · exact hall first (isLast_cons.mpr (.inl ⟨rfl, hlast⟩))
    · exact hall pair (isLast_cons.mpr (.inr hpair))
  · rintro ⟨hfirst, hlater⟩ pair hpair
    obtain ⟨rfl, hlast⟩ | hpair := isLast_cons.mp hpair
    · exact hfirst hlast
    · exact hlater pair hpair

theorem IsLast.mem {pairs : List (α × β)} {pair : α × β} (hlast : IsLast pairs pair) :
    pair ∈ pairs := by
  obtain ⟨front, back, rfl, -⟩ := hlast
  simp

/-- Every key has a last pair. -/
theorem exists_isLast {pairs : List (α × β)} {key : α} (hkey : key ∈ pairs.map Prod.fst) :
    ∃ pair, IsLast pairs pair ∧ pair.1 = key := by
  induction pairs with
  | nil => simp at hkey
  | cons first pairs ih =>
    by_cases hlater : key ∈ pairs.map Prod.fst
    · obtain ⟨pair, hpair, hname⟩ := ih hlater
      exact ⟨pair, isLast_cons.mpr (.inr hpair), hname⟩
    · have hfirst : key = first.1 := by simpa [hlater] using hkey
      exact ⟨first, isLast_cons.mpr (.inl ⟨rfl, hfirst ▸ hlater⟩), hfirst.symm⟩

end LastPairs

namespace Space

variable {space : Space}

private theorem length_foldl_slots (pairs : List (Nat × Int32)) (slots : List (Option Int32)) :
    (pairs.foldl (fun slots pair => slots.set pair.1 (some pair.2)) slots).length =
      slots.length := by
  induction pairs generalizing slots with
  | nil => rfl
  | cons pair pairs ih => simp [ih]

@[simp] theorem length_slotsOf (space : Space) (pairs : List (Nat × Int32)) :
    (space.slotsOf pairs).length = space.mutators.length := by
  rw [slotsOf, length_foldl_slots, List.length_replicate]

private theorem getElem?_foldl_set_iff {pairs : List (Nat × Int32)} {slots : List (Option Int32)}
    (hpairs : ∀ pair ∈ pairs, pair.1 < slots.length) (index : Nat) (value : Int32) :
    (pairs.foldl (fun slots pair => slots.set pair.1 (some pair.2)) slots)[index]? =
        some (some value) ↔
      IsLast pairs (index, value) ∨
        (index ∉ pairs.map Prod.fst ∧ slots[index]? = some (some value)) := by
  induction pairs generalizing slots with
  | nil => simp [not_isLast_nil]
  | cons first pairs ih =>
    obtain ⟨hfirst, hlater⟩ := List.forall_mem_cons.mp hpairs
    rw [List.foldl_cons, ih (by simpa using hlater), isLast_cons, List.map_cons, List.mem_cons]
    obtain ⟨place, wanted⟩ := first
    by_cases hindex : place = index
    · subst hindex
      rw [List.getElem?_set_self hfirst]
      grind
    · rw [List.getElem?_set_ne hindex]
      grind

/-- A slot holds the value of the last pair for its place. -/
theorem getElem?_slotsOf_iff {pairs : List (Nat × Int32)}
    (hpairs : ∀ pair ∈ pairs, pair.1 < space.mutators.length) {index : Nat} {value : Int32} :
    (space.slotsOf pairs)[index]? = some (some value) ↔ IsLast pairs (index, value) := by
  rw [slotsOf, getElem?_foldl_set_iff (by simpa using hpairs)]
  simp [List.getElem?_replicate]

end Space

end Ubershader
