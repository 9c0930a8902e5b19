import Ubershader.Proofs.Space.Declarations

/-!
# What pairs of tokens say

Rules are written with pairs of tokens: one names a mutator, and the other one a value. A pair
*denotes* a place in a mutation and a value, and it *holds* of a mutation that has this value at
this place.

Declarations add at the ends of the lists of a space. A mutator therefore stays where it is, and a
pair goes on to denote what it denoted when a rule was declared with it.
-/

namespace Ubershader

def pairsOf (args : List String) : List (String × String) :=
  inPairs (Text.beforeComment args)

namespace Space

variable {space last : Space} {mutation : Mutation} {pair : String × String}
variable {resolved : Nat × Int32}

/-! ## Later declarations -/

/-- A space that goes on from another one: what was declared first is still there, at the same
place. So what a rule names by its place stays the same. -/
structure Extends (space last : Space) : Prop where
  mutators : space.mutators <+: last.mutators
  skips : space.skips <+: last.skips
  replacements : space.replacements <+: last.replacements

theorem Extends.refl (space : Space) : space.Extends space :=
  ⟨List.prefix_refl _, List.prefix_refl _, List.prefix_refl _⟩

theorem Extends.trans {middle : Space} (hfirst : space.Extends middle)
    (hsecond : middle.Extends last) : space.Extends last where
  mutators := hfirst.mutators.trans hsecond.mutators
  skips := hfirst.skips.trans hsecond.skips
  replacements := hfirst.replacements.trans hsecond.replacements

theorem extends_of_declare {declaration : Declaration}
    (hlast : space.declare declaration = .ok last) : space.Extends last := by
  cases declaration with
  | mutator args =>
    obtain ⟨mutator, -, rfl⟩ := exists_of_map_eq_ok hlast
    exact ⟨List.prefix_append _ _, List.prefix_refl _, List.prefix_refl _⟩
  | skip args =>
    obtain ⟨rule, -, rfl⟩ := exists_of_map_eq_ok hlast
    exact ⟨List.prefix_refl _, List.prefix_append _ _, List.prefix_refl _⟩
  | replacement args =>
    obtain ⟨rule, -, rfl⟩ := exists_of_map_eq_ok hlast
    exact ⟨List.prefix_refl _, List.prefix_refl _, List.prefix_append _ _⟩

theorem extends_of_declareAll {declarations : List Declaration}
    (hlast : space.declareAll declarations = .ok last) : space.Extends last := by
  induction declarations generalizing space with
  | nil =>
    cases hlast
    exact Extends.refl _
  | cons declaration declarations ih =>
    obtain ⟨middle, hmiddle, hrest⟩ := exists_of_bind_eq_ok hlast
    exact (extends_of_declare hmiddle).trans (ih hrest)

/-! ## What a pair denotes -/

/-- A pair of tokens names the mutator at a given place and a given value. -/
def Denotes (space : Space) (pair : String × String) (resolved : Nat × Int32) : Prop :=
  space.mutatorIndex? pair.1 = some resolved.1 ∧ Text.int32? pair.2 = some resolved.2

/-- A mutation has the value that a pair names at the mutator that it names. -/
def Holds (space : Space) (mutation : Mutation) (pair : String × String) : Prop :=
  ∃ resolved, space.Denotes pair resolved ∧ mutation[resolved.1]? = some resolved.2

theorem Denotes.unique {other : Nat × Int32} (hdenotes : space.Denotes pair resolved)
    (hother : space.Denotes pair other) : resolved = other := by
  have hindex := hdenotes.1.symm.trans hother.1
  have hvalue := hdenotes.2.symm.trans hother.2
  exact Prod.ext (Option.some.inj hindex) (Option.some.inj hvalue)

theorem Denotes.holds_iff (hdenotes : space.Denotes pair resolved) :
    space.Holds mutation pair ↔ mutation[resolved.1]? = some resolved.2 := by
  constructor
  · rintro ⟨other, hother, hvalue⟩
    rw [hdenotes.unique hother]
    exact hvalue
  · intro hvalue
    exact ⟨resolved, hdenotes, hvalue⟩

theorem Holds.congr {other : String × String} (hholds : space.Holds mutation pair)
    (hname : pair.1 = other.1) (hvalue : Text.int32? pair.2 = Text.int32? other.2) :
    space.Holds mutation other := by
  obtain ⟨resolved, hdenotes, hmutation⟩ := hholds
  refine ⟨resolved, ⟨?_, ?_⟩, hmutation⟩
  · rw [← hname]
    exact hdenotes.1
  · rw [← hvalue]
    exact hdenotes.2

/-- The mutator at the position of a name has that name. -/
theorem exists_of_mutatorIndex? {name : String} {index : Nat}
    (hindex : space.mutatorIndex? name = some index) :
    ∃ mutator, space.mutators[index]? = some mutator ∧ mutator.name = name := by
  obtain ⟨hlt, hname, -⟩ := List.findIdx?_eq_some_iff_getElem.mp hindex
  exact ⟨space.mutators[index], List.getElem?_eq_getElem hlt, by simpa using hname⟩

theorem WellFormed.exists_mutatorIndex? (hspace : space.WellFormed) {mutator : Mutator}
    (hmutator : mutator ∈ space.mutators) :
    ∃ index, space.mutatorIndex? mutator.name = some index ∧
      space.mutators[index]? = some mutator := by
  have hfound : (space.mutatorIndex? mutator.name).isSome = true := by
    rw [mutatorIndex?, List.findIdx?_isSome, List.any_eq_true]
    exact ⟨mutator, hmutator, beq_self_eq_true _⟩
  obtain ⟨index, hindex⟩ := Option.isSome_iff_exists.mp hfound
  obtain ⟨other, hother, hname⟩ := exists_of_mutatorIndex? hindex
  have hsame : other = mutator :=
    List.inj_on_of_nodup_map hspace.names (List.mem_of_getElem? hother) hmutator hname
  exact ⟨index, hindex, hsame ▸ hother⟩

/-- The position of a mutator's name is the position of the mutator. -/
theorem WellFormed.mutatorIndex?_eq_some (hspace : space.WellFormed) {index : Nat}
    {mutator : Mutator} (hmutator : space.mutators[index]? = some mutator) :
    space.mutatorIndex? mutator.name = some index := by
  obtain ⟨place, hplace, hsame⟩ := hspace.exists_mutatorIndex? (List.mem_of_getElem? hmutator)
  have hlt : index < space.mutators.length := (List.getElem?_eq_some_iff.mp hmutator).1
  obtain rfl : index = place :=
    (List.getElem?_inj hlt (List.Nodup.of_map _ hspace.names)).mp (hmutator.trans hsame.symm)
  exact hplace

/-- Different names have different positions. -/
theorem mutatorIndex?_inj {name other : String} {index : Nat}
    (hname : space.mutatorIndex? name = some index)
    (hother : space.mutatorIndex? other = some index) : name = other := by
  obtain ⟨mutator, hmutator, rfl⟩ := exists_of_mutatorIndex? hname
  obtain ⟨_, hsame, rfl⟩ := exists_of_mutatorIndex? hother
  rw [hmutator] at hsame
  rw [Option.some.inj hsame]

theorem Denotes.fst_eq_iff {other : String × String} {place : Nat × Int32}
    (hdenotes : space.Denotes pair resolved) (hother : space.Denotes other place) :
    resolved.1 = place.1 ↔ pair.1 = other.1 := by
  constructor
  · intro hindex
    exact mutatorIndex?_inj hdenotes.1 (hindex ▸ hother.1)
  · intro hname
    exact Option.some.inj (hdenotes.1.symm.trans ((congrArg _ hname).trans hother.1))

/-- Pairs name the same mutators as the places that they denote. -/
theorem mem_map_fst_iff {pairs : List (String × String)} {places : List (Nat × Int32)}
    (hplaces : List.Forall₂ space.Denotes pairs places) (hdenotes : space.Denotes pair resolved) :
    resolved.1 ∈ places.map Prod.fst ↔ pair.1 ∈ pairs.map Prod.fst := by
  induction hplaces with
  | nil => simp
  | cons hfirst _ ih =>
    rw [List.map_cons, List.map_cons, List.mem_cons, List.mem_cons, ih,
      hdenotes.fst_eq_iff hfirst]

/-- Mutators that are declared later leave the earlier ones where they are. -/
theorem mutatorIndex?_mono (hmutators : space.mutators <+: last.mutators) {name : String}
    {index : Nat} (hindex : space.mutatorIndex? name = some index) :
    last.mutatorIndex? name = some index := by
  obtain ⟨more, hmore⟩ := hmutators
  rw [mutatorIndex?] at hindex
  rw [mutatorIndex?, ← hmore, List.findIdx?_append, hindex, Option.some_or]

theorem Denotes.mono (hmutators : space.mutators <+: last.mutators)
    (hdenotes : space.Denotes pair resolved) : last.Denotes pair resolved :=
  ⟨mutatorIndex?_mono hmutators hdenotes.1, hdenotes.2⟩

/-- A pair is accepted if it denotes a value that its mutator can take. -/
theorem pairOf_eq_ok_iff : space.pairOf pair = .ok resolved ↔
    space.Denotes pair resolved ∧ Legal space.mutators resolved.1 resolved.2 := by
  constructor
  · intro hpair
    refine ⟨?_, legal_of_pairOf hpair⟩
    rw [pairOf] at hpair
    split at hpair
    · cases hpair
    · next index hindex =>
      split at hpair
      · cases hpair
      · next value hvalue =>
        split at hpair
        · cases hpair
          exact ⟨hindex, hvalue⟩
        · cases hpair
  · rintro ⟨⟨hindex, hvalue⟩, hlegal⟩
    have hany := (Option.any_eq_true ..).mpr hlegal
    simp only [pairOf, hindex, hvalue, hany, if_true]

end Space

end Ubershader
