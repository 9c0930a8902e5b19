import Mathlib.Data.Finset.Dedup
import Ubershader.Proofs.Space.WellFormed

/-!
# Spaces that are made by declarations

Mutators, skip rules and replacement rules are declared one after the other, in any order, and
each declaration is checked against the space that the ones before it have made. `Space.declareAll`
is that process. Whatever is declared, the space that comes out is well formed.

The check for a repeated replacement rule compares patterns as lists. Patterns are ordered by the
index of the mutator and have every index once, so this is the same as comparing them as sets.
-/

namespace Ubershader

/-- A declaration that adds to a space, with its arguments as they are written. -/
inductive Declaration
  | mutator (args : List String)
  | skip (args : List String)
  | replacement (args : List String)
deriving DecidableEq, Repr

namespace Space

def declare (space : Space) : Declaration → Except Complaint Space
  | .mutator args => (space.mutatorOf args).map space.addMutator
  | .skip args => (space.skipRuleOf args).map space.addSkip
  | .replacement args => (space.replacementOf args).map space.addReplacement

def declareAll (space : Space) (declarations : List Declaration) : Except Complaint Space :=
  declarations.foldlM declare space

end Space

theorem exists_of_map_eq_ok {ε α β : Type} {checked : Except ε α} {f : α → β} {b : β}
    (hmap : checked.map f = .ok b) : ∃ a, checked = .ok a ∧ f a = b := by
  cases checked with
  | error complaint => cases hmap
  | ok a => exact ⟨a, rfl, Except.ok.inj hmap⟩

namespace Space

variable {space next : Space}

/-- Every declaration that is accepted keeps a space well formed. -/
theorem WellFormed.declare (hspace : space.WellFormed) {declaration : Declaration}
    (hnext : space.declare declaration = .ok next) : next.WellFormed := by
  cases declaration with
  | mutator args =>
    obtain ⟨mutator, hmutator, rfl⟩ := exists_of_map_eq_ok hnext
    exact hspace.addMutator hmutator
  | skip args =>
    obtain ⟨rule, hrule, rfl⟩ := exists_of_map_eq_ok hnext
    exact hspace.addSkip hrule
  | replacement args =>
    obtain ⟨rule, hrule, rfl⟩ := exists_of_map_eq_ok hnext
    exact hspace.addReplacement hrule

theorem WellFormed.declareAll (hspace : space.WellFormed) {declarations : List Declaration}
    (hlast : space.declareAll declarations = .ok next) : next.WellFormed := by
  induction declarations generalizing space with
  | nil =>
    cases hlast
    exact hspace
  | cons declaration declarations ih =>
    obtain ⟨middle, hmiddle, hrest⟩ := exists_of_bind_eq_ok hlast
    exact ih (hspace.declare hmiddle) hrest

end Space

namespace Replacement

variable {mutators : List Mutator} {rule other : Replacement}

/-- A pattern goes up in the index of the mutator. -/
theorem Fits.pairwise_pattern (hfits : rule.Fits mutators) :
    rule.pattern.Pairwise fun pair later => pair.1 < later.1 :=
  List.pairwise_map.mpr hfits.increasing

theorem Fits.nodup_pattern (hfits : rule.Fits mutators) : rule.pattern.Nodup := by
  refine hfits.pairwise_pattern.imp ?_
  rintro pair _ hlt rfl
  exact Nat.lt_irrefl _ hlt

/-- A pattern is determined by the set of its pairs. -/
theorem Fits.pattern_eq (hfits : rule.Fits mutators) (hother : other.Fits mutators)
    (hset : rule.pattern.toFinset = other.pattern.toFinset) : rule.pattern = other.pattern := by
  have hperm : rule.pattern.Perm other.pattern :=
    List.perm_of_nodup_nodup_toFinset_eq hfits.nodup_pattern hother.nodup_pattern hset
  refine hperm.eq_of_pairwise ?_ hfits.pairwise_pattern hother.pairwise_pattern
  intro pair later _ _ hlt hgt
  exact absurd hgt (Nat.lt_asymm hlt)

end Replacement

/-- No two replacement rules of a well-formed space ask the same of a mutation. -/
theorem Space.WellFormed.nodup_patterns {space : Space} (hspace : space.WellFormed) :
    (space.replacements.map fun rule => rule.pattern.toFinset).Nodup := by
  refine List.pairwise_map.mpr ((List.pairwise_map.mp hspace.patterns).imp_of_mem ?_)
  intro rule other hrule hother hne hset
  exact hne ((hspace.replacements rule hrule).pattern_eq (hspace.replacements other hother) hset)

/-- A space that is made by declarations is well formed, whatever they are and in whatever order
they come: there are at most 64 mutators, with different short identifiers as names and several
increasing values each; rules speak of mutators that are there and of values that those can take;
and no two replacement rules have the same set of mutators and values to be replaced. -/
theorem wellFormed_and_nodup_of_declareAll {declarations : List Declaration} {space : Space}
    (hspace : ({} : Space).declareAll declarations = .ok space) :
    space.WellFormed ∧ (space.replacements.map fun rule => rule.pattern.toFinset).Nodup := by
  have hwell : space.WellFormed := Space.wellFormed_empty.declareAll hspace
  exact ⟨hwell, hwell.nodup_patterns⟩

/-- Rules that were declared when there were fewer mutators, and two replacement rules that differ
in one value. -/
def layeredDeclarations : List Declaration :=
  [.mutator ["B", "3", "1", "2"], .mutator ["A", "-1", "0"],
   .skip ["A", "0", "B", "3", "//", "both"],
   .replacement ["A", "0", "B", "1", "to", "B", "2", "A", "-1"], .mutator ["C", "7", "+6"],
   .replacement ["B", "2", "A", "0", "to", "A", "0", "B", "1"], .skip ["C", "6", "A", "-1"]]

theorem wellFormed_layeredDeclarations :
    ∃ space, ({} : Space).declareAll layeredDeclarations = .ok space ∧
      space.mutators = [⟨"B", [1, 2, 3]⟩, ⟨"A", [-1, 0]⟩, ⟨"C", [6, 7]⟩] ∧
      space.skips = [⟨[some 3, some 0]⟩, ⟨[none, some (-1), some 6]⟩] ∧
      space.replacements.map Replacement.pattern = [[(0, 1), (1, 0)], [(0, 2), (1, 0)]] ∧
      space.WellFormed ∧ (space.replacements.map fun rule => rule.pattern.toFinset).Nodup := by
  have hcheck : (({} : Space).declareAll layeredDeclarations).toOption.any (fun space =>
      decide (space.mutators = [⟨"B", [1, 2, 3]⟩, ⟨"A", [-1, 0]⟩, ⟨"C", [6, 7]⟩] ∧
        space.skips = [⟨[some 3, some 0]⟩, ⟨[none, some (-1), some 6]⟩] ∧
        space.replacements.map Replacement.pattern =
          [[(0, 1), (1, 0)], [(0, 2), (1, 0)]])) = true := by
    decide +kernel
  obtain ⟨space, hspace, hfacts⟩ := (Option.any_eq_true ..).mp hcheck
  obtain ⟨hmutators, hskips, hpatterns⟩ := of_decide_eq_true hfacts
  have hdeclared := eq_ok_of_toOption hspace
  exact ⟨space, hdeclared, hmutators, hskips, hpatterns,
    wellFormed_and_nodup_of_declareAll hdeclared⟩

end Ubershader
