import Ubershader.Proofs.Space.Skipping

/-!
# Rules and later declarations

What is declared later does not disturb the rules that are there. Two things could: a mutation gets
more values at its end, for the mutators that are new, and a space gets more rules after its own.
The first does not matter because a rule speaks of the mutators before it only, so it applies to a
longer mutation if it applies to the part that it knows, and leaves the rest of it alone. The second
does not matter because one skip rule is enough for a mutation to be skipped, and because of the
replacement rules that apply the first one counts.
-/

namespace Ubershader

/-! ## More values -/

namespace SkipRule

/-- A rule does not look at the values past its slots. -/
theorem applies_append {rule : SkipRule} {mutation : Mutation}
    (hlength : rule.slots.length ≤ mutation.length) (tail : Mutation) :
    rule.applies (mutation ++ tail) = rule.applies mutation := by
  obtain ⟨slots⟩ := rule
  dsimp only [applies] at hlength ⊢
  induction slots generalizing mutation with
  | nil => simp [slotsMatch]
  | cons slot slots ih =>
    cases mutation with
    | nil => simp at hlength
    | cons value mutation =>
      rw [List.cons_append, slotsMatch_cons, slotsMatch_cons, ih (Nat.le_of_succ_le_succ hlength)]

end SkipRule

namespace Replacement

variable {mutators : List Mutator} {rule : Replacement} {mutation : Mutation}

theorem Fits.index_lt (hrule : rule.Fits mutators) (hlength : mutation.length = mutators.length) :
    ∀ change ∈ rule.changes, change.index < mutation.length := by
  intro change hchange
  rw [hlength]
  exact (hrule.before change hchange).lt

/-- A rule does not look at the values past its mutators. -/
theorem Fits.applies_append (hrule : rule.Fits mutators)
    (hlength : mutation.length = mutators.length) (tail : Mutation) :
    rule.applies (mutation ++ tail) = rule.applies mutation := by
  have hplaces : ∀ change ∈ rule.changes,
      (mutation ++ tail)[change.index]? = mutation[change.index]? := fun change hchange =>
    List.getElem?_append_left (hrule.index_lt hlength change hchange)
  rw [Bool.eq_iff_iff, applies, applies, List.all_eq_true, List.all_eq_true]
  refine forall₂_congr fun change hchange => ?_
  rw [hplaces change hchange]

private theorem foldl_set_append {changes : List Change}
    (hindices : ∀ change ∈ changes, change.index < mutation.length) (tail : Mutation) :
    changes.foldl (fun mutation change => mutation.set change.index change.after)
        (mutation ++ tail) =
      changes.foldl (fun mutation change => mutation.set change.index change.after) mutation ++
        tail := by
  induction changes generalizing mutation with
  | nil => rfl
  | cons change changes ih =>
    obtain ⟨hfirst, hlater⟩ := List.forall_mem_cons.mp hindices
    rw [List.foldl_cons, List.foldl_cons, List.set_append_left _ _ hfirst]
    exact ih (by simpa using hlater)

/-- A rule leaves the values past its mutators alone. -/
theorem Fits.apply_append (hrule : rule.Fits mutators)
    (hlength : mutation.length = mutators.length) (tail : Mutation) :
    rule.apply (mutation ++ tail) = rule.apply mutation ++ tail :=
  foldl_set_append (hrule.index_lt hlength) tail

end Replacement

namespace Space

variable {space last : Space} {mutation : Mutation}

theorem WellFormed.isSkipped_append (hspace : space.WellFormed)
    (hlength : mutation.length = space.mutators.length) (tail : Mutation) :
    space.isSkipped (mutation ++ tail) = space.isSkipped mutation := by
  rw [Bool.eq_iff_iff, isSkipped, isSkipped, List.any_eq_true, List.any_eq_true]
  refine exists_congr fun rule => and_congr_right fun hrule => ?_
  rw [SkipRule.applies_append (hlength ▸ (hspace.skips rule hrule).length_le)]

theorem WellFormed.replaceOnce?_append (hspace : space.WellFormed)
    (hlength : mutation.length = space.mutators.length) (tail : Mutation) :
    space.replaceOnce? (mutation ++ tail) = (space.replaceOnce? mutation).map (· ++ tail) := by
  have hfound : (space.replacements.find? fun rule => rule.applies (mutation ++ tail)) =
      space.replacements.find? fun rule => rule.applies mutation := by
    rw [← List.head?_filter, ← List.head?_filter]
    refine congrArg List.head? (List.filter_congr fun rule hrule => ?_)
    exact (hspace.replacements rule hrule).applies_append hlength tail
  rw [replaceOnce?, replaceOnce?, hfound, Option.map_map]
  refine Option.map_congr fun rule hrule => ?_
  exact (hspace.replacements rule (List.mem_of_find?_eq_some hrule)).apply_append hlength tail

/-! ## More rules -/

theorem Extends.isSkipped (hextends : space.Extends last)
    (hskipped : space.isSkipped mutation = true) : last.isSkipped mutation = true := by
  obtain ⟨rule, hrule, happlies⟩ := List.any_eq_true.mp hskipped
  exact List.any_eq_true.mpr ⟨rule, hextends.skips.subset hrule, happlies⟩

/-- The first rule that applies is still the first one when there are more rules after it. -/
theorem Extends.replaceOnce? (hextends : space.Extends last) {next : Mutation}
    (hnext : space.replaceOnce? mutation = some next) : last.replaceOnce? mutation = some next := by
  obtain ⟨rule, hrule, rfl⟩ := Option.map_eq_some_iff.mp hnext
  exact Option.map_eq_some_iff.mpr ⟨rule, hextends.replacements.find?_eq_some hrule, rfl⟩

/-! ## Mutators only -/

/-- Mutators leave the rules as they are. -/
theorem rules_eq_of_declareAll {declarations : List Declaration}
    (hmutators : ∀ declaration ∈ declarations, ∃ args, declaration = .mutator args)
    (hlast : space.declareAll declarations = .ok last) :
    last.skips = space.skips ∧ last.replacements = space.replacements := by
  induction declarations generalizing space with
  | nil =>
    cases hlast
    exact ⟨rfl, rfl⟩
  | cons declaration declarations ih =>
    obtain ⟨⟨args, rfl⟩, hlater⟩ := List.forall_mem_cons.mp hmutators
    obtain ⟨middle, hmiddle, hrest⟩ := exists_of_bind_eq_ok hlast
    obtain ⟨mutator, -, rfl⟩ := exists_of_map_eq_ok hmiddle
    have hadded : (space.addMutator mutator).declareAll declarations = .ok last := hrest
    obtain ⟨hskips, hreplacements⟩ := ih hlater hadded
    exact ⟨hskips, hreplacements⟩

end Space

/-- Later declarations never disturb earlier rules. Whatever is declared after a space was made, in
any order, a mutation that the space skips is skipped with any values at its end for the mutators
that are new, and one that it replaces is replaced in the same way, with these values untouched. If
only mutators are declared, nothing else is skipped or replaced either. -/
theorem isSkipped_and_replaceOnce?_of_declareAll {declarations more : List Declaration}
    {space last : Space} (hspace : ({} : Space).declareAll declarations = .ok space)
    (hlast : space.declareAll more = .ok last) (mutation tail : Mutation)
    (hmutation : mutation.length = space.mutators.length) :
    (space.isSkipped mutation = true → last.isSkipped (mutation ++ tail) = true) ∧
    (∀ next, space.replaceOnce? mutation = some next →
      last.replaceOnce? (mutation ++ tail) = some (next ++ tail)) ∧
    ((∀ declaration ∈ more, ∃ args, declaration = .mutator args) →
      last.isSkipped (mutation ++ tail) = space.isSkipped mutation ∧
      last.replaceOnce? (mutation ++ tail) = (space.replaceOnce? mutation).map (· ++ tail)) := by
  have hwell : space.WellFormed := Space.wellFormed_empty.declareAll hspace
  have hextends := Space.extends_of_declareAll hlast
  have hskipped := hwell.isSkipped_append hmutation tail
  have hreplaced := hwell.replaceOnce?_append hmutation tail
  refine ⟨?_, ?_, ?_⟩
  · intro hskips
    exact hextends.isSkipped (hskipped.trans hskips)
  · intro next hnext
    refine hextends.replaceOnce? ?_
    rw [hreplaced, hnext, Option.map_some]
  · intro honly
    obtain ⟨hskips, hreplacements⟩ := Space.rules_eq_of_declareAll honly hlast
    rw [← hskipped, ← hreplaced]
    simp only [Space.isSkipped, Space.replaceOnce?, hskips, hreplacements, and_self]

/-- Two mutators with a rule of each kind. -/
def earlyRules : List Declaration :=
  [.mutator ["A", "0", "1"], .mutator ["B", "5", "6"], .skip ["A", "0", "B", "6"],
   .replacement ["B", "5", "to", "B", "6"]]

/-- A third mutator, and a rule that asks for more than an earlier one does. -/
def lateRules : List Declaration :=
  [.mutator ["C", "2", "3"], .replacement ["C", "3", "B", "5", "to", "B", "5", "C", "2"]]

theorem isSkipped_and_replaceOnce?_earlyRules_and_lateRules :
    ∃ space last wide, ({} : Space).declareAll earlyRules = .ok space ∧
      space.declareAll lateRules = .ok last ∧ space.declareAll (lateRules.take 1) = .ok wide ∧
      space.isSkipped [0, 6] = true ∧ last.isSkipped [0, 6, 2] = true ∧
      space.replaceOnce? [0, 5] = some [0, 6] ∧ last.replaceOnce? [0, 5, 3] = some [0, 6, 3] ∧
      wide.isSkipped [1, 6, 3] = false ∧ wide.replaceOnce? [1, 6, 3] = none := by
  have hcheck : (({} : Space).declareAll earlyRules).toOption.any (fun space =>
      (space.declareAll lateRules).toOption.any fun last =>
        (space.declareAll (lateRules.take 1)).toOption.any fun wide => decide
          (space.mutators.length = 2 ∧
            space.isSkipped [0, 6] = true ∧ space.replaceOnce? [0, 5] = some [0, 6] ∧
            space.isSkipped [1, 6] = false ∧ space.replaceOnce? [1, 6] = none)) = true := by
    decide +kernel
  obtain ⟨space, hspace, hcheck⟩ := (Option.any_eq_true ..).mp hcheck
  obtain ⟨last, hlast, hcheck⟩ := (Option.any_eq_true ..).mp hcheck
  obtain ⟨wide, hwide, hfacts⟩ := (Option.any_eq_true ..).mp hcheck
  obtain ⟨htwo, hskipped, hnext, hkept, hstays⟩ := of_decide_eq_true hfacts
  have hspace := eq_ok_of_toOption hspace
  have hlast := eq_ok_of_toOption hlast
  have hwide := eq_ok_of_toOption hwide
  obtain ⟨hskips, -⟩ := isSkipped_and_replaceOnce?_of_declareAll hspace hlast [0, 6] [2]
    htwo.symm
  obtain ⟨-, hreplaces, -⟩ := isSkipped_and_replaceOnce?_of_declareAll hspace hlast [0, 5] [3]
    htwo.symm
  obtain ⟨-, -, honly⟩ := isSkipped_and_replaceOnce?_of_declareAll hspace hwide [1, 6] [3]
    htwo.symm
  obtain ⟨hsame, hsameNext⟩ := honly (by simp [lateRules])
  rw [hstays] at hsameNext
  exact ⟨space, last, wide, hspace, hlast, hwide, hskipped, hskips hskipped, hnext,
    hreplaces _ hnext, hsame.trans hkept, hsameNext⟩

end Ubershader
