import Ubershader.Proofs.Space.Pairs

/-!
# What skip rules say

A slot of a partial mutation holds the value of the last pair for its place, so a skip rule asks
for the last value that it gives to each mutator. This is the conjunction of its pairs exactly if
it is *coherent*, that is, if it does not give two values to one mutator. A rule that does applies
to mutations that its pairs cannot all hold of.
-/

namespace Ubershader

namespace SkipRule

theorem slotsMatch_cons (slot : Option Int32) (slots : List (Option Int32)) (value : Int32)
    (mutation : Mutation) :
    slotsMatch (slot :: slots) (value :: mutation) =
      (slot.all (fun wanted => wanted == value) && slotsMatch slots mutation) := by
  cases slot <;> rfl

/-- A rule with no more slots than a mutation has values applies if every value in a slot is the
value of the mutation there. -/
theorem applies_iff {rule : SkipRule} {mutation : Mutation}
    (hlength : rule.slots.length ≤ mutation.length) :
    rule.applies mutation = true ↔ ∀ (index : Nat) (value : Int32),
      rule.slots[index]? = some (some value) → mutation[index]? = some value := by
  obtain ⟨slots⟩ := rule
  dsimp only [applies] at hlength ⊢
  induction slots generalizing mutation with
  | nil => simp [slotsMatch]
  | cons slot slots ih =>
    cases mutation with
    | nil => simp at hlength
    | cons value mutation =>
      rw [slotsMatch_cons, Bool.and_eq_true, ih (Nat.le_of_succ_le_succ hlength),
        Option.all_eq_true]
      constructor
      · rintro ⟨hfirst, hlater⟩ index wanted hslot
        cases index with
        | zero =>
          have hvalue := hfirst wanted (Option.some.inj hslot)
          exact congrArg some (beq_iff_eq.mp hvalue).symm
        | succ index => exact hlater index wanted hslot
      · intro hslots
        refine ⟨?_, fun index => hslots (index + 1)⟩
        rintro wanted rfl
        have hvalue := hslots 0 wanted rfl
        exact beq_iff_eq.mpr (Option.some.inj hvalue).symm

/-- Every rule applies to some mutation of any length that has room for its slots. -/
theorem exists_applies (rule : SkipRule) {length : Nat} (hlength : rule.slots.length ≤ length) :
    ∃ mutation : Mutation, mutation.length = length ∧ rule.applies mutation = true := by
  let mutation : Mutation := (List.range length).map fun index => (rule.slots[index]?.join).getD 0
  have hmutation : mutation.length = length := by simp [mutation]
  refine ⟨mutation, hmutation, (applies_iff (hmutation ▸ hlength)).mpr ?_⟩
  intro index value hslot
  have hindex : index < length :=
    Nat.lt_of_lt_of_le (List.getElem?_eq_some_iff.mp hslot).1 hlength
  simp [mutation, hindex, hslot]

end SkipRule

namespace Space

variable {space last : Space} {mutation : Mutation} {args : List String} {rule : SkipRule}

/-! ## One rule -/

/-- A skip rule is made from the places and values that its pairs denote. -/
theorem exists_places_of_skipRuleOf (hrule : space.skipRuleOf args = .ok rule) :
    ∃ places, List.Forall₂ space.Denotes (pairsOf args) places ∧
      (∀ place ∈ places, place.1 < space.mutators.length) ∧ rule = ⟨space.slotsOf places⟩ := by
  rw [skipRuleOf] at hrule
  split at hrule
  · cases hrule
  · obtain ⟨places, hplaces, hslots⟩ := exists_of_bind_eq_ok hrule
    cases hslots
    refine ⟨places, ?_, ?_, rfl⟩
    · exact (forall₂_of_mapM_eq_ok hplaces).imp fun _ _ hpair => (pairOf_eq_ok_iff.mp hpair).1
    · intro place hplace
      obtain ⟨pair, -, hpair⟩ := exists_of_forall₂ (forall₂_of_mapM_eq_ok hplaces) hplace
      exact (legal_of_pairOf hpair).lt

/-- The last places denote what the last pairs say. -/
theorem forall_isLast_iff {pairs : List (String × String)} {places : List (Nat × Int32)}
    (hplaces : List.Forall₂ space.Denotes pairs places) :
    (∀ place, IsLast places place → mutation[place.1]? = some place.2) ↔
      ∀ pair, IsLast pairs pair → space.Holds mutation pair := by
  induction hplaces with
  | nil => simp [not_isLast_nil]
  | cons hfirst hrest ih =>
    rw [forall_isLast_cons, forall_isLast_cons, mem_map_fst_iff hrest hfirst, hfirst.holds_iff, ih]

/-- A skip rule asks for the last value that it gives to each mutator. -/
theorem applies_iff_of_skipRuleOf (hrule : space.skipRuleOf args = .ok rule)
    (hmutators : space.mutators <+: last.mutators)
    (hlength : mutation.length = last.mutators.length) :
    rule.applies mutation = true ↔
      ∀ pair, IsLast (pairsOf args) pair → last.Holds mutation pair := by
  obtain ⟨places, hplaces, hlt, rfl⟩ := exists_places_of_skipRuleOf hrule
  have hslots : (SkipRule.mk (space.slotsOf places)).slots.length ≤ mutation.length := by
    rw [length_slotsOf, hlength]
    exact hmutators.length_le
  rw [SkipRule.applies_iff hslots, ← forall_isLast_iff (hplaces.imp fun _ _ => .mono hmutators)]
  simp only [getElem?_slotsOf_iff hlt, Prod.forall]

/-- No mutator is given two values. -/
def Coherent (pairs : List (String × String)) : Prop :=
  ∀ pair ∈ pairs, ∀ other ∈ pairs, pair.1 = other.1 →
    Text.int32? pair.2 = Text.int32? other.2

/-- All of several pairs hold if the last ones do, unless a mutator is given two values. -/
theorem Coherent.forall_isLast_iff {pairs : List (String × String)} (hpairs : Coherent pairs) :
    (∀ pair, IsLast pairs pair → space.Holds mutation pair) ↔
      ∀ pair ∈ pairs, space.Holds mutation pair := by
  constructor
  · intro hlast pair hpair
    obtain ⟨other, hother, hname⟩ := exists_isLast (List.mem_map_of_mem hpair)
    exact (hlast other hother).congr hname (hpairs other hother.mem pair hpair hname)
  · intro hall pair hpair
    exact hall pair hpair.mem

/-- Pairs that hold of one mutation do not give two values to a mutator. -/
theorem coherent_of_forall_holds {pairs : List (String × String)}
    (hall : ∀ pair ∈ pairs, space.Holds mutation pair) : Coherent pairs := by
  intro pair hpair other hother hname
  obtain ⟨place, hplace, hvalue⟩ := hall pair hpair
  obtain ⟨otherPlace, hotherPlace, hotherValue⟩ := hall other hother
  rw [(hplace.fst_eq_iff hotherPlace).mpr hname, hotherValue] at hvalue
  rw [hplace.2, hotherPlace.2, hvalue]

/-! ## All rules -/

/-- A declaration of a skip rule is among several that are made one after the other, and adds the
given rule. -/
def AddsSkip (space : Space) (declarations : List Declaration) (args : List String)
    (rule : SkipRule) : Prop :=
  ∃ front back middle, declarations = front ++ .skip args :: back ∧
    space.declareAll front = .ok middle ∧ middle.skipRuleOf args = .ok rule

theorem addsSkip_cons_iff {declaration : Declaration} {declarations : List Declaration}
    {middle : Space} (hmiddle : space.declare declaration = .ok middle) :
    space.AddsSkip (declaration :: declarations) args rule ↔
      (declaration = .skip args ∧ space.skipRuleOf args = .ok rule) ∨
        middle.AddsSkip declarations args rule := by
  have hcons : ∀ later, space.declareAll (declaration :: later) = middle.declareAll later := by
    intro later
    rw [declareAll, List.foldlM_cons, hmiddle]
    rfl
  constructor
  · rintro ⟨front, back, before, hsplit, hbefore, hrule⟩
    cases front with
    | nil =>
      cases hsplit
      cases hbefore
      exact .inl ⟨rfl, hrule⟩
    | cons first front =>
      cases hsplit
      exact .inr ⟨front, back, before, rfl, (hcons front).symm.trans hbefore, hrule⟩
  · rintro (⟨rfl, hrule⟩ | ⟨front, back, before, rfl, hbefore, hrule⟩)
    · exact ⟨[], declarations, space, rfl, rfl, hrule⟩
    · exact ⟨declaration :: front, back, before, rfl, (hcons front).trans hbefore, hrule⟩

theorem mem_skips_of_declare {declaration : Declaration}
    (hlast : space.declare declaration = .ok last) :
    rule ∈ last.skips ↔
      rule ∈ space.skips ∨ ∃ args, declaration = .skip args ∧ space.skipRuleOf args = .ok rule := by
  cases declaration with
  | mutator args =>
    obtain ⟨mutator, -, rfl⟩ := exists_of_map_eq_ok hlast
    simp [addMutator]
  | skip args =>
    obtain ⟨added, hadded, rfl⟩ := exists_of_map_eq_ok hlast
    simp [addSkip, hadded, eq_comm]
  | replacement args =>
    obtain ⟨added, -, rfl⟩ := exists_of_map_eq_ok hlast
    simp [addReplacement]

/-- The skip rules of a space are those that it had and those that were declared. -/
theorem mem_skips_of_declareAll {declarations : List Declaration}
    (hlast : space.declareAll declarations = .ok last) :
    rule ∈ last.skips ↔
      rule ∈ space.skips ∨ ∃ args, space.AddsSkip declarations args rule := by
  induction declarations generalizing space with
  | nil =>
    cases hlast
    simp [AddsSkip]
  | cons declaration declarations ih =>
    obtain ⟨middle, hmiddle, hrest⟩ := exists_of_bind_eq_ok hlast
    simp only [ih hrest, mem_skips_of_declare hmiddle, addsSkip_cons_iff hmiddle, exists_or,
      or_assoc]

/-- Every declaration of a skip rule that is accepted adds a rule. -/
theorem exists_addsSkip {declarations : List Declaration}
    (hlast : space.declareAll declarations = .ok last) (hargs : .skip args ∈ declarations) :
    ∃ rule, space.AddsSkip declarations args rule := by
  induction declarations generalizing space with
  | nil => simp at hargs
  | cons declaration declarations ih =>
    obtain ⟨middle, hmiddle, hrest⟩ := exists_of_bind_eq_ok hlast
    simp only [addsSkip_cons_iff hmiddle]
    obtain rfl | hargs := List.mem_cons.mp hargs
    · obtain ⟨rule, hrule, -⟩ := exists_of_map_eq_ok hmiddle
      exact ⟨rule, .inl ⟨rfl, hrule⟩⟩
    · obtain ⟨rule, hrule⟩ := ih hrest hargs
      exact ⟨rule, .inr hrule⟩

end Space

/-- What a skip rule asks of the mutations of a space, if it was declared with the given pairs. Only
if no mutator is named twice with different values does it ask for all of them. -/
structure SkipRule.Asks (space : Space) (pairs : List (String × String)) (rule : SkipRule) :
    Prop where
  /-- The last value that is given to a mutator counts. -/
  applies_iff : ∀ mutation : Mutation, mutation.length = space.mutators.length →
    (rule.applies mutation = true ↔ ∀ pair, IsLast pairs pair → space.Holds mutation pair)
  /-- The rule says that all its pairs hold exactly if no mutator is given two values. -/
  forall_iff_coherent :
    (∀ mutation : Mutation, mutation.length = space.mutators.length →
      (rule.applies mutation = true ↔ ∀ pair ∈ pairs, space.Holds mutation pair)) ↔
      Space.Coherent pairs

/-- How a space skips mutations after several declarations: as the one before did, or because of a
rule that was declared since. -/
structure Space.SkipsByPairs (space : Space) (declarations : List Declaration) (last : Space) :
    Prop where
  asks : ∀ args rule, space.AddsSkip declarations args rule → rule.Asks last (pairsOf args)
  isSkipped_iff : ∀ mutation : Mutation, mutation.length = last.mutators.length →
    (last.isSkipped mutation = true ↔ space.isSkipped mutation = true ∨
      ∃ args, .skip args ∈ declarations ∧
        ∀ pair, IsLast (pairsOf args) pair → last.Holds mutation pair)
  /-- Without rules that give two values to a mutator, all pairs of a rule have to hold. -/
  isSkipped_iff_of_coherent :
    (∀ args, .skip args ∈ declarations → Space.Coherent (pairsOf args)) →
    ∀ mutation : Mutation, mutation.length = last.mutators.length →
      (last.isSkipped mutation = true ↔ space.isSkipped mutation = true ∨
        ∃ args, .skip args ∈ declarations ∧ ∀ pair ∈ pairsOf args, last.Holds mutation pair)

namespace Space

variable {space last : Space} {args : List String} {rule : SkipRule}

theorem asks_of_skipRuleOf (hrule : space.skipRuleOf args = .ok rule)
    (hmutators : space.mutators <+: last.mutators) : rule.Asks last (pairsOf args) where
  applies_iff mutation hlength := applies_iff_of_skipRuleOf hrule hmutators hlength
  forall_iff_coherent := by
    constructor
    · intro hforall
      have hroom : rule.slots.length ≤ last.mutators.length :=
        Nat.le_trans (fits_of_skipRuleOf hrule).length_le hmutators.length_le
      obtain ⟨mutation, hlength, happlies⟩ := rule.exists_applies hroom
      exact coherent_of_forall_holds ((hforall mutation hlength).mp happlies)
    · intro hcoherent mutation hlength
      rw [applies_iff_of_skipRuleOf hrule hmutators hlength, hcoherent.forall_isLast_iff]

theorem AddsSkip.asks {declarations : List Declaration}
    (hlast : space.declareAll declarations = .ok last)
    (hadds : space.AddsSkip declarations args rule) : rule.Asks last (pairsOf args) := by
  obtain ⟨front, back, middle, rfl, hmiddle, hrule⟩ := hadds
  refine asks_of_skipRuleOf hrule ?_
  rw [declareAll, List.foldlM_append] at hlast
  obtain ⟨other, hother, hback⟩ := exists_of_bind_eq_ok hlast
  cases hmiddle.symm.trans hother
  exact (extends_of_declareAll hback).mutators

end Space

/-- A skip rule asks for the last value that it gives to each mutator, also of the mutations that
have values for mutators declared after it, and a mutation is skipped exactly if some rule asks no
more than it has. A rule asks for all of its pairs if and only if it does not give two values to
one mutator. -/
theorem skipsByPairs_of_declareAll {space last : Space} {declarations : List Declaration}
    (hlast : space.declareAll declarations = .ok last) :
    space.SkipsByPairs declarations last := by
  have hskipped : ∀ mutation : Mutation, mutation.length = last.mutators.length →
      (last.isSkipped mutation = true ↔ space.isSkipped mutation = true ∨
        ∃ args, .skip args ∈ declarations ∧
          ∀ pair, IsLast (pairsOf args) pair → last.Holds mutation pair) := by
    intro mutation hlength
    simp only [Space.isSkipped, List.any_eq_true, Space.mem_skips_of_declareAll hlast, or_and_right,
      exists_or]
    refine or_congr_right ?_
    constructor
    · rintro ⟨rule, ⟨args, hadds⟩, happlies⟩
      have hmem : .skip args ∈ declarations := by
        obtain ⟨front, back, -, rfl, -⟩ := hadds
        simp
      exact ⟨args, hmem, ((hadds.asks hlast).applies_iff mutation hlength).mp happlies⟩
    · rintro ⟨args, hargs, hholds⟩
      obtain ⟨rule, hadds⟩ := Space.exists_addsSkip hlast hargs
      exact ⟨rule, ⟨args, hadds⟩, ((hadds.asks hlast).applies_iff mutation hlength).mpr hholds⟩
  refine ⟨fun args rule hadds => hadds.asks hlast, hskipped, ?_⟩
  intro hcoherent mutation hlength
  rw [hskipped mutation hlength]
  refine or_congr_right (exists_congr fun args => and_congr_right fun hargs => ?_)
  exact (hcoherent args hargs).forall_isLast_iff

/-- A rule that gives two values to one mutator, and a mutator that is declared after it. -/
def contradictoryRule : List Declaration :=
  [.mutator ["A", "0", "1"], .skip ["A", "0", "A", "1"], .mutator ["B", "5", "6"]]

theorem skipsByPairs_contradictoryRule :
    ∃ space, ({} : Space).declareAll contradictoryRule = .ok space ∧
      ({} : Space).SkipsByPairs contradictoryRule space := by
  have hdeclared : (({} : Space).declareAll contradictoryRule).toOption.isSome = true := by
    decide +kernel
  obtain ⟨space, hspace⟩ := Option.isSome_iff_exists.mp hdeclared
  have hspace := eq_ok_of_toOption hspace
  exact ⟨space, hspace, skipsByPairs_of_declareAll hspace⟩

/-- The pairs of the rule cannot all hold, and yet it skips a valid mutation. -/
theorem exists_isSkipped_and_not_holds :
    ∃ space, ({} : Space).declareAll contradictoryRule = .ok space ∧
      space.isValid [1, 5] = true ∧ space.isSkipped [1, 5] = true ∧
      ¬∃ args, .skip args ∈ contradictoryRule ∧
        ∀ pair ∈ pairsOf args, space.Holds [1, 5] pair := by
  have hcheck : (({} : Space).declareAll contradictoryRule).toOption.any (fun space =>
      space.isValid [1, 5] && space.isSkipped [1, 5]) = true := by
    decide +kernel
  obtain ⟨space, hspace, hfacts⟩ := (Option.any_eq_true ..).mp hcheck
  obtain ⟨hvalid, hskipped⟩ := (Bool.and_eq_true ..).mp hfacts
  refine ⟨space, eq_ok_of_toOption hspace, hvalid, hskipped, ?_⟩
  rintro ⟨args, hargs, hholds⟩
  have hrule : args = ["A", "0", "A", "1"] := by simpa [contradictoryRule] using hargs
  subst hrule
  have hcoherent := Space.coherent_of_forall_holds hholds
  exact absurd (hcoherent ("A", "0") (by decide +kernel) ("A", "1") (by decide +kernel) rfl)
    (by decide +kernel)

end Ubershader
