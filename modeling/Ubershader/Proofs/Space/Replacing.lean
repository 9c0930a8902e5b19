import Mathlib.Data.List.Perm.Basic
import Ubershader.Proofs.Space.Orbit
import Ubershader.Proofs.Space.Pairs

/-!
# What replacement rules say

The arguments of a replacement rule are cut at the first `to`. Both sides are pairs of a mutator
and a value; the pairs on the left say what a mutation must have, and those on the right say what
becomes of it. `Space.Acceptable` says which sides are accepted, in words of names and values only.

A rule is worked out in another way: names become indices, every target is looked for among the
sources, the changes are sorted by index and compared with those of the earlier rules one by one.
As the indices on each side are different, the order in which the pairs are written plays no part
in the outcome.
-/

namespace Ubershader

/-- As many different elements as there are in a list are all of them. -/
theorem mem_iff_mem_of_subset {α : Type} {xs ys : List α} (hnodup : ys.Nodup) (hsubset : ys ⊆ xs)
    (hlength : xs.length ≤ ys.length) (x : α) : x ∈ xs ↔ x ∈ ys :=
  ((List.subperm_of_subset hnodup hsubset).perm_of_length_le hlength).mem_iff.symm

theorem bind_eq_of_eq_ok {ε α β : Type} {first : Except ε α} {a : α} (hfirst : first = .ok a)
    {next : α → Except ε β} : first >>= next = next a := by
  rw [hfirst]
  rfl

/-! ## Sides of a rule -/

def tokensOf (pairs : List (String × String)) : List String :=
  pairs.flatMap fun pair => [pair.1, pair.2]

@[simp] theorem length_tokensOf (pairs : List (String × String)) :
    (tokensOf pairs).length = 2 * pairs.length := by
  simp [tokensOf, List.length_flatMap, Nat.mul_comm]

@[simp] theorem inPairs_tokensOf (pairs : List (String × String)) :
    inPairs (tokensOf pairs) = pairs := by
  induction pairs with
  | nil => rfl
  | cons pair pairs ih => exact congrArg (pair :: ·) ih

theorem tokensOf_inPairs {tokens : List String} (heven : tokens.length % 2 = 0) :
    tokensOf (inPairs tokens) = tokens := by
  fun_induction inPairs tokens with
  | case1 name value rest ih =>
    have hrest : rest.length % 2 = 0 := by simpa [Nat.add_assoc] using heven
    exact congrArg (fun tokens => name :: value :: tokens) (ih hrest)
  | case2 tokens hshort =>
    obtain _ | ⟨name, _ | ⟨value, rest⟩⟩ := tokens
    · rfl
    · simp at heven
    · exact absurd rfl (hshort name value rest)

/-- The arguments in front of a comment are pairs, the word `to`, and pairs again. The word is the
first one of its kind. -/
structure IsCut (args : List String) (left right : List (String × String)) : Prop where
  beforeComment_eq : Text.beforeComment args = tokensOf left ++ "to" :: tokensOf right
  to_notMem : "to" ∉ tokensOf left

theorem takeWhile_append_dropWhile_of_mem {word : String} {tokens : List String}
    (hword : word ∈ tokens) :
    tokens = (tokens.takeWhile fun token => token != word) ++
      word :: (tokens.dropWhile fun token => token != word).drop 1 := by
  induction tokens with
  | nil => simp at hword
  | cons token tokens ih =>
    by_cases hsame : token = word
    · simp [hsame]
    · have hlater : word ∈ tokens := by simpa [Ne.symm hsame] using hword
      rw [List.takeWhile_cons_of_pos (by simpa using hsame),
        List.dropWhile_cons_of_pos (by simpa using hsame), List.cons_append, ← ih hlater]

namespace Space

variable {space : Space} {args : List String} {left right : List (String × String)}

/-- What becomes of arguments that are cut into sides. -/
theorem replacementOf_of_isCut (hcut : IsCut args left right) :
    space.replacementOf args =
      if left = [] then .error (.malformed .badPairsBeforeTo)
      else if right.length ≠ left.length then .error (.malformed .sidesDiffer)
      else space.replacementOfPairs left right := by
  have hfree : ∀ token ∈ tokensOf left, (token != "to") = true := by
    intro token htoken
    refine bne_iff_ne.mpr ?_
    rintro rfl
    exact hcut.to_notMem htoken
  rw [replacementOf, hcut.beforeComment_eq]
  rw [List.takeWhile_append_of_pos hfree, List.dropWhile_append_of_pos hfree,
    List.takeWhile_cons_of_neg (by simp), List.dropWhile_cons_of_neg (by simp)]
  have hleft : (tokensOf left = [] ∨ 2 * left.length % 2 ≠ 0) ↔ left = [] := by
    rw [← List.length_eq_zero_iff, ← List.length_eq_zero_iff, length_tokensOf]
    omega
  have hright : 2 * right.length ≠ 2 * left.length ↔ right.length ≠ left.length := by omega
  simp only [List.append_nil, List.drop_succ_cons, List.drop_zero, inPairs_tokensOf,
    length_tokensOf, hleft, hright]
  simp

/-- Arguments that are accepted can be cut into sides. -/
theorem exists_isCut_of_replacementOf {rule : Replacement}
    (hrule : space.replacementOf args = .ok rule) : ∃ left right, IsCut args left right := by
  rw [replacementOf] at hrule
  split_ifs at hrule with hto hleft hlength
  rw [not_or, not_not] at hleft
  rw [not_not] at hlength
  refine ⟨inPairs ((Text.beforeComment args).takeWhile fun token => token != "to"),
    inPairs (((Text.beforeComment args).dropWhile fun token => token != "to").drop 1), ?_, ?_⟩
  · rw [tokensOf_inPairs hleft.2, tokensOf_inPairs (hlength ▸ hleft.2)]
    exact takeWhile_append_dropWhile_of_mem hto
  · rw [tokensOf_inPairs hleft.2]
    intro hmem
    have hfree := List.all_eq_true.mp List.all_takeWhile "to" hmem
    simp at hfree

/-! ## Sources and targets -/

theorem Resolves.sideOf_eq_ok {allowed : Nat → Bool} {taken : List Nat}
    {pairs : List (String × String)} {places : List (Nat × Int32)}
    (hresolves : space.Resolves pairs places)
    (hfree : ∀ place ∈ places, place.1 ∉ taken ∧ allowed place.1 = true) :
    space.sideOf allowed taken pairs = .ok places := by
  obtain ⟨haccepted, hnodup⟩ := hresolves
  induction haccepted generalizing taken with
  | nil => rfl
  | @cons pair place pairs places hplace _ ih =>
    obtain ⟨⟨htaken, hallowed⟩, hlater⟩ := List.forall_mem_cons.mp hfree
    obtain ⟨hnew, hnodup⟩ := List.nodup_cons.mp hnodup
    have hrest : space.sideOf allowed (place.1 :: taken) pairs = .ok places := by
      refine ih ?_ hnodup
      intro other hother
      refine ⟨?_, (hlater other hother).2⟩
      rw [List.mem_cons, not_or]
      exact ⟨fun hindex => hnew (hindex ▸ List.mem_map_of_mem hother), (hlater other hother).1⟩
    rw [sideOf, bind_eq_of_eq_ok hplace, if_neg htaken, hallowed, if_neg (by decide),
      bind_eq_of_eq_ok hrest]
    rfl

namespace Resolves

variable {pairs : List (String × String)} {places : List (Nat × Int32)}

theorem denotes (hresolves : space.Resolves pairs places) :
    List.Forall₂ space.Denotes pairs places :=
  hresolves.accepted.imp fun _ _ hpair => (pairOf_eq_ok_iff.mp hpair).1

theorem exists_place (hresolves : space.Resolves pairs places) {pair : String × String}
    (hpair : pair ∈ pairs) : ∃ place ∈ places, space.pairOf pair = .ok place :=
  exists_of_forall₂ hresolves.accepted.flip hpair

/-- The places are those that the pairs denote. -/
theorem mem_iff (hresolves : space.Resolves pairs places) {place : Nat × Int32} :
    place ∈ places ↔ ∃ pair ∈ pairs, space.Denotes pair place := by
  constructor
  · exact exists_of_forall₂ hresolves.denotes
  · rintro ⟨pair, hpair, hdenotes⟩
    obtain ⟨other, hother, haccepted⟩ := hresolves.exists_place hpair
    rw [hdenotes.unique (pairOf_eq_ok_iff.mp haccepted).1]
    exact hother

theorem forall_holds_iff (hresolves : space.Resolves pairs places) {mutation : Mutation} :
    (∀ pair ∈ pairs, space.Holds mutation pair) ↔
      ∀ place ∈ places, mutation[place.1]? = some place.2 := by
  constructor
  · intro hall place hplace
    obtain ⟨pair, hpair, hdenotes⟩ := hresolves.mem_iff.mp hplace
    exact hdenotes.holds_iff.mp (hall pair hpair)
  · intro hall pair hpair
    obtain ⟨place, hplace, haccepted⟩ := hresolves.exists_place hpair
    exact ⟨place, (pairOf_eq_ok_iff.mp haccepted).1, hall place hplace⟩

end Resolves

theorem nodup_map_fst_iff {pairs : List (String × String)} {places : List (Nat × Int32)}
    (hplaces : List.Forall₂ space.Denotes pairs places) :
    (places.map Prod.fst).Nodup ↔ (pairs.map Prod.fst).Nodup := by
  induction hplaces with
  | nil => simp
  | cons hfirst hrest ih =>
    rw [List.map_cons, List.map_cons, List.nodup_cons, List.nodup_cons, ih,
      mem_map_fst_iff hrest hfirst]

/-- Pairs that are accepted one by one and have different names can be resolved. -/
theorem exists_resolves {pairs : List (String × String)}
    (haccepted : ∀ pair ∈ pairs, ∃ place, space.pairOf pair = .ok place)
    (hnodup : (pairs.map Prod.fst).Nodup) : ∃ places, space.Resolves pairs places := by
  have hplaces : ∃ places,
      List.Forall₂ (fun pair place => space.pairOf pair = .ok place) pairs places := by
    clear hnodup
    induction pairs with
    | nil => exact ⟨[], .nil⟩
    | cons pair pairs ih =>
      obtain ⟨⟨place, hplace⟩, hlater⟩ := List.forall_mem_cons.mp haccepted
      obtain ⟨places, hplaces⟩ := ih hlater
      exact ⟨place :: places, .cons hplace hplaces⟩
  obtain ⟨places, hplaces⟩ := hplaces
  have hdenotes : List.Forall₂ space.Denotes pairs places :=
    hplaces.imp fun _ _ hpair => (pairOf_eq_ok_iff.mp hpair).1
  exact ⟨places, hplaces, (nodup_map_fst_iff hdenotes).mpr hnodup⟩

/-- Pairs in another order denote the same places in another order. -/
theorem Resolves.exists_perm {pairs others : List (String × String)}
    {places : List (Nat × Int32)} (hresolves : space.Resolves pairs places)
    (hperm : others.Perm pairs) :
    ∃ otherPlaces, space.Resolves others otherPlaces ∧ otherPlaces.Perm places := by
  obtain ⟨otherPlaces, haccepted, hplaces⟩ := List.perm_comp_forall₂ hperm hresolves.accepted
  have hnodup : (otherPlaces.map Prod.fst).Nodup :=
    (hplaces.map Prod.fst).nodup_iff.mpr hresolves.nodup
  exact ⟨otherPlaces, ⟨haccepted, hnodup⟩, hplaces⟩

/-- A rule that is accepted has sources and targets for the same mutators, and asks what no rule
before it asks. -/
theorem replacementOfPairs_eq_ok_iff {rule : Replacement} :
    space.replacementOfPairs left right = .ok rule ↔
      ∃ sources targets, space.Resolves left sources ∧ space.Resolves right targets ∧
        (∀ target ∈ targets, target.1 ∈ sources.map Prod.fst) ∧
        rule = replacementOfSides sources targets ∧
        rule.pattern ∉ space.replacements.map Replacement.pattern := by
  have hallowed : ∀ {sources : List (Nat × Int32)} {index : Nat},
      (sources.any fun source => source.1 == index) = true ↔ index ∈ sources.map Prod.fst := by
    intro sources index
    simp
  have hrepeated : ∀ {rule : Replacement},
      (space.replacements.any fun other => other.pattern == rule.pattern) = true ↔
        rule.pattern ∈ space.replacements.map Replacement.pattern := by
    intro rule
    simp
  constructor
  · intro hrule
    rw [replacementOfPairs] at hrule
    obtain ⟨sources, hsources, hrest⟩ := exists_of_bind_eq_ok hrule
    obtain ⟨targets, htargets, hrest⟩ := exists_of_bind_eq_ok hrest
    dsimp only at hrest
    split at hrest
    · cases hrest
    · next hfresh =>
      cases hrest
      obtain ⟨hresolves, hfree⟩ := of_sideOf htargets
      exact ⟨sources, targets, (of_sideOf hsources).1, hresolves,
        fun target htarget => hallowed.mp (hfree target htarget).2, rfl,
        fun hmem => hfresh (hrepeated.mpr hmem)⟩
  · rintro ⟨sources, targets, hsources, htargets, hsame, rfl, hfresh⟩
    have hleft : space.sideOf (fun _ => true) [] left = .ok sources :=
      hsources.sideOf_eq_ok (by simp)
    have hright : space.sideOf (fun index => sources.any fun source => source.1 == index) [] right =
        .ok targets :=
      htargets.sideOf_eq_ok fun target htarget => ⟨by simp, hallowed.mpr (hsame target htarget)⟩
    rw [replacementOfPairs, bind_eq_of_eq_ok hleft, bind_eq_of_eq_ok hright]
    exact if_neg fun hmem => hfresh (hrepeated.mp hmem)

/-! ## What a rule is made of -/

section Sides

variable {sources targets : List (Nat × Int32)}

theorem lookup_eq_some_iff_mem {places : List (Nat × Int32)} (hnodup : (places.map Prod.fst).Nodup)
    {index : Nat} {value : Int32} :
    places.lookup index = some value ↔ (index, value) ∈ places := by
  rw [List.lookup_eq_some_iff]
  constructor
  · rintro ⟨front, back, rfl, -⟩
    simp
  · intro hmem
    obtain ⟨front, back, rfl⟩ := List.append_of_mem hmem
    refine ⟨front, back, rfl, ?_⟩
    intro place hplace
    rw [List.map_append, List.nodup_append] at hnodup
    have hne := hnodup.2.2 place.1 (List.mem_map_of_mem hplace) index (by simp)
    exact bne_iff_ne.mpr hne.symm

theorem lookup_eq_of_perm {places others : List (Nat × Int32)}
    (hnodup : (places.map Prod.fst).Nodup) (hperm : others.Perm places) (index : Nat) :
    others.lookup index = places.lookup index := by
  ext value
  rw [lookup_eq_some_iff_mem hnodup,
    lookup_eq_some_iff_mem ((hperm.map Prod.fst).nodup_iff.mpr hnodup), hperm.mem_iff]

/-- The order in which sources and targets are given does not matter. -/
theorem replacementOfSides_eq_of_perm {otherSources otherTargets : List (Nat × Int32)}
    (hsources : (sources.map Prod.fst).Nodup) (htargets : (targets.map Prod.fst).Nodup)
    (hsourcesPerm : otherSources.Perm sources) (htargetsPerm : otherTargets.Perm targets) :
    replacementOfSides otherSources otherTargets = replacementOfSides sources targets := by
  have hother := perm_changes_replacementOfSides otherSources otherTargets
  simp only [lookup_eq_of_perm htargets htargetsPerm] at hother
  have hperm := (hother.trans (hsourcesPerm.map _)).trans
    (perm_changes_replacementOfSides sources targets).symm
  have hnodup := (hsourcesPerm.map Prod.fst).nodup_iff.mpr hsources
  refine congrArg Replacement.mk (hperm.eq_of_pairwise ?_
    (increasing_replacementOfSides hnodup) (increasing_replacementOfSides hsources))
  intro change other _ _ hlt hgt
  omega

theorem perm_pattern_replacementOfSides (sources targets : List (Nat × Int32)) :
    (replacementOfSides sources targets).pattern.Perm sources := by
  have hperm := (perm_changes_replacementOfSides sources targets).map fun change =>
    (change.index, change.before)
  simpa [Replacement.pattern, Function.comp_def] using hperm

end Sides

end Space

namespace Replacement

variable {mutators : List Mutator} {rule : Replacement}

theorem applies_iff {mutation : Mutation} :
    rule.applies mutation = true ↔
      ∀ place ∈ rule.pattern, mutation[place.1]? = some place.2 := by
  simp [applies, pattern]

theorem Fits.after?_eq_some_iff (hrule : rule.Fits mutators) {index : Nat} {value : Int32} :
    rule.after? index = some value ↔
      ∃ change ∈ rule.changes, change.index = index ∧ change.after = value := by
  constructor
  · intro hafter
    obtain ⟨change, hfound, hvalue⟩ := Option.map_eq_some_iff.mp hafter
    have hindex : change.index = index := by simpa using List.find?_some hfound
    exact ⟨change, List.mem_of_find?_eq_some hfound, hindex, hvalue⟩
  · rintro ⟨change, hchange, rfl, rfl⟩
    obtain ⟨front, back, hsplit⟩ := List.append_of_mem hchange
    have hincreasing := hrule.increasing
    rw [hsplit] at hincreasing
    -- The indices increase, so no earlier change is at this place.
    have hfront : front.find? (fun other => other.index == change.index) = none := by
      rw [List.find?_eq_none]
      intro other hother heq
      have hlt := (List.pairwise_append.mp hincreasing).2.2 other hother change (by simp)
      have := beq_iff_eq.mp heq
      omega
    simp [after?, hsplit, List.find?_append, hfront]

/-- What a rule does if it was declared with the given pairs on its left and on its right: it
applies to the mutations that all pairs on the left hold of, makes all pairs on the right hold, and
leaves the mutators alone that are not named there. -/
structure Means (space : Space) (left right : List (String × String)) (rule : Replacement) :
    Prop where
  applies_iff : ∀ mutation : Mutation,
    rule.applies mutation = true ↔ ∀ pair ∈ left, space.Holds mutation pair
  puts : ∀ mutation : Mutation, space.mutators.length ≤ mutation.length →
    ∀ pair ∈ right, space.Holds (rule.apply mutation) pair
  keeps : ∀ (mutation : Mutation) (index : Nat),
    (∀ pair ∈ right, space.mutatorIndex? pair.1 ≠ some index) →
    (rule.apply mutation)[index]? = mutation[index]?

end Replacement

namespace Space

variable {space : Space} {args : List String} {left right : List (String × String)}
variable {sources targets : List (Nat × Int32)}

/-- What a rule puts at a place is what the targets have there. -/
theorem after?_replacementOfSides_eq_some_iff
    (hfits : (replacementOfSides sources targets).Fits space.mutators)
    (hnodup : (targets.map Prod.fst).Nodup)
    (hsame : ∀ index, index ∈ sources.map Prod.fst ↔ index ∈ targets.map Prod.fst)
    {index : Nat} {value : Int32} :
    (replacementOfSides sources targets).after? index = some value ↔ (index, value) ∈ targets := by
  have hperm := perm_changes_replacementOfSides sources targets
  rw [hfits.after?_eq_some_iff]
  constructor
  · rintro ⟨change, hchange, rfl, rfl⟩
    obtain ⟨source, hsource, rfl⟩ := List.mem_map.mp (hperm.mem_iff.mp hchange)
    obtain ⟨target, htarget, hindex⟩ :=
      List.mem_map.mp ((hsame source.1).mp (List.mem_map_of_mem hsource))
    obtain ⟨index, value⟩ := target
    subst hindex
    rw [(lookup_eq_some_iff_mem hnodup).mpr htarget]
    exact htarget
  · intro htarget
    obtain ⟨source, hsource, hindex⟩ :=
      List.mem_map.mp ((hsame index).mpr (List.mem_map_of_mem htarget))
    refine ⟨_, hperm.mem_iff.mpr (List.mem_map_of_mem hsource), hindex, ?_⟩
    dsimp only
    rw [hindex, (lookup_eq_some_iff_mem hnodup).mpr htarget]
    rfl

theorem means_replacementOfSides (hsources : space.Resolves left sources)
    (htargets : space.Resolves right targets)
    (hfits : (replacementOfSides sources targets).Fits space.mutators)
    (hsame : ∀ index, index ∈ sources.map Prod.fst ↔ index ∈ targets.map Prod.fst) :
    (replacementOfSides sources targets).Means space left right := by
  have hafter : ∀ {index : Nat} {value : Int32},
      (replacementOfSides sources targets).after? index = some value ↔ (index, value) ∈ targets :=
    after?_replacementOfSides_eq_some_iff hfits htargets.nodup hsame
  refine ⟨?_, ?_, ?_⟩
  · intro mutation
    rw [hsources.forall_holds_iff, Replacement.applies_iff]
    simp only [(perm_pattern_replacementOfSides sources targets).mem_iff]
  · intro mutation hlength pair hpair
    revert pair
    rw [htargets.forall_holds_iff]
    intro place hplace
    have hlt : place.1 < mutation.length := Nat.lt_of_lt_of_le (htargets.legal hplace).lt hlength
    rw [Replacement.getElem?_apply hfits hlt, hafter.mpr hplace, Option.some_or]
  · intro mutation index hother
    have hnone : (replacementOfSides sources targets).after? index = none := by
      refine Option.eq_none_iff_forall_ne_some.mpr ?_
      intro value hvalue
      obtain ⟨pair, hpair, hdenotes⟩ := htargets.mem_iff.mp (hafter.mp hvalue)
      exact hother pair hpair hdenotes.1
    by_cases hlt : index < mutation.length
    · rw [Replacement.getElem?_apply hfits hlt, hnone, Option.none_or]
    · rw [List.getElem?_eq_none (by simpa using hlt), List.getElem?_eq_none (by simpa using hlt)]

/-! ## Which rules are accepted -/

/-- A pair names a mutator that is there and a value that it can take. -/
def Knows (space : Space) (pair : String × String) : Prop :=
  ∃ mutator ∈ space.mutators, mutator.name = pair.1 ∧
    ∃ value, Text.int32? pair.2 = some value ∧ mutator.hasValue value = true

/-- The sides of a rule can be declared. Names and values are compared as they are written, and only
the rules before are looked at by what they mean. -/
structure Acceptable (space : Space) (left right : List (String × String)) : Prop where
  inhabited : left ≠ []
  length_eq : right.length = left.length
  known : ∀ pair ∈ left ++ right, space.Knows pair
  left_nodup : (left.map Prod.fst).Nodup
  right_nodup : (right.map Prod.fst).Nodup
  names : ∀ name, name ∈ left.map Prod.fst ↔ name ∈ right.map Prod.fst
  /-- No rule before asks the same of a mutation. -/
  fresh : ¬∃ rule ∈ space.replacements, ∀ place,
    place ∈ rule.pattern ↔ ∃ pair ∈ left, space.Denotes pair place

theorem WellFormed.knows_iff (hspace : space.WellFormed) {pair : String × String} :
    space.Knows pair ↔ ∃ place, space.pairOf pair = .ok place := by
  constructor
  · rintro ⟨mutator, hmutator, hname, value, hvalue, hhas⟩
    obtain ⟨index, hindex, hplace⟩ := hspace.exists_mutatorIndex? hmutator
    exact ⟨(index, value), pairOf_eq_ok_iff.mpr
      ⟨⟨hname ▸ hindex, hvalue⟩, mutator, hplace, hhas⟩⟩
  · rintro ⟨place, hpair⟩
    obtain ⟨⟨hindex, hvalue⟩, other, hother, hhas⟩ := pairOf_eq_ok_iff.mp hpair
    obtain ⟨mutator, hmutator, hname⟩ := exists_of_mutatorIndex? hindex
    have hsame : other = mutator := Option.some.inj (hother.symm.trans hmutator)
    exact ⟨mutator, List.mem_of_getElem? hmutator, hname, place.2, hvalue, hsame ▸ hhas⟩

/-- The names on two sides agree if the mutators of the sources and the targets do. -/
theorem names_iff (hsources : space.Resolves left sources) (htargets : space.Resolves right targets)
    (hlength : right.length = left.length) :
    (∀ name, name ∈ left.map Prod.fst ↔ name ∈ right.map Prod.fst) ↔
      ∀ target ∈ targets, target.1 ∈ sources.map Prod.fst := by
  constructor
  · intro hnames target htarget
    obtain ⟨pair, hpair, hdenotes⟩ := htargets.mem_iff.mp htarget
    exact (mem_map_fst_iff hsources.denotes hdenotes).mpr
      ((hnames pair.1).mpr (List.mem_map_of_mem hpair))
  · intro hsubset
    have hnodup := (nodup_map_fst_iff htargets.denotes).mp htargets.nodup
    refine mem_iff_mem_of_subset hnodup ?_ (by simp [hlength])
    intro name hname
    obtain ⟨pair, hpair, rfl⟩ := List.mem_map.mp hname
    obtain ⟨target, htarget, haccepted⟩ := htargets.exists_place hpair
    exact (mem_map_fst_iff hsources.denotes (pairOf_eq_ok_iff.mp haccepted).1).mp
      (hsubset target htarget)

/-- Rules ask the same if they ask for the same set of values. -/
theorem WellFormed.mem_patterns_iff (hspace : space.WellFormed) (hleft : left ≠ [])
    (hsources : space.Resolves left sources) (htargets : space.Resolves right targets) :
    (replacementOfSides sources targets).pattern ∈ space.replacements.map Replacement.pattern ↔
      ∃ rule ∈ space.replacements, ∀ place,
        place ∈ rule.pattern ↔ ∃ pair ∈ left, space.Denotes pair place := by
  have hperm := perm_pattern_replacementOfSides sources targets
  rw [List.mem_map]
  refine exists_congr fun rule => and_congr_right fun hrule => ?_
  constructor
  · intro hpattern place
    rw [hpattern, hperm.mem_iff, hsources.mem_iff]
  · intro hplaces
    refine (hspace.replacements rule hrule).pattern_eq (fits_of_resolves hleft hsources htargets) ?_
    ext place
    rw [List.mem_toFinset, List.mem_toFinset, hplaces, hperm.mem_iff, hsources.mem_iff]

theorem replacementOf_eq_ok_iff (hcut : IsCut args left right) {rule : Replacement} :
    space.replacementOf args = .ok rule ↔
      left ≠ [] ∧ right.length = left.length ∧ space.replacementOfPairs left right = .ok rule := by
  rw [replacementOf_of_isCut hcut]
  split_ifs with hleft hlength
  · simp [hleft]
  · simp [hlength]
  · simp [hleft, not_not.mp hlength]

/-- The checks that are made one after the other accept what is acceptable. -/
theorem WellFormed.acceptable_iff (hspace : space.WellFormed) :
    space.Acceptable left right ↔ left ≠ [] ∧ right.length = left.length ∧
      ∃ rule, space.replacementOfPairs left right = .ok rule := by
  constructor
  · intro hacceptable
    obtain ⟨hknownLeft, hknownRight⟩ := List.forall_mem_append.mp hacceptable.known
    obtain ⟨sources, hsources⟩ := exists_resolves
      (fun pair hpair => hspace.knows_iff.mp (hknownLeft pair hpair)) hacceptable.left_nodup
    obtain ⟨targets, htargets⟩ := exists_resolves
      (fun pair hpair => hspace.knows_iff.mp (hknownRight pair hpair)) hacceptable.right_nodup
    have hsubset := (names_iff hsources htargets hacceptable.length_eq).mp hacceptable.names
    have hfresh := mt (hspace.mem_patterns_iff hacceptable.inhabited hsources htargets).mp
      hacceptable.fresh
    exact ⟨hacceptable.inhabited, hacceptable.length_eq, _, replacementOfPairs_eq_ok_iff.mpr
      ⟨sources, targets, hsources, htargets, hsubset, rfl, hfresh⟩⟩
  · rintro ⟨hleft, hlength, rule, hrule⟩
    obtain ⟨sources, targets, hsources, htargets, hsubset, rfl, hfresh⟩ :=
      replacementOfPairs_eq_ok_iff.mp hrule
    have hknown : ∀ {pairs places}, space.Resolves pairs places → ∀ pair ∈ pairs,
        space.Knows pair := by
      intro pairs places hresolves pair hpair
      obtain ⟨place, -, haccepted⟩ := hresolves.exists_place hpair
      exact hspace.knows_iff.mpr ⟨place, haccepted⟩
    exact
      { inhabited := hleft
        length_eq := hlength
        known := List.forall_mem_append.mpr ⟨hknown hsources, hknown htargets⟩
        left_nodup := (nodup_map_fst_iff hsources.denotes).mp hsources.nodup
        right_nodup := (nodup_map_fst_iff htargets.denotes).mp htargets.nodup
        names := (names_iff hsources htargets hlength).mpr hsubset
        fresh := mt (hspace.mem_patterns_iff hleft hsources htargets).mpr hfresh }

/-- A rule that is accepted does what its sides say. -/
theorem means_of_replacementOf (hcut : IsCut args left right) {rule : Replacement}
    (hrule : space.replacementOf args = .ok rule) : rule.Means space left right := by
  obtain ⟨hleft, hlength, hpairs⟩ := (replacementOf_eq_ok_iff hcut).mp hrule
  obtain ⟨sources, targets, hsources, htargets, hsubset, rfl, -⟩ :=
    replacementOfPairs_eq_ok_iff.mp hpairs
  refine means_replacementOfSides hsources htargets (fits_of_resolves hleft hsources htargets) ?_
  refine mem_iff_mem_of_subset htargets.nodup ?_ ?_
  · exact List.forall_mem_map.mpr hsubset
  · rw [List.length_map, List.length_map, ← hsources.accepted.length_eq,
      ← htargets.accepted.length_eq, hlength]

/-- Sides in another order make the same rule. -/
theorem replacementOf_of_perm {otherArgs : List String}
    {otherLeft otherRight : List (String × String)} (hcut : IsCut args left right)
    (hotherCut : IsCut otherArgs otherLeft otherRight) (hleft : otherLeft.Perm left)
    (hright : otherRight.Perm right) {rule : Replacement}
    (hrule : space.replacementOf args = .ok rule) : space.replacementOf otherArgs = .ok rule := by
  obtain ⟨hinhabited, hlength, hpairs⟩ := (replacementOf_eq_ok_iff hcut).mp hrule
  obtain ⟨sources, targets, hsources, htargets, hsubset, rfl, hfresh⟩ :=
    replacementOfPairs_eq_ok_iff.mp hpairs
  obtain ⟨otherSources, hotherSources, hsourcesPerm⟩ := hsources.exists_perm hleft
  obtain ⟨otherTargets, hotherTargets, htargetsPerm⟩ := htargets.exists_perm hright
  refine (replacementOf_eq_ok_iff hotherCut).mpr ⟨?_, ?_, ?_⟩
  · rintro rfl
    exact hinhabited hleft.nil_eq.symm
  · rw [hleft.length_eq, hright.length_eq, hlength]
  · refine replacementOfPairs_eq_ok_iff.mpr ⟨otherSources, otherTargets, hotherSources,
      hotherTargets, ?_, ?_, hfresh⟩
    · intro target htarget
      have hsource := hsubset target (htargetsPerm.mem_iff.mp htarget)
      exact (hsourcesPerm.map Prod.fst).mem_iff.mpr hsource
    · exact (replacementOfSides_eq_of_perm hsources.nodup htargets.nodup hsourcesPerm
        htargetsPerm).symm

/-- How a space takes declarations of replacement rules: which of them it accepts, and what a rule
that is accepted does from then on. -/
structure DeclaresReplacements (space : Space) : Prop where
  accepts_iff : ∀ args, (∃ next, space.declare (.replacement args) = .ok next) ↔
    ∃ left right, IsCut args left right ∧ space.Acceptable left right
  /-- The rule comes behind the ones that are there, and nothing else is changed. -/
  adds : ∀ args left right next, IsCut args left right →
    space.declare (.replacement args) = .ok next →
    ∃ rule, next = { space with replacements := space.replacements ++ [rule] } ∧
      rule.Means space left right
  /-- The order of the pairs on each side plays no part. -/
  perm : ∀ args left right otherArgs otherLeft otherRight, IsCut args left right →
    IsCut otherArgs otherLeft otherRight → otherLeft.Perm left → otherRight.Perm right →
    (space.declare (.replacement otherArgs)).toOption = (space.declare (.replacement args)).toOption

theorem toOption_declare_of_perm {otherArgs : List String}
    {otherLeft otherRight : List (String × String)} (hcut : IsCut args left right)
    (hotherCut : IsCut otherArgs otherLeft otherRight) (hleft : otherLeft.Perm left)
    (hright : otherRight.Perm right) :
    (space.declare (.replacement otherArgs)).toOption =
      (space.declare (.replacement args)).toOption := by
  rw [declare, declare]
  cases hrule : space.replacementOf args with
  | ok rule => rw [replacementOf_of_perm hcut hotherCut hleft hright hrule]
  | error complaint =>
    cases hother : space.replacementOf otherArgs with
    | ok rule =>
      have hback := replacementOf_of_perm hotherCut hcut hleft.symm hright.symm hother
      cases hrule.symm.trans hback
    | error otherComplaint => rfl

end Space

/-- In every space that was made by declarations, a replacement rule is accepted exactly if it has
as many pairs on the right as on the left and at least one, all pairs name mutators that are there
and values of theirs, the names on each side are different and are the same on both, and no rule
before it asks for the same set of values. It is added as it is written, and the order of its pairs
plays no part. -/
theorem declaresReplacements_of_declareAll {declarations : List Declaration} {space : Space}
    (hdeclared : ({} : Space).declareAll declarations = .ok space) :
    space.DeclaresReplacements := by
  have hspace : space.WellFormed := Space.wellFormed_empty.declareAll hdeclared
  refine ⟨?_, ?_, ?_⟩
  · intro args
    constructor
    · rintro ⟨next, hnext⟩
      obtain ⟨rule, hrule, -⟩ := exists_of_map_eq_ok hnext
      obtain ⟨left, right, hcut⟩ := Space.exists_isCut_of_replacementOf hrule
      obtain ⟨hleft, hlength, hpairs⟩ := (Space.replacementOf_eq_ok_iff hcut).mp hrule
      exact ⟨left, right, hcut, hspace.acceptable_iff.mpr ⟨hleft, hlength, rule, hpairs⟩⟩
    · rintro ⟨left, right, hcut, hacceptable⟩
      obtain ⟨hleft, hlength, rule, hpairs⟩ := hspace.acceptable_iff.mp hacceptable
      have hrule := (Space.replacementOf_eq_ok_iff hcut).mpr ⟨hleft, hlength, hpairs⟩
      exact ⟨space.addReplacement rule, congrArg (Except.map space.addReplacement) hrule⟩
  · intro args left right next hcut hnext
    obtain ⟨rule, hrule, rfl⟩ := exists_of_map_eq_ok hnext
    exact ⟨rule, rfl, Space.means_of_replacementOf hcut hrule⟩
  · intro args left right otherArgs otherLeft otherRight hcut hotherCut hleft hright
    exact Space.toOption_declare_of_perm hcut hotherCut hleft hright

/-- A rule for two mutators, and a mutator that is declared after it. -/
def ruleForTwo : List Declaration :=
  [.mutator ["A", "0", "1"], .mutator ["B", "5", "6"],
   .replacement ["B", "5", "A", "0", "to", "A", "1", "B", "6"], .mutator ["C", "-1", "+2"]]

/-- Another rule with the same left side is refused, in whatever order its pairs are; one that
differs in a value is accepted. -/
theorem declaresReplacements_ruleForTwo :
    ∃ space, ({} : Space).declareAll ruleForTwo = .ok space ∧
      (space.declare (.replacement ["A", "0", "B", "5", "to", "B", "5", "A", "1"])).toOption =
        none ∧
      (space.declare (.replacement ["B", "6", "A", "0", "to", "A", "1", "B", "5"])).toOption =
        some { space with
          replacements := space.replacements ++ [⟨[⟨0, 0, 1⟩, ⟨1, 6, 5⟩]⟩] } ∧
      space.DeclaresReplacements := by
  have hcheck : (({} : Space).declareAll ruleForTwo).toOption.any (fun space => decide
      ((space.declare (.replacement ["A", "0", "B", "5", "to", "B", "5", "A", "1"])).toOption =
        none ∧
      (space.declare (.replacement ["B", "6", "A", "0", "to", "A", "1", "B", "5"])).toOption =
        some { space with
          replacements := space.replacements ++ [⟨[⟨0, 0, 1⟩, ⟨1, 6, 5⟩]⟩] })) = true := by
    decide +kernel
  obtain ⟨space, hspace, hfacts⟩ := (Option.any_eq_true ..).mp hcheck
  obtain ⟨hrefused, haccepted⟩ := of_decide_eq_true hfacts
  have hdeclared := eq_ok_of_toOption hspace
  exact ⟨space, hdeclared, hrefused, haccepted, declaresReplacements_of_declareAll hdeclared⟩

end Ubershader
