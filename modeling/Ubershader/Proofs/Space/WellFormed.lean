import Mathlib.Data.List.Forall2
import Mathlib.Data.List.Nodup
import Mathlib.Tactic.SplitIfs
import Ubershader.Proofs.Space.Slots

/-!
# Well-formed spaces

A space that was built by declarations has more structure than its type says. Mutators have
different identifiers as names and increasing lists of values, a rule speaks only of mutators that
are there and of values that those can take, and the changes of a replacement rule are ordered by
index. `Space.WellFormed` collects these facts. The empty space has them, and each of the three
kinds of declarations keeps them, so everything that is read has them.

Rules are checked against the mutators declared before them. Later mutators are added at the end,
so a rule that fits a list of mutators fits every list that goes on from it.
-/

namespace Ubershader

section Sorting

variable {α : Type} (key : α → Int)

theorem perm_insertByKey (a : α) (list : List α) : (insertByKey key a list).Perm (a :: list) := by
  induction list with
  | nil => exact .refl _
  | cons b rest ih =>
    rw [insertByKey]
    split
    · exact (ih.cons b).trans (.swap a b rest)
    · exact .refl _

theorem pairwise_insertByKey (a : α) {list : List α}
    (hlist : list.Pairwise fun b c => key b ≤ key c) :
    (insertByKey key a list).Pairwise fun b c => key b ≤ key c := by
  induction list with
  | nil => simp [insertByKey]
  | cons b rest ih =>
    obtain ⟨hhead, hrest⟩ := List.pairwise_cons.mp hlist
    rw [insertByKey]
    split
    · next hle =>
      refine List.pairwise_cons.mpr ⟨?_, ih hrest⟩
      intro c hc
      obtain rfl | hc := List.mem_cons.mp ((perm_insertByKey key a rest).mem_iff.mp hc)
      · exact hle
      · exact hhead c hc
    · next hlt =>
      refine List.pairwise_cons.mpr ⟨?_, hlist⟩
      intro c hc
      obtain rfl | hc := List.mem_cons.mp hc
      · omega
      · have := hhead c hc
        omega

private theorem foldl_insertByKey (list sorted : List α)
    (hsorted : sorted.Pairwise fun b c => key b ≤ key c) :
    (list.foldl (fun sorted a => insertByKey key a sorted) sorted).Perm (list ++ sorted) ∧
      (list.foldl (fun sorted a => insertByKey key a sorted) sorted).Pairwise
        fun b c => key b ≤ key c := by
  induction list generalizing sorted with
  | nil => exact ⟨.refl _, hsorted⟩
  | cons a list ih =>
    obtain ⟨hperm, hpairwise⟩ := ih _ (pairwise_insertByKey key a hsorted)
    refine ⟨hperm.trans ?_, hpairwise⟩
    exact ((perm_insertByKey key a sorted).append_left list).trans List.perm_middle

/-- Sorting keeps every element as often as it is there. -/
theorem perm_sortByKey (list : List α) : (sortByKey key list).Perm list := by
  simpa [sortByKey] using (foldl_insertByKey key list [] .nil).1

theorem pairwise_sortByKey (list : List α) :
    (sortByKey key list).Pairwise fun b c => key b ≤ key c :=
  (foldl_insertByKey key list [] .nil).2

/-- Elements with different keys are sorted strictly. -/
theorem pairwise_lt_sortByKey {list : List α} (hkeys : (list.map key).Nodup) :
    (sortByKey key list).Pairwise fun b c => key b < key c := by
  have hnodup : ((sortByKey key list).map key).Nodup :=
    ((perm_sortByKey key list).map key).nodup_iff.mpr hkeys
  refine ((pairwise_sortByKey key list).and (List.pairwise_map.mp hnodup)).imp ?_
  intro b c hbc
  have := hbc.1
  have := hbc.2
  omega

end Sorting

/-- An ordered list of words without equal neighbours increases. -/
theorem pairwise_lt_of_firstRepeated? {values : List Int32}
    (hsorted : values.Pairwise fun a b => a.toInt ≤ b.toInt)
    (hdistinct : firstRepeated? values = none) : values.Pairwise (· < ·) := by
  fun_induction firstRepeated? values with
  | case1 => cases hdistinct
  | case2 a b rest hne ih =>
    obtain ⟨hhead, htail⟩ := List.pairwise_cons.mp hsorted
    have hincreasing := ih htail hdistinct
    have hlt : a < b := by
      have hle := hhead b (by simp)
      have hne' : a.toInt ≠ b.toInt := fun heq => hne (Int32.toInt_inj.mp heq)
      rw [Int32.lt_iff_toInt_lt]
      omega
    refine List.pairwise_cons.mpr ⟨?_, hincreasing⟩
    intro c hc
    obtain rfl | hc := List.mem_cons.mp hc
    · exact hlt
    · exact Int32.lt_trans hlt ((List.pairwise_cons.mp hincreasing).1 c hc)
  | case3 values hshort =>
    match values with
    | [] => simp
    | [_] => simp
    | a :: b :: rest => exact absurd rfl (hshort a b rest)

/-- Checks that are made for every element of a list give results in the same order. -/
theorem forall₂_of_mapM_eq_ok {ε α β : Type} {check : α → Except ε β} {xs : List α} {ys : List β}
    (hmap : xs.mapM check = .ok ys) : List.Forall₂ (fun x y => check x = .ok y) xs ys := by
  induction xs generalizing ys with
  | nil =>
    cases hmap
    exact .nil
  | cons x xs ih =>
    rw [List.mapM_cons] at hmap
    obtain ⟨y, hy, htail⟩ := exists_of_bind_eq_ok hmap
    obtain ⟨rest, hrest, hys⟩ := exists_of_bind_eq_ok htail
    cases hys
    exact .cons hy (ih hrest)

/-- Results that come in the order of what they are for each belong to something. -/
theorem exists_of_forall₂ {α β : Type} {R : α → β → Prop} {xs : List α} {ys : List β}
    (hforall : List.Forall₂ R xs ys) {y : β} (hy : y ∈ ys) : ∃ x ∈ xs, R x y := by
  induction hforall with
  | nil => simp at hy
  | cons hfirst _ ih =>
    obtain rfl | hy := List.mem_cons.mp hy
    · exact ⟨_, List.mem_cons_self .., hfirst⟩
    · obtain ⟨x, hx, hrelated⟩ := ih hy
      exact ⟨x, List.mem_cons_of_mem _ hx, hrelated⟩

namespace Space

/-- A mutator is there at a given place, and can take a given value. -/
def Legal (mutators : List Mutator) (index : Nat) (value : Int32) : Prop :=
  ∃ mutator, mutators[index]? = some mutator ∧ mutator.hasValue value = true

theorem Legal.lt {mutators : List Mutator} {index : Nat} {value : Int32}
    (hlegal : Legal mutators index value) : index < mutators.length := by
  obtain ⟨mutator, hmutator, -⟩ := hlegal
  exact (List.getElem?_eq_some_iff.mp hmutator).1

theorem Legal.append {mutators : List Mutator} {index : Nat} {value : Int32}
    (hlegal : Legal mutators index value) (more : List Mutator) :
    Legal (mutators ++ more) index value := by
  have hlt := hlegal.lt
  obtain ⟨mutator, hmutator, hvalue⟩ := hlegal
  exact ⟨mutator, by rw [List.getElem?_append_left hlt, hmutator], hvalue⟩

end Space

/-- The name of a mutator is a short identifier, and its values are several and increase. -/
structure Mutator.WellFormed (mutator : Mutator) : Prop where
  identifier : Text.isIdentifier mutator.name = true
  short : mutator.name.utf8ByteSize ≤ Space.maxNameLength
  several : 2 ≤ mutator.values.length
  increasing : mutator.values.Pairwise (· < ·)

/-- The slots of a skip rule belong to mutators that are there, not all of them are wildcards, and
a value in a slot is one that its mutator can take. -/
structure SkipRule.Fits (mutators : List Mutator) (rule : SkipRule) : Prop where
  length_le : rule.slots.length ≤ mutators.length
  fixed : ∃ (index : Nat) (value : Int32), rule.slots[index]? = some (some value)
  legal : ∀ (index : Nat) (value : Int32), rule.slots[index]? = some (some value) →
    Space.Legal mutators index value

/-- A replacement rule has changes, in the order of their indices, and each leads from one value
of a mutator that is there to another one. -/
structure Replacement.Fits (mutators : List Mutator) (rule : Replacement) : Prop where
  inhabited : rule.changes ≠ []
  increasing : rule.changes.Pairwise fun change other => change.index < other.index
  before : ∀ change ∈ rule.changes, Space.Legal mutators change.index change.before
  after : ∀ change ∈ rule.changes, Space.Legal mutators change.index change.after

/-- What holds of every space that was built by declarations. The type alone would also allow rules
for mutators that are not there. -/
structure Space.WellFormed (space : Space) : Prop where
  length_le : space.mutators.length ≤ Space.maxMutators
  names : (space.mutators.map Mutator.name).Nodup
  mutators : ∀ mutator ∈ space.mutators, mutator.WellFormed
  skips : ∀ rule ∈ space.skips, rule.Fits space.mutators
  replacements : ∀ rule ∈ space.replacements, rule.Fits space.mutators
  patterns : (space.replacements.map Replacement.pattern).Nodup

theorem SkipRule.Fits.append {mutators : List Mutator} {rule : SkipRule}
    (hfits : rule.Fits mutators) (more : List Mutator) : rule.Fits (mutators ++ more) where
  length_le := by
    have := hfits.length_le
    rw [List.length_append]
    omega
  fixed := hfits.fixed
  legal index value hslot := (hfits.legal index value hslot).append more

theorem Replacement.Fits.append {mutators : List Mutator} {rule : Replacement}
    (hfits : rule.Fits mutators) (more : List Mutator) : rule.Fits (mutators ++ more) where
  inhabited := hfits.inhabited
  increasing := hfits.increasing
  before change hchange := (hfits.before change hchange).append more
  after change hchange := (hfits.after change hchange).append more

namespace Space

variable {space : Space} {args : List String}

theorem lt_of_mutatorIndex? {name : String} {index : Nat}
    (hindex : space.mutatorIndex? name = some index) : index < space.mutators.length :=
  (List.findIdx?_eq_some_iff_findIdx_eq.mp hindex).1

theorem wellFormed_empty : ({} : Space).WellFormed where
  length_le := Nat.zero_le _
  names := List.nodup_nil
  mutators := by simp
  skips := by simp
  replacements := by simp
  patterns := List.nodup_nil

/-! ## Mutators -/

theorem of_nameComplaint? {name : String} (hname : space.nameComplaint? name = none) :
    (space.mutatorIndex? name) = none ∧ name.utf8ByteSize ≤ maxNameLength ∧
      Text.isIdentifier name = true ∧ space.mutators.length ≠ maxMutators := by
  rw [nameComplaint?] at hname
  split_ifs at hname with _ hindex hlong hidentifier hfull
  exact ⟨by simpa using hindex, Nat.not_lt.mp hlong, by simpa using hidentifier, hfull⟩

theorem wellFormed_of_mutatorOfValues {name : String} {values : List Int32} {mutator : Mutator}
    (hidentifier : Text.isIdentifier name = true) (hshort : name.utf8ByteSize ≤ maxNameLength)
    (hmutator : mutatorOfValues name values = .ok mutator) :
    mutator.name = name ∧ mutator.WellFormed := by
  rw [mutatorOfValues] at hmutator
  split at hmutator
  · cases hmutator
  · next hseveral =>
    dsimp only at hmutator
    split at hmutator
    · cases hmutator
    · next hdistinct =>
      cases hmutator
      refine ⟨rfl, hidentifier, hshort, ?_, ?_⟩
      · rw [(perm_sortByKey Int32.toInt values).length_eq]
        omega
      · exact pairwise_lt_of_firstRepeated? (pairwise_sortByKey Int32.toInt values) hdistinct

theorem of_mutatorOf {mutator : Mutator} (hmutator : space.mutatorOf args = .ok mutator) :
    space.mutatorIndex? mutator.name = none ∧ space.mutators.length ≠ maxMutators ∧
      mutator.WellFormed := by
  cases args with
  | nil => cases hmutator
  | cons name args =>
    rw [mutatorOf] at hmutator
    split at hmutator
    · cases hmutator
    · next hname =>
      obtain ⟨hfresh, hshort, hidentifier, hroom⟩ := of_nameComplaint? hname
      obtain ⟨values, -, hvalues⟩ := exists_of_bind_eq_ok hmutator
      obtain ⟨rfl, hwell⟩ := wellFormed_of_mutatorOfValues hidentifier hshort hvalues
      exact ⟨hfresh, hroom, hwell⟩

theorem WellFormed.addMutator (hspace : space.WellFormed) {mutator : Mutator}
    (hmutator : space.mutatorOf args = .ok mutator) : (space.addMutator mutator).WellFormed := by
  obtain ⟨hfresh, hroom, hwell⟩ := of_mutatorOf hmutator
  have hnew : mutator.name ∉ space.mutators.map Mutator.name := by
    intro hmem
    obtain ⟨other, hother, hname⟩ := List.mem_map.mp hmem
    rw [mutatorIndex?, List.findIdx?_eq_none_iff] at hfresh
    simpa [hname] using hfresh other hother
  refine ⟨?_, ?_, ?_, ?_, ?_, hspace.patterns⟩
  · have := hspace.length_le
    simp only [Space.addMutator, List.length_append, List.length_singleton]
    omega
  · simpa [Space.addMutator, List.nodup_append] using
      ⟨hspace.names, fun other hother hname => hnew (hname ▸ List.mem_map_of_mem hother)⟩
  · intro other hother
    obtain hold | hlast := List.mem_append.mp hother
    · exact hspace.mutators other hold
    · rw [List.mem_singleton.mp hlast]
      exact hwell
  · exact fun rule hrule => (hspace.skips rule hrule).append [mutator]
  · exact fun rule hrule => (hspace.replacements rule hrule).append [mutator]

/-! ## Skip rules -/

theorem legal_of_pairOf {pair : String × String} {resolved : Nat × Int32}
    (hpair : space.pairOf pair = .ok resolved) :
    Legal space.mutators resolved.1 resolved.2 := by
  rw [pairOf] at hpair
  split at hpair
  · cases hpair
  · next index _ =>
    split at hpair
    · cases hpair
    · next value _ =>
      split at hpair
      · next hvalue =>
        cases hpair
        exact (Option.any_eq_true ..).mp hvalue
      · cases hpair

theorem length_inPairs {α : Type} (list : List α) : (inPairs list).length = list.length / 2 := by
  fun_induction inPairs list with
  | case1 a b rest ih =>
    simp only [List.length_cons, ih]
    omega
  | case2 list hshort =>
    match list with
    | [] => simp
    | [_] => simp
    | a :: b :: rest => exact absurd rfl (hshort a b rest)

theorem fits_of_skipRuleOf {rule : SkipRule} (hrule : space.skipRuleOf args = .ok rule) :
    rule.Fits space.mutators := by
  rw [skipRuleOf] at hrule
  split at hrule
  · cases hrule
  · next hcount =>
    obtain ⟨pairs, hpairs, hslots⟩ := exists_of_bind_eq_ok hrule
    cases hslots
    have hresolved := forall₂_of_mapM_eq_ok hpairs
    have hlegal : ∀ pair ∈ pairs, Legal space.mutators pair.1 pair.2 := by
      intro pair hpair
      obtain ⟨tokens, -, htokens⟩ := exists_of_forall₂ hresolved hpair
      exact legal_of_pairOf htokens
    have hslot : ∀ {index : Nat} {value : Int32},
        (space.slotsOf pairs)[index]? = some (some value) ↔ IsLast pairs (index, value) :=
      getElem?_slotsOf_iff fun pair hpair => (hlegal pair hpair).lt
    refine ⟨by simp, ?_, fun index value hvalue => hlegal _ (hslot.mp hvalue).mem⟩
    have hinhabited : pairs ≠ [] := by
      rintro rfl
      have hlength := hresolved.length_eq
      rw [length_inPairs, List.length_nil] at hlength
      omega
    obtain ⟨first, hfirst⟩ := List.exists_mem_of_ne_nil pairs hinhabited
    obtain ⟨⟨index, value⟩, hlast, -⟩ := exists_isLast (List.mem_map_of_mem hfirst)
    exact ⟨index, value, hslot.mpr hlast⟩

theorem WellFormed.addSkip (hspace : space.WellFormed) {rule : SkipRule}
    (hrule : space.skipRuleOf args = .ok rule) : (space.addSkip rule).WellFormed := by
  refine ⟨hspace.length_le, hspace.names, hspace.mutators, ?_, hspace.replacements,
    hspace.patterns⟩
  intro other hother
  obtain hold | hlast := List.mem_append.mp hother
  · exact hspace.skips other hold
  · rw [List.mem_singleton.mp hlast]
    exact fits_of_skipRuleOf hrule

/-! ## Replacement rules -/

/-- Pairs are accepted one by one, and are for different mutators. -/
structure Resolves (space : Space) (pairs : List (String × String)) (places : List (Nat × Int32)) :
    Prop where
  accepted : List.Forall₂ (fun pair place => space.pairOf pair = .ok place) pairs places
  nodup : (places.map Prod.fst).Nodup

theorem of_sideOf {allowed : Nat → Bool} {taken : List Nat} {pairs : List (String × String)}
    {places : List (Nat × Int32)} (hside : space.sideOf allowed taken pairs = .ok places) :
    space.Resolves pairs places ∧
      ∀ place ∈ places, place.1 ∉ taken ∧ allowed place.1 = true := by
  induction pairs generalizing taken places with
  | nil =>
    cases hside
    exact ⟨⟨.nil, .nil⟩, by simp⟩
  | cons pair pairs ih =>
    rw [sideOf] at hside
    obtain ⟨place, hplace, hrest⟩ := exists_of_bind_eq_ok hside
    split_ifs at hrest with htaken hallowed
    obtain ⟨rest, hlater, hplaces⟩ := exists_of_bind_eq_ok hrest
    cases hplaces
    obtain ⟨hresolves, hfree⟩ := ih hlater
    refine ⟨⟨.cons hplace hresolves.accepted, ?_⟩, ?_⟩
    · refine List.nodup_cons.mpr ⟨?_, hresolves.nodup⟩
      intro hmem
      obtain ⟨other, hother, hindex⟩ := List.mem_map.mp hmem
      exact (hfree other hother).1 (by simp [hindex])
    · refine List.forall_mem_cons.mpr ⟨⟨htaken, by simpa using hallowed⟩, ?_⟩
      intro other hother
      have hlaterFree := hfree other hother
      exact ⟨fun hmem => hlaterFree.1 (List.mem_cons_of_mem _ hmem), hlaterFree.2⟩

theorem Resolves.legal {pairs : List (String × String)} {places : List (Nat × Int32)}
    (hresolves : space.Resolves pairs places) {place : Nat × Int32} (hplace : place ∈ places) :
    Legal space.mutators place.1 place.2 := by
  obtain ⟨pair, -, hpair⟩ := exists_of_forall₂ hresolves.accepted hplace
  exact legal_of_pairOf hpair

/-- The changes of a rule are those of its sources, in another order. -/
theorem perm_changes_replacementOfSides (sources targets : List (Nat × Int32)) :
    (replacementOfSides sources targets).changes.Perm
      (sources.map fun source =>
        { index := source.1, before := source.2,
          after := (targets.lookup source.1).getD source.2 }) :=
  perm_sortByKey _ _

theorem increasing_replacementOfSides {sources targets : List (Nat × Int32)}
    (hnodup : (sources.map Prod.fst).Nodup) :
    (replacementOfSides sources targets).changes.Pairwise fun change other =>
      change.index < other.index := by
  refine (pairwise_lt_sortByKey (fun change : Change => (change.index : Int)) ?_).imp
    fun hlt => Int.ofNat_lt.mp hlt
  have hindices := List.Nodup.map (f := fun index : Nat => (index : Int))
    (fun _ _ heq => Int.ofNat_inj.mp heq) hnodup
  simpa [Function.comp_def] using hindices

theorem fits_replacementOfSides {mutators : List Mutator} {sources targets : List (Nat × Int32)}
    (hinhabited : sources ≠ []) (hnodup : (sources.map Prod.fst).Nodup)
    (hsources : ∀ pair ∈ sources, Legal mutators pair.1 pair.2)
    (htargets : ∀ pair ∈ targets, Legal mutators pair.1 pair.2) :
    (replacementOfSides sources targets).Fits mutators := by
  have hperm := perm_changes_replacementOfSides sources targets
  refine ⟨?_, ?_, ?_, ?_⟩
  · intro hnil
    rw [hnil] at hperm
    exact hinhabited (by simpa using hperm.nil_eq.symm)
  · exact increasing_replacementOfSides hnodup
  · intro change hchange
    obtain ⟨source, hsource, rfl⟩ := List.mem_map.mp (hperm.mem_iff.mp hchange)
    exact hsources source hsource
  · intro change hchange
    obtain ⟨source, hsource, rfl⟩ := List.mem_map.mp (hperm.mem_iff.mp hchange)
    cases hlookup : targets.lookup source.1 with
    | none => simpa [hlookup] using hsources source hsource
    | some value =>
      obtain ⟨front, back, rfl, -⟩ := List.lookup_eq_some_iff.mp hlookup
      simpa [hlookup] using htargets (source.1, value) (by simp)

theorem fits_of_resolves {left right : List (String × String)}
    {sources targets : List (Nat × Int32)} (hleft : left ≠ [])
    (hsources : space.Resolves left sources) (htargets : space.Resolves right targets) :
    (replacementOfSides sources targets).Fits space.mutators := by
  refine fits_replacementOfSides ?_ hsources.nodup (fun _ => hsources.legal)
    (fun _ => htargets.legal)
  rintro rfl
  exact hleft (List.forall₂_nil_right_iff.mp hsources.accepted)

theorem of_replacementOfPairs {left right : List (String × String)} {rule : Replacement}
    (hleft : left ≠ []) (hrule : space.replacementOfPairs left right = .ok rule) :
    rule.Fits space.mutators ∧ rule.pattern ∉ space.replacements.map Replacement.pattern := by
  rw [replacementOfPairs] at hrule
  obtain ⟨sources, hsources, hrest⟩ := exists_of_bind_eq_ok hrule
  obtain ⟨targets, htargets, hrest⟩ := exists_of_bind_eq_ok hrest
  dsimp only at hrest
  split at hrest
  · cases hrest
  · next hfresh =>
    cases hrest
    refine ⟨fits_of_resolves hleft (of_sideOf hsources).1 (of_sideOf htargets).1, ?_⟩
    simpa using hfresh

theorem of_replacementOf {rule : Replacement} (hrule : space.replacementOf args = .ok rule) :
    rule.Fits space.mutators ∧ rule.pattern ∉ space.replacements.map Replacement.pattern := by
  rw [replacementOf] at hrule
  split_ifs at hrule with _ hleft _
  refine of_replacementOfPairs ?_ hrule
  intro hnil
  have hlength := length_inPairs ((Text.beforeComment args).takeWhile fun token => token != "to")
  rw [hnil, List.length_nil] at hlength
  have hshort : ((Text.beforeComment args).takeWhile fun token => token != "to") = [] :=
    List.length_eq_zero_iff.mp (by omega)
  exact hleft (.inl hshort)

theorem WellFormed.addReplacement (hspace : space.WellFormed) {rule : Replacement}
    (hrule : space.replacementOf args = .ok rule) : (space.addReplacement rule).WellFormed := by
  obtain ⟨hfits, hfresh⟩ := of_replacementOf hrule
  refine ⟨hspace.length_le, hspace.names, hspace.mutators, hspace.skips, ?_, ?_⟩
  · intro other hother
    obtain hold | hlast := List.mem_append.mp hother
    · exact hspace.replacements other hold
    · rw [List.mem_singleton.mp hlast]
      exact hfits
  · simp only [Space.addReplacement, List.map_append, List.map_cons, List.map_nil]
    exact List.nodup_append.mpr ⟨hspace.patterns, by simp, by
      intro pattern hpattern other hother hsame
      rw [List.mem_singleton.mp hother] at hsame
      exact hfresh (hsame ▸ hpattern)⟩

end Space

end Ubershader
