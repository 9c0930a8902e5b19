import Mathlib.Data.List.Duplicate
import Mathlib.Order.Bounds.Defs
import Ubershader.Proofs.Directive
import Ubershader.Proofs.Space.Declarations

/-!
# Which mutators are accepted

A mutator is declared by a name and the tokens of its values. Which declarations are accepted can
be said by names and integers alone: the name is a short identifier that is not taken, there is
room for one more mutator, and the tokens in front of a comment spell several integers of 32 bits,
all of them different (`Space.TakesName`, `Text.Spells`).

A declaration is checked in another way: the values are sorted, and then only neighbours are
compared. In a list that is sorted equal values are neighbours, and the first pair of them is the
one of the least value that is repeated. Sorting also makes the order of the tokens irrelevant, for
what is declared as well as for what is complained about.
-/

namespace Ubershader

namespace Text

/-! ## Integers as they are spelled -/

/-- A token is an optional sign and at least one decimal digit, and the integer is the value of
these. The same integer has many spellings. -/
inductive Spells (token : String) : Int → Prop
  | unsigned {digits : List Char} (chars : token.toList = digits) (some_digit : digits ≠ [])
      (all_digits : digits.all Char.isDigit = true) : Spells token (Nat.ofDigitChars 10 digits 0)
  | plus {digits : List Char} (chars : token.toList = '+' :: digits) (some_digit : digits ≠ [])
      (all_digits : digits.all Char.isDigit = true) : Spells token (Nat.ofDigitChars 10 digits 0)
  | minus {digits : List Char} (chars : token.toList = '-' :: digits) (some_digit : digits ≠ [])
      (all_digits : digits.all Char.isDigit = true) :
      Spells token (-(Nat.ofDigitChars 10 digits 0 : Int))

theorem natural?_eq_some_iff {digits : List Char} {n : Nat} :
    natural? digits = some n ↔
      digits ≠ [] ∧ digits.all Char.isDigit = true ∧ Nat.ofDigitChars 10 digits 0 = n := by
  rw [natural?]
  split
  · next hdigits => simp [hdigits.1, hdigits.2]
  · next hdigits => simp_all

theorem toInt32?_eq_some_iff {n : Int} {value : Int32} :
    toInt32? n = some value ↔ value.toInt = n := by
  rw [toInt32?]
  split
  · next hrange =>
    rw [Option.some.injEq, ← Int32.toInt_inj, Int32.toInt_ofInt_of_le (by omega) (by omega)]
    exact eq_comm
  · next hrange =>
    have := value.le_toInt
    have := value.toInt_lt
    refine ⟨nofun, ?_⟩
    omega

theorem exists_of_bind_toInt32? {digits : List Char} {value : Int32} (sign : Int → Int)
    (hvalue : ((natural? digits).bind fun n => toInt32? (sign n)) = some value) :
    digits ≠ [] ∧ digits.all Char.isDigit = true ∧
      value.toInt = sign (Nat.ofDigitChars 10 digits 0) := by
  obtain ⟨n, hnatural, hword⟩ := Option.bind_eq_some_iff.mp hvalue
  obtain ⟨hsome, hall, rfl⟩ := natural?_eq_some_iff.mp hnatural
  exact ⟨hsome, hall, toInt32?_eq_some_iff.mp hword⟩

/-- A token denotes a word if it spells the integer that the word stands for. -/
theorem int32?_eq_some_iff {token : String} {value : Int32} :
    int32? token = some value ↔ Spells token value.toInt := by
  constructor
  · intro hvalue
    rw [int32?] at hvalue
    split at hvalue
    · next digits hchars =>
      obtain ⟨hsome, hall, hint⟩ := exists_of_bind_toInt32? (fun n => -n) hvalue
      exact hint ▸ .minus hchars hsome hall
    · next digits hchars =>
      obtain ⟨hsome, hall, hint⟩ := exists_of_bind_toInt32? (fun n => n) hvalue
      exact hint ▸ .plus hchars hsome hall
    · obtain ⟨hsome, hall, hint⟩ := exists_of_bind_toInt32? (fun n => n) hvalue
      exact hint ▸ .unsigned rfl hsome hall
  · intro hspells
    generalize hint : value.toInt = n at hspells
    have hword : toInt32? n = some value := toInt32?_eq_some_iff.mpr hint
    cases hspells with
    | @unsigned digits hchars hsome hall =>
      -- A sign is no digit, so the token is taken for its digits.
      have hminus : ∀ rest, digits ≠ '-' :: rest := by
        rintro rest rfl
        simp at hall
      have hplus : ∀ rest, digits ≠ '+' :: rest := by
        rintro rest rfl
        simp at hall
      rw [int32?, hchars]
      split
      · exact absurd rfl (hminus _)
      · exact absurd rfl (hplus _)
      · rw [natural?_eq_some_iff.mpr ⟨hsome, hall, rfl⟩]
        exact hword
    | plus hchars hsome hall =>
      simp only [int32?, hchars, natural?_eq_some_iff.mpr ⟨hsome, hall, rfl⟩, Option.bind_some]
      exact hword
    | minus hchars hsome hall =>
      simp only [int32?, hchars, natural?_eq_some_iff.mpr ⟨hsome, hall, rfl⟩, Option.bind_some]
      exact hword

end Text

/-! ## Repetitions in a sorted list -/

section Repetitions

variable {values : List Int32}

theorem duplicate_cons_iff_of_lt {a b : Int32} {rest : List Int32}
    (hsorted : (a :: b :: rest).Pairwise fun c d => c.toInt ≤ d.toInt) (hne : a ≠ b) (c : Int32) :
    List.Duplicate c (a :: b :: rest) ↔ List.Duplicate c (b :: rest) := by
  obtain ⟨hhead, htail⟩ := List.pairwise_cons.mp hsorted
  have hlt : a.toInt < b.toInt := by
    have hle := hhead b List.mem_cons_self
    have hints : a.toInt ≠ b.toInt := fun heq => hne (Int32.toInt_inj.mp heq)
    omega
  have hfresh : a ∉ b :: rest := by
    intro hmem
    obtain rfl | hlater := List.mem_cons.mp hmem
    · exact hne rfl
    · have := (List.pairwise_cons.mp htail).1 a hlater
      omega
  rw [List.duplicate_cons_iff]
  constructor
  · rintro (⟨rfl, hmem⟩ | hlater)
    · exact absurd hmem hfresh
    · exact hlater
  · exact .inr

/-- Equal neighbours are there if and only if something is repeated, and the first of them are the
least that is. -/
theorem firstRepeated?_of_sorted (hsorted : values.Pairwise fun a b => a.toInt ≤ b.toInt) :
    (firstRepeated? values = none ↔ values.Nodup) ∧
      ∀ value, firstRepeated? values = some value →
        IsLeast {repeated | List.Duplicate repeated values} value := by
  fun_induction firstRepeated? values with
  | case1 a rest =>
    refine ⟨by simp, ?_⟩
    rintro _ ⟨⟩
    refine ⟨List.Mem.duplicate_cons_self List.mem_cons_self, ?_⟩
    intro other hother
    obtain rfl | hlater := List.mem_cons.mp hother.mem
    · exact Int32.le_refl _
    · exact Int32.le_iff_toInt_le.mpr ((List.pairwise_cons.mp hsorted).1 other hlater)
  | case2 a b rest hne ih =>
    obtain ⟨hnone, hleast⟩ := ih (List.pairwise_cons.mp hsorted).2
    have hsame := duplicate_cons_iff_of_lt hsorted hne
    simp only [List.nodup_iff_forall_not_duplicate, hsame] at hnone ⊢
    exact ⟨hnone, hleast⟩
  | case3 values hshort =>
    refine ⟨?_, by simp⟩
    cases values with
    | nil => simp
    | cons a rest =>
      cases rest with
      | nil => simp
      | cons b rest => exact absurd rfl (hshort a b rest)

/-- Sorting forgets the order in which words come. -/
theorem sortByKey_eq_of_perm {other : List Int32} (hperm : other.Perm values) :
    sortByKey Int32.toInt other = sortByKey Int32.toInt values := by
  have hsorted : (sortByKey Int32.toInt other).Perm (sortByKey Int32.toInt values) :=
    ((perm_sortByKey _ other).trans hperm).trans (perm_sortByKey _ values).symm
  refine hsorted.eq_of_pairwise ?_ (pairwise_sortByKey _ other) (pairwise_sortByKey _ values)
  intro a b _ _ hle hge
  exact Int32.toInt_inj.mp (Int.le_antisymm hle hge)

end Repetitions

namespace Space

variable {space : Space} {name : String} {tokens rest : List String} {values : List Int32}

/-! ## Values -/

/-- Tokens spell the integers that words stand for, one by one. -/
def SpellAll (tokens : List String) (values : List Int32) : Prop :=
  List.Forall₂ (fun token value => Text.Spells token value.toInt) tokens values

theorem mutatorValue_eq_ok_iff {token : String} {value : Int32} :
    mutatorValue token = .ok value ↔ Text.Spells token value.toInt := by
  rw [← Text.int32?_eq_some_iff, mutatorValue]
  split <;> simp_all

theorem mapM_mutatorValue_eq_ok_iff :
    tokens.mapM mutatorValue = .ok values ↔ SpellAll tokens values := by
  constructor
  · intro hvalues
    refine (forall₂_of_mapM_eq_ok hvalues).imp ?_
    intro token value hvalue
    exact mutatorValue_eq_ok_iff.mp hvalue
  · intro hspell
    induction hspell with
    | nil => rfl
    | cons hfirst _ ih =>
      rw [List.mapM_cons, mutatorValue_eq_ok_iff.mpr hfirst, ih]
      rfl

/-- There is one complaint only about tokens that are no integers. -/
theorem eq_of_mapM_mutatorValue_eq_error {complaint : Complaint}
    (hvalues : tokens.mapM mutatorValue = .error complaint) :
    complaint = .malformed .mutatorValueNotInteger := by
  induction tokens with
  | nil => cases hvalues
  | cons token tokens ih =>
    rw [List.mapM_cons] at hvalues
    cases hvalue : mutatorValue token with
    | error other =>
      rw [hvalue] at hvalues
      cases hvalues
      rw [mutatorValue] at hvalue
      split at hvalue
      · cases hvalue
      · exact (Except.error.inj hvalue).symm
    | ok value =>
      cases hlater : tokens.mapM mutatorValue with
      | error other =>
        rw [hvalue, hlater] at hvalues
        cases hvalues
        exact ih hlater
      | ok others =>
        rw [hvalue, hlater] at hvalues
        cases hvalues

theorem mutatorOfValues_eq_of_perm {other : List Int32} (hperm : other.Perm values) :
    mutatorOfValues name other = mutatorOfValues name values := by
  rw [mutatorOfValues, mutatorOfValues, hperm.length_eq, sortByKey_eq_of_perm hperm]

theorem mutatorOfValues_eq_ok_iff {mutator : Mutator} :
    mutatorOfValues name values = .ok mutator ↔
      2 ≤ values.length ∧ values.Nodup ∧ mutator = ⟨name, sortByKey Int32.toInt values⟩ := by
  obtain ⟨hnone, -⟩ := firstRepeated?_of_sorted (pairwise_sortByKey Int32.toInt values)
  rw [(perm_sortByKey Int32.toInt values).nodup_iff] at hnone
  rw [mutatorOfValues]
  split
  · next hfew => simp [Nat.not_le.mpr hfew]
  · next hseveral =>
    dsimp only
    split
    · next hrepeated => simp [← hnone, hrepeated]
    · next hdistinct => simp [hnone.mp hdistinct, Nat.not_lt.mp hseveral, eq_comm]

/-- Of values that are repeated the least one is complained about. -/
theorem exists_mutatorOfValues_eq_error (hrepeated : ¬ values.Nodup) :
    ∃ value, mutatorOfValues name values = .error (.duplicateMutatorValue name value) ∧
      IsLeast {repeated | List.Duplicate repeated values} value := by
  have hperm := perm_sortByKey Int32.toInt values
  obtain ⟨hnone, hleast⟩ := firstRepeated?_of_sorted (pairwise_sortByKey Int32.toInt values)
  simp only [hperm.nodup_iff, List.duplicate_iff_two_le_count, hperm.count_eq] at hnone hleast
  obtain ⟨value, hvalue⟩ := Option.ne_none_iff_exists'.mp (mt hnone.mp hrepeated)
  have hseveral : ¬ values.length < 2 := by
    intro hfew
    have htwo : 2 ≤ values.count value := (hleast value hvalue).1
    have hall : values.count value ≤ values.length := List.count_le_length
    omega
  refine ⟨value, ?_, by simpa only [List.duplicate_iff_two_le_count] using hleast value hvalue⟩
  rw [mutatorOfValues, if_neg hseveral]
  simp only [hvalue]

/-! ## Declarations -/

/-- A name that can be given to one more mutator. The last condition is about the space alone, but
it is checked with the name. -/
structure TakesName (space : Space) (name : String) : Prop where
  identifier : Text.isIdentifier name = true
  short : name.utf8ByteSize ≤ maxNameLength
  fresh : ∀ mutator ∈ space.mutators, mutator.name ≠ name
  room : space.mutators.length < maxMutators

theorem WellFormed.takesName_iff (hspace : space.WellFormed) :
    space.TakesName name ↔ space.nameComplaint? name = none := by
  have hfresh : space.mutatorIndex? name = none ↔ ∀ mutator ∈ space.mutators,
      mutator.name ≠ name := by
    simp [mutatorIndex?]
  constructor
  · intro htakes
    rw [nameComplaint?, Text.opensComment_of_isIdentifier htakes.identifier,
      hfresh.mpr htakes.fresh, htakes.identifier, if_neg (by decide), if_neg (by decide),
      if_neg (Nat.not_lt.mpr htakes.short), if_neg (by decide), if_neg (Nat.ne_of_lt htakes.room)]
  · intro hname
    obtain ⟨hindex, hshort, hidentifier, hroom⟩ := of_nameComplaint? hname
    exact ⟨hidentifier, hshort, hfresh.mp hindex, Nat.lt_of_le_of_ne hspace.length_le hroom⟩

theorem WellFormed.mutatorOf_cons (hspace : space.WellFormed) (htakes : space.TakesName name)
    (hspell : SpellAll (Text.beforeComment rest) values) :
    space.mutatorOf (name :: rest) = mutatorOfValues name values := by
  rw [mutatorOf, hspace.takesName_iff.mp htakes, mapM_mutatorValue_eq_ok_iff.mpr hspell]
  rfl

/-- The tokens of a declaration that is accepted. -/
theorem WellFormed.of_mutatorOf_eq_ok (hspace : space.WellFormed) {args : List String}
    {mutator : Mutator} (hmutator : space.mutatorOf args = .ok mutator) :
    ∃ name rest values, args = name :: rest ∧ space.TakesName name ∧
      SpellAll (Text.beforeComment rest) values ∧ mutatorOfValues name values = .ok mutator := by
  cases args with
  | nil => cases hmutator
  | cons name rest =>
    rw [mutatorOf] at hmutator
    split at hmutator
    · cases hmutator
    · next hname =>
      obtain ⟨values, hvalues, hmutator⟩ := exists_of_bind_eq_ok hmutator
      exact ⟨name, rest, values, rfl, hspace.takesName_iff.mpr hname,
        mapM_mutatorValue_eq_ok_iff.mp hvalues, hmutator⟩

/-- The order of the values plays no part, not even for a complaint. -/
theorem mutatorOf_eq_of_perm {other : List String}
    (hperm : (Text.beforeComment other).Perm (Text.beforeComment rest)) :
    space.mutatorOf (name :: other) = space.mutatorOf (name :: rest) := by
  rw [mutatorOf, mutatorOf]
  split
  · rfl
  · cases hvalues : (Text.beforeComment rest).mapM mutatorValue with
    | ok values =>
      obtain ⟨otherValues, hspell, hpermValues⟩ :=
        List.perm_comp_forall₂ hperm (mapM_mutatorValue_eq_ok_iff.mp hvalues)
      rw [mapM_mutatorValue_eq_ok_iff.mpr hspell]
      exact mutatorOfValues_eq_of_perm hpermValues
    | error complaint =>
      cases hother : (Text.beforeComment other).mapM mutatorValue with
      | ok otherValues =>
        obtain ⟨values, hspell, -⟩ :=
          List.perm_comp_forall₂ hperm.symm (mapM_mutatorValue_eq_ok_iff.mp hother)
        cases hvalues.symm.trans (mapM_mutatorValue_eq_ok_iff.mpr hspell)
      | error otherComplaint =>
        rw [eq_of_mapM_mutatorValue_eq_error hvalues, eq_of_mapM_mutatorValue_eq_error hother]

/-- How a space takes declarations of mutators: which of them it accepts, what it makes of them, and
which values it complains about. -/
structure DeclaresMutators (space : Space) : Prop where
  accepts_iff : ∀ args, (∃ next, space.declare (.mutator args) = .ok next) ↔
    ∃ name rest values, args = name :: rest ∧ space.TakesName name ∧
      SpellAll (Text.beforeComment rest) values ∧ 2 ≤ values.length ∧ values.Nodup
  /-- The mutator comes behind the ones that are there, with its values in increasing order, and
  nothing else is changed. -/
  adds : ∀ name rest values next, SpellAll (Text.beforeComment rest) values →
    space.declare (.mutator (name :: rest)) = .ok next →
      ∃ increasing, next = { space with mutators := space.mutators ++ [⟨name, increasing⟩] } ∧
        increasing.Perm values ∧ increasing.Pairwise (· < ·)
  /-- The order of the values plays no part. -/
  perm : ∀ name rest other, (Text.beforeComment other).Perm (Text.beforeComment rest) →
    space.declare (.mutator (name :: other)) = space.declare (.mutator (name :: rest))
  /-- Of values that are repeated the least one is named. -/
  repeated : ∀ name rest values, space.TakesName name →
    SpellAll (Text.beforeComment rest) values → ¬ values.Nodup →
      ∃ value, space.declare (.mutator (name :: rest)) =
          .error (.duplicateMutatorValue name value) ∧
        IsLeast {repeated | List.Duplicate repeated values} value

end Space

/-- In every space that was made by declarations, a mutator is accepted exactly if its name is a
short identifier that is not taken, there are fewer than 64 mutators, and the tokens in front of a
comment spell at least two integers of 32 bits, which are different. They are stored in increasing
order, whatever their order in the declaration. If all is well except that integers are repeated,
then the least one of them is complained about. -/
theorem declaresMutators_of_declareAll {declarations : List Declaration} {space : Space}
    (hdeclared : ({} : Space).declareAll declarations = .ok space) : space.DeclaresMutators := by
  have hspace : space.WellFormed := Space.wellFormed_empty.declareAll hdeclared
  refine ⟨?_, ?_, ?_, ?_⟩
  · intro args
    constructor
    · rintro ⟨next, hnext⟩
      obtain ⟨mutator, hmutator, -⟩ := exists_of_map_eq_ok hnext
      obtain ⟨name, rest, values, rfl, htakes, hspell, hvalues⟩ :=
        hspace.of_mutatorOf_eq_ok hmutator
      obtain ⟨hseveral, hnodup, -⟩ := Space.mutatorOfValues_eq_ok_iff.mp hvalues
      exact ⟨name, rest, values, rfl, htakes, hspell, hseveral, hnodup⟩
    · rintro ⟨name, rest, values, rfl, htakes, hspell, hseveral, hnodup⟩
      have hmutator := hspace.mutatorOf_cons htakes hspell
      rw [Space.mutatorOfValues_eq_ok_iff.mpr ⟨hseveral, hnodup, rfl⟩] at hmutator
      exact ⟨_, congrArg (Except.map space.addMutator) hmutator⟩
  · intro name rest values next hspell hnext
    obtain ⟨mutator, hmutator, rfl⟩ := exists_of_map_eq_ok hnext
    obtain ⟨_, _, others, hargs, -, hothers, hvalues⟩ := hspace.of_mutatorOf_eq_ok hmutator
    cases hargs
    have hsame : others = values := by
      have hmap := Space.mapM_mutatorValue_eq_ok_iff.mpr hspell
      rw [Space.mapM_mutatorValue_eq_ok_iff.mpr hothers] at hmap
      exact Except.ok.inj hmap
    subst hsame
    obtain ⟨-, hnodup, rfl⟩ := Space.mutatorOfValues_eq_ok_iff.mp hvalues
    refine ⟨_, rfl, perm_sortByKey _ _, ?_⟩
    exact (Space.of_mutatorOf hmutator).2.2.increasing
  · intro name rest other hperm
    exact congrArg (Except.map space.addMutator) (Space.mutatorOf_eq_of_perm hperm)
  · intro name rest values htakes hspell hrepeated
    obtain ⟨value, herror, hleast⟩ := Space.exists_mutatorOfValues_eq_error hrepeated
    refine ⟨value, ?_, hleast⟩
    exact congrArg (Except.map space.addMutator)
      ((hspace.mutatorOf_cons htakes hspell).trans herror)

/-- One mutator, whose values are not declared in order. -/
def mutatorOfThree : List Declaration :=
  [.mutator ["B", "3", "-1", "2"]]

/-- What follows a comment counts for nothing, and one integer in several spellings is repeated. -/
theorem declaresMutators_mutatorOfThree :
    ∃ space, ({} : Space).declareAll mutatorOfThree = .ok space ∧
      (space.declare (.mutator ["A", "2", "+1", "-05", "/*", "2"])).toOption =
        some { space with mutators := space.mutators ++ [⟨"A", [-5, 1, 2]⟩] } ∧
      space.declare (.mutator ["A", "7", "01", "7", "+1", "1"]) =
        .error (.duplicateMutatorValue "A" 1) ∧
      space.DeclaresMutators := by
  have hcheck : (({} : Space).declareAll mutatorOfThree).toOption.any (fun space => decide
      ((space.declare (.mutator ["A", "2", "+1", "-05", "/*", "2"])).toOption =
        some { space with mutators := space.mutators ++ [⟨"A", [-5, 1, 2]⟩] } ∧
      space.declare (.mutator ["A", "7", "01", "7", "+1", "1"]) =
        .error (.duplicateMutatorValue "A" 1))) = true := by
    decide +kernel
  obtain ⟨space, hspace, hfacts⟩ := (Option.any_eq_true ..).mp hcheck
  obtain ⟨haccepted, hrefused⟩ := of_decide_eq_true hfacts
  have hdeclared := eq_ok_of_toOption hspace
  exact ⟨space, hdeclared, haccepted, hrefused, declaresMutators_of_declareAll hdeclared⟩

end Ubershader
