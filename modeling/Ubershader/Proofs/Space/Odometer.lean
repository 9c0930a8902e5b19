import Mathlib.Algebra.BigOperators.Group.List.Basic
import Mathlib.Data.List.Induction
import Ubershader.Proofs.Checked
import Ubershader.Proofs.Space.Declarations
import Ubershader.Proofs.Space.Product

/-!
# Enumerating a space with dials

The mutations of a space can be gone through without numbering them. Every mutator has a dial that
points at one of its values. To go on, the last dial is turned; a dial that has come round goes
back to its first value and the dial in front of it is turned, and when the first dial has come
round the enumeration is over.

The dials show the digits of the rank of a mutation, so turning them adds one to the rank. What
comes out is what the ranks give: all valid mutations, in lexicographic order. Likewise, a count of
mutations that is multiplied up in words of 64 bits overflows exactly if the number of mutations
does not fit in a word, because no mutator makes a product smaller.
-/

namespace Ubershader

/-- A dial for each mutator, which points at one of its values, and whether all have come round.
The dials go on from one mutation to the next without any rank. -/
structure Odometer where
  dials : List Nat
  done : Bool := false
deriving DecidableEq, Repr

namespace Odometer

/-- Every dial points at the first value of its mutator. -/
def start (space : Space) : Odometer where
  dials := List.replicate space.mutators.length 0

def shown : List Mutator → (dials : List Nat) → Checked Mutation
  | mutator :: mutators, dial :: dials => do
    let value ← Checked.element mutator.values dial
    let rest ← shown mutators dials
    return value :: rest
  | _, _ => .ok []

/-- Turn the last one of the first dials. If it comes round, turn the one in front of it too. -/
def turn (mutators : List Mutator) : (places : Nat) → (dials : List Nat) → Checked Odometer
  | 0, dials => .ok ⟨dials, true⟩
  | place + 1, dials => do
    let dial ← Checked.element dials place
    let mutator ← Checked.element mutators place
    if dial + 1 < mutator.values.length then
      let dials ← Checked.replace dials place (dial + 1)
      return ⟨dials, false⟩
    else
      let dials ← Checked.replace dials place 0
      turn mutators place dials

/-- The mutation that the dials show, and the dials after they have been turned. -/
def next (odometer : Odometer) (space : Space) : Checked (Option Mutation × Odometer) :=
  if odometer.done then .ok (none, odometer)
  else do
    let mutation ← shown space.mutators odometer.dials
    let after ← turn space.mutators odometer.dials.length odometer.dials
    return (some mutation, after)

def take (odometer : Odometer) (space : Space) : (count : Nat) → Checked (List (Option Mutation))
  | 0 => .ok []
  | count + 1 => do
    let (mutation, after) ← odometer.next space
    let mutations ← after.take space count
    return mutation :: mutations

end Odometer

namespace Space

variable {space : Space} {mutators : List Mutator} {mutation : Mutation} {rank : Nat}

/-! ## Dials and ranks -/

/-- The positions of the values of the combination with a given rank. -/
def digits : List Mutator → (rank : Nat) → List Nat
  | [], _ => []
  | _ :: mutators, rank =>
    rank / combinations mutators :: digits mutators (rank % combinations mutators)

@[simp] theorem length_digits (mutators : List Mutator) (rank : Nat) :
    (digits mutators rank).length = mutators.length := by
  induction mutators generalizing rank with
  | nil => rfl
  | cons mutator mutators ih => simp [digits, ih]

theorem digits_zero (mutators : List Mutator) :
    digits mutators 0 = List.replicate mutators.length 0 := by
  induction mutators with
  | nil => rfl
  | cons mutator mutators ih => simp [digits, ih, List.replicate_succ]

/-- Dials at the digits of a rank show the mutation of that rank. -/
theorem shown_digits (hrank : combinationAt? mutators rank = some mutation) :
    Odometer.shown mutators (digits mutators rank) = .ok mutation := by
  induction mutators generalizing rank mutation with
  | nil =>
    rw [combinationAt?] at hrank
    split at hrank
    · cases hrank
      rfl
    · cases hrank
  | cons mutator mutators ih =>
    obtain ⟨value, rest, hvalue, hrest, rfl⟩ := combinationAt?_cons_eq_some_iff.mp hrank
    rw [digits, Odometer.shown, Checked.element_eq_ok hvalue, ih hrest]
    rfl

theorem combinations_concat (mutators : List Mutator) (mutator : Mutator) :
    combinations (mutators ++ [mutator]) = combinations mutators * mutator.values.length := by
  induction mutators with
  | nil => simp
  | cons first mutators ih =>
    rw [List.cons_append, combinations_cons, ih, combinations_cons, Nat.mul_assoc]

/-- The last dial shows the remainder, and the others the digits of the quotient. -/
theorem digits_concat {mutators : List Mutator} {mutator : Mutator} {rank : Nat}
    (hrank : rank < combinations mutators * mutator.values.length) :
    digits (mutators ++ [mutator]) rank =
      digits mutators (rank / mutator.values.length) ++ [rank % mutator.values.length] := by
  induction mutators generalizing rank with
  | nil =>
    rw [combinations_nil, Nat.one_mul] at hrank
    simp [digits, Nat.mod_eq_of_lt hrank]
  | cons first mutators ih =>
    rw [combinations_cons, Nat.mul_assoc] at hrank
    have hpos : 0 < combinations mutators * mutator.values.length := by
      refine Nat.pos_of_ne_zero fun hzero => ?_
      rw [hzero, Nat.mul_zero] at hrank
      omega
    rw [List.cons_append, digits, digits, combinations_concat, ih (Nat.mod_lt rank hpos),
      List.cons_append, Nat.mod_mul_left_div_self, Nat.mod_mul_left_mod, Nat.div_div_eq_div_mul,
      Nat.mul_comm (combinations mutators)]

private theorem succ_div_mod_of_lt {size : Nat} (hdigit : rank % size + 1 < size) :
    (rank + 1) / size = rank / size ∧ (rank + 1) % size = rank % size + 1 := by
  have hsucc : rank + 1 = size * (rank / size) + (rank % size + 1) := by
    rw [← Nat.add_assoc, Nat.div_add_mod]
  rw [hsucc, Nat.mul_add_div (by omega), Nat.div_eq_of_lt hdigit, Nat.mul_add_mod,
    Nat.mod_eq_of_lt hdigit]
  exact ⟨rfl, rfl⟩

private theorem succ_div_mod_of_le {size : Nat} (hsize : 0 < size)
    (hdigit : size ≤ rank % size + 1) :
    (rank + 1) / size = rank / size + 1 ∧ (rank + 1) % size = 0 := by
  have hlast : rank % size + 1 = size := by
    have := Nat.mod_lt rank hsize
    omega
  have hsucc : rank + 1 = size * (rank / size + 1) := by
    rw [Nat.mul_add, Nat.mul_one]
    have := Nat.div_add_mod rank size
    omega
  rw [hsucc, Nat.mul_div_cancel_left _ hsize, Nat.mul_mod_right]
  exact ⟨rfl, rfl⟩

/-- A dial is turned by one value, or goes back to its first value and passes the turn on. -/
theorem turn_concat {front : List Mutator} {dials : List Nat} (hdials : dials.length = front.length)
    (mutator : Mutator) (back : List Mutator) (dial : Nat) (tail : List Nat) :
    Odometer.turn (front ++ mutator :: back) (front.length + 1) (dials ++ dial :: tail) =
      if dial + 1 < mutator.values.length then .ok ⟨dials ++ (dial + 1) :: tail, false⟩
      else Odometer.turn (front ++ mutator :: back) front.length (dials ++ 0 :: tail) := by
  have hdial : (dials ++ dial :: tail)[front.length]? = some dial := by simp [← hdials]
  have hmutator : (front ++ mutator :: back)[front.length]? = some mutator := by simp
  have hreplace : ∀ turned, Checked.replace (dials ++ dial :: tail) front.length turned =
      .ok (dials ++ turned :: tail) := by
    intro turned
    rw [Checked.replace_eq_ok (by simp [← hdials])]
    simp [← hdials]
  rw [Odometer.turn, Checked.element_eq_ok hdial, Checked.element_eq_ok hmutator]
  simp only [Checked.ok_bind, hreplace, Checked.pure_eq]

/-- Turning the first dials adds one to their rank, or brings all of them round. -/
theorem turn_digits {front : List Mutator} (back : List Mutator) (tail : List Nat)
    (hrank : rank < combinations front) :
    Odometer.turn (front ++ back) front.length (digits front rank ++ tail) =
      .ok (if rank + 1 < combinations front then ⟨digits front (rank + 1) ++ tail, false⟩
        else ⟨List.replicate front.length 0 ++ tail, true⟩) := by
  induction front using List.reverseRecOn generalizing rank back tail with
  | nil =>
    rw [combinations_nil] at hrank ⊢
    rw [if_neg (by omega)]
    rfl
  | append_singleton front mutator ih =>
    rw [combinations_concat] at hrank ⊢
    have hsize : 0 < mutator.values.length := by
      refine Nat.pos_of_ne_zero fun hzero => ?_
      rw [hzero, Nat.mul_zero] at hrank
      omega
    have hquotient : rank / mutator.values.length < combinations front :=
      (Nat.div_lt_iff_lt_mul hsize).mpr hrank
    have hconcat : ∀ {other}, other / mutator.values.length < combinations front →
        digits (front ++ [mutator]) other ++ tail =
          digits front (other / mutator.values.length) ++
            other % mutator.values.length :: tail := by
      intro other hother
      rw [digits_concat ((Nat.div_lt_iff_lt_mul hsize).mp hother), List.append_assoc,
        List.singleton_append]
    rw [hconcat hquotient, List.append_assoc, List.singleton_append, List.length_append,
      List.length_singleton, turn_concat (length_digits ..), ih (mutator :: back) _ hquotient]
    simp only [← Nat.div_lt_iff_lt_mul hsize]
    by_cases hdigit : rank % mutator.values.length + 1 < mutator.values.length
    · obtain ⟨hdiv, hmod⟩ := succ_div_mod_of_lt hdigit
      rw [if_pos hdigit, hdiv, if_pos hquotient, hconcat (hdiv ▸ hquotient), hdiv, hmod]
    · -- The dial has come round, and one is carried on to the quotient.
      obtain ⟨hdiv, hmod⟩ := succ_div_mod_of_le hsize (Nat.not_lt.mp hdigit)
      rw [if_neg hdigit, hdiv]
      by_cases hmore : rank / mutator.values.length + 1 < combinations front
      · rw [if_pos hmore, if_pos hmore, hconcat (hdiv ▸ hmore), hdiv, hmod]
      · rw [if_neg hmore, if_neg hmore, List.replicate_succ', List.append_assoc,
          List.singleton_append]

end Space

namespace Odometer

variable {space : Space} {odometer : Odometer} {cursor : Cursor}

/-- The dials show the digits of the rank of a cursor, or both have come to the end. -/
inductive Follows (space : Space) : Odometer → Cursor → Prop
  | digits {rank : Nat} (hrank : rank < space.size) :
      Follows space ⟨Space.digits space.mutators rank, false⟩ ⟨rank⟩
  | done (dials : List Nat) : Follows space ⟨dials, true⟩ ⟨space.size⟩

theorem follows_start (hsize : 0 < space.size) : Follows space (start space) {} := by
  rw [start, ← Space.digits_zero]
  exact .digits hsize

/-- Both give the same mutation, and go on together. -/
theorem Follows.exists_next (hfollows : Follows space odometer cursor) :
    ∃ after, odometer.next space = .ok ((cursor.next space).1, after) ∧
      Follows space after (cursor.next space).2 := by
  cases hfollows with
  | @digits rank hrank =>
    obtain ⟨mutation, hmutation⟩ :=
      Option.isSome_iff_exists.mp (Space.isSome_combinationAt?_iff.mpr hrank)
    have hturn := Space.turn_digits [] [] hrank
    rw [List.append_nil, List.append_nil] at hturn
    have hcursor : (⟨rank⟩ : Cursor).next space = (some mutation, ⟨rank + 1⟩) := by
      rw [Cursor.next, Space.mutationAt?, hmutation]
    rw [hcursor, next, Space.shown_digits hmutation, Space.length_digits, hturn]
    refine ⟨_, rfl, ?_⟩
    split
    · next hmore =>
      rw [List.append_nil]
      exact .digits hmore
    · next hend =>
      have hsize : rank + 1 = space.size := by
        rw [Space.size] at hrank ⊢
        omega
      rw [hsize]
      exact .done _
  | done dials =>
    have hnone : space.mutationAt? space.size = none := by
      rw [← Option.not_isSome_iff_eq_none, Space.mutationAt?, Space.isSome_combinationAt?_iff]
      exact Nat.lt_irrefl _
    have hcursor : (⟨space.size⟩ : Cursor).next space = (none, ⟨space.size⟩) := by
      rw [Cursor.next, hnone]
    rw [hcursor]
    exact ⟨_, rfl, .done dials⟩

theorem Follows.take_eq (hfollows : Follows space odometer cursor) (count : Nat) :
    odometer.take space count = .ok (cursor.take space count).1 := by
  induction count generalizing odometer cursor with
  | zero => rfl
  | succ count ih =>
    obtain ⟨after, hnext, hafter⟩ := hfollows.exists_next
    rw [take, hnext, Checked.ok_bind]
    dsimp only
    rw [ih hafter]
    rfl

end Odometer

namespace Space

variable {space : Space} {mutators : List Mutator}

/-! ## The order of the mutations -/

/-- Mutations are in lexicographic order if their ranks are. -/
theorem combinationAt?_lt (hmutators : ∀ mutator ∈ mutators, mutator.WellFormed) {rank other : Nat}
    (hlt : rank < other) {mutation later : Mutation}
    (hrank : combinationAt? mutators rank = some mutation)
    (hother : combinationAt? mutators other = some later) : mutation < later := by
  induction mutators generalizing rank other mutation later with
  | nil =>
    have hlast : other < 1 := isSome_combinationAt?_iff.mp (by rw [hother]; rfl)
    omega
  | cons mutator mutators ih =>
    obtain ⟨hfirst, hlater⟩ := List.forall_mem_cons.mp hmutators
    obtain ⟨value, rest, hvalue, hrest, rfl⟩ := combinationAt?_cons_eq_some_iff.mp hrank
    obtain ⟨laterValue, laterRest, hlaterValue, hlaterRest, rfl⟩ :=
      combinationAt?_cons_eq_some_iff.mp hother
    rw [List.cons_lt_cons_iff]
    have hle : rank / combinations mutators ≤ other / combinations mutators :=
      Nat.div_le_div_right (Nat.le_of_lt hlt)
    obtain hdiv | hdiv := Nat.lt_or_eq_of_le hle
    · obtain ⟨hbound, rfl⟩ := List.getElem?_eq_some_iff.mp hvalue
      obtain ⟨hlaterBound, rfl⟩ := List.getElem?_eq_some_iff.mp hlaterValue
      exact .inl (List.pairwise_iff_getElem.mp hfirst.increasing _ _ hbound hlaterBound hdiv)
    · rw [hdiv, hlaterValue] at hvalue
      refine .inr ⟨(Option.some.inj hvalue).symm, ih hlater ?_ hrest hlaterRest⟩
      have hsame := Nat.div_add_mod rank (combinations mutators)
      have hlaterSum := Nat.div_add_mod other (combinations mutators)
      rw [hdiv] at hsame
      omega

theorem pairwise_lt_mutations (hspace : space.WellFormed) :
    space.mutations.Pairwise (· < ·) := by
  refine List.pairwise_filterMap.mpr (List.pairwise_lt_range.imp ?_)
  intro rank other hlt mutation hrank later hother
  exact combinationAt?_lt hspace.mutators hlt hrank hother

/-! ## The number of mutations -/

theorem combinations_eq_prod (mutators : List Mutator) :
    combinations mutators = (mutators.map fun mutator => mutator.values.length).prod := by
  induction mutators with
  | nil => rfl
  | cons mutator mutators ih => rw [combinations_cons, ih, List.map_cons, List.prod_cons]

theorem combinations_pos (hmutators : ∀ mutator ∈ mutators, mutator.WellFormed) :
    0 < combinations mutators := by
  induction mutators with
  | nil => exact Nat.one_pos
  | cons mutator mutators ih =>
    obtain ⟨hfirst, hlater⟩ := List.forall_mem_cons.mp hmutators
    have := hfirst.several
    exact Nat.mul_pos (by omega) (ih hlater)

def checkedMul (left right : UInt64) : Option UInt64 :=
  if left.toNat * right.toNat < UInt64.size then some (left * right) else none

/-- Multiply a count by the number of values of one mutator after the other, in words. -/
def countFrom (count : UInt64) (mutators : List Mutator) : Option UInt64 :=
  mutators.foldlM (fun count mutator => checkedMul count (UInt64.ofNat mutator.values.length)) count

/-- A mutator has no more values than there are words of 32 bits. -/
theorem length_values_lt {mutator : Mutator} (hmutator : mutator.WellFormed) :
    mutator.values.length < UInt64.size := by
  have hnodup : (mutator.values.map fun value => value.toBitVec.toNat).Nodup := by
    refine List.pairwise_map.mpr (hmutator.increasing.imp ?_)
    intro a b hlt hsame
    rw [Int32.toBitVec_inj.mp (BitVec.toNat_inj.mp hsame)] at hlt
    exact Int32.lt_irrefl hlt
  have hsubset : (mutator.values.map fun value => value.toBitVec.toNat) ⊆
      List.range (2 ^ 32) := by
    intro number hnumber
    obtain ⟨value, -, rfl⟩ := List.mem_map.mp hnumber
    exact List.mem_range.mpr value.toBitVec.isLt
  have hlength := hnodup.length_le_of_subset hsubset
  rw [List.length_map, List.length_range] at hlength
  exact Nat.lt_of_le_of_lt hlength (by decide)

/-- A count overflows on the way exactly if the whole product does not fit in a word. -/
theorem countFrom_eq (hmutators : ∀ mutator ∈ mutators, mutator.WellFormed) (count : UInt64) :
    countFrom count mutators =
      if count.toNat * combinations mutators < UInt64.size then
        some (UInt64.ofNat (count.toNat * combinations mutators))
      else none := by
  induction mutators generalizing count with
  | nil =>
    rw [combinations_nil, Nat.mul_one, if_pos count.toNat_lt_size, UInt64.ofNat_toNat]
    rfl
  | cons mutator mutators ih =>
    obtain ⟨hfirst, hlater⟩ := List.forall_mem_cons.mp hmutators
    have hpos := combinations_pos hlater
    have hword : (UInt64.ofNat mutator.values.length).toNat = mutator.values.length :=
      UInt64.toNat_ofNat_of_lt' (length_values_lt hfirst)
    rw [countFrom, List.foldlM_cons, checkedMul, hword, combinations_cons, ← Nat.mul_assoc]
    by_cases hfits : count.toNat * mutator.values.length < UInt64.size
    · have hproduct : (count * UInt64.ofNat mutator.values.length).toNat =
          count.toNat * mutator.values.length := by
        rw [UInt64.toNat_mul, hword]
        exact Nat.mod_eq_of_lt hfits
      rw [if_pos hfits, ← hproduct, ← ih hlater]
      rfl
    · -- What is still to come is not zero, so it cannot make the product fit again.
      have hlarge : ¬count.toNat * mutator.values.length * combinations mutators <
          UInt64.size := by
        have hle := Nat.le_mul_of_pos_right (count.toNat * mutator.values.length) hpos
        omega
      rw [if_neg hfits, if_neg hlarge]
      rfl

/-- Asking for one mutation after the other goes through the product of the values of all
mutators. -/
structure EnumeratesProduct (space : Space) : Prop where
  /-- The mutations come in order, and after them nothing comes forever. -/
  take_eq : ∀ count,
    (({} : Cursor).take space (space.mutations.length + count)).1 =
      space.mutations.map some ++ List.replicate count none
  /-- Dials give the same, and are never turned past the values of their mutators. -/
  take_start : ∀ count,
    (Odometer.start space).take space count = .ok (({} : Cursor).take space count).1
  mem_iff : ∀ mutation, mutation ∈ space.mutations ↔ space.isValid mutation = true
  nodup : space.mutations.Nodup
  increasing : space.mutations.Pairwise (· < ·)
  length_eq : space.mutations.length =
    (space.mutators.map fun mutator => mutator.values.length).prod
  mutationCount?_eq : space.mutationCount? =
    if (space.mutators.map fun mutator => mutator.values.length).prod < 2 ^ 64 then
      some (UInt64.ofNat (space.mutators.map fun mutator => mutator.values.length).prod)
    else none
  /-- Multiplying in words gives the same count, and fails where there is none. -/
  countFrom_eq : countFrom 1 space.mutators = space.mutationCount?

end Space

/-- The enumeration of a space that was made by declarations is the product of the values of its
mutators: every valid mutation comes once, in lexicographic order, and their number is the product
of the numbers of values, which is counted if it fits in a word. -/
theorem enumeratesProduct_of_declareAll {declarations : List Declaration} {space : Space}
    (hdeclared : ({} : Space).declareAll declarations = .ok space) :
    space.EnumeratesProduct := by
  have hspace : space.WellFormed := Space.wellFormed_empty.declareAll hdeclared
  have hsize : space.size = (space.mutators.map fun mutator => mutator.values.length).prod :=
    Space.combinations_eq_prod space.mutators
  have hfollows := Odometer.follows_start (Space.combinations_pos hspace.mutators)
  refine ⟨space.take_mutations, hfollows.take_eq, fun _ => Space.mem_mutations_iff,
    Space.nodup_mutations hspace, Space.pairwise_lt_mutations hspace, ?_, ?_, ?_⟩
  · rw [← hsize]
    simpa using congrArg List.length space.map_some_mutations
  · rw [← hsize]
    rfl
  · rw [Space.countFrom_eq hspace.mutators, UInt64.toNat_one, Nat.one_mul]
    rfl

/-- Two mutators of different sizes, with a rule between them. -/
def dialsOfTwoSizes : List Declaration :=
  [.mutator ["A", "1", "0"], .skip ["A", "0", "A", "0"], .mutator ["B", "7", "5", "-6"]]

theorem enumeratesProduct_dialsOfTwoSizes :
    ∃ space, ({} : Space).declareAll dialsOfTwoSizes = .ok space ∧
      space.mutations = [[0, -6], [0, 5], [0, 7], [1, -6], [1, 5], [1, 7]] ∧
      space.EnumeratesProduct := by
  have hcheck : (({} : Space).declareAll dialsOfTwoSizes).toOption.any (fun space =>
      decide (space.mutations = [[0, -6], [0, 5], [0, 7], [1, -6], [1, 5], [1, 7]])) = true := by
    decide +kernel
  obtain ⟨space, hspace, hfacts⟩ := (Option.any_eq_true ..).mp hcheck
  have hdeclared := eq_ok_of_toOption hspace
  exact ⟨space, hdeclared, of_decide_eq_true hfacts, enumeratesProduct_of_declareAll hdeclared⟩

end Ubershader
