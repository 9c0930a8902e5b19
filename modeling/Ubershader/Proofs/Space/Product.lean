import Mathlib.Data.List.Nodup
import Ubershader.Proofs.Space.WellFormed
import Ubershader.Space.Enumeration

/-!
# The mutations of a space

Ranks and valid mutations correspond to one another: what has a rank is valid, and every valid
mutation has exactly one rank, which is below the size of the space. So going through the ranks
meets every valid mutation once, and so does asking for one mutation after the other.
-/

namespace Ubershader.Space

variable {mutators : List Mutator} {mutation : Mutation}

theorem admits_iff_legal : admits mutators mutation = true ↔
    mutation.length = mutators.length ∧
      ∀ (index : Nat) (value : Int32), mutation[index]? = some value →
        Legal mutators index value := by
  induction mutators generalizing mutation with
  | nil => cases mutation <;> simp [admits]
  | cons mutator mutators ih =>
    cases mutation with
    | nil => simp [admits]
    | cons value mutation =>
      rw [admits, Bool.and_eq_true, ih, List.length_cons, List.length_cons, Nat.succ_inj]
      constructor
      · rintro ⟨hvalue, hlength, hlegal⟩
        refine ⟨hlength, fun index other hother => ?_⟩
        cases index with
        | zero =>
          cases hother
          exact ⟨mutator, rfl, hvalue⟩
        | succ index => exact hlegal index other hother
      · rintro ⟨hlength, hlegal⟩
        obtain ⟨first, hfirst, hvalue⟩ := hlegal 0 value rfl
        cases hfirst
        exact ⟨hvalue, hlength, fun index other hother => hlegal (index + 1) other hother⟩

/-! ## Ranks -/

theorem combinationAt?_cons_eq_some_iff {mutator : Mutator} {rank : Nat} :
    combinationAt? (mutator :: mutators) rank = some mutation ↔
      ∃ value rest, mutator.values[rank / combinations mutators]? = some value ∧
        combinationAt? mutators (rank % combinations mutators) = some rest ∧
        mutation = value :: rest := by
  simp only [combinationAt?, Option.bind_eq_bind, Option.bind_eq_some_iff, Option.pure_def,
    Option.some_inj]
  constructor
  · rintro ⟨value, hvalue, rest, hrest, rfl⟩
    exact ⟨value, rest, hvalue, hrest, rfl⟩
  · rintro ⟨value, rest, hvalue, hrest, rfl⟩
    exact ⟨value, hvalue, rest, hrest, rfl⟩

/-- What has a rank is valid. -/
theorem admits_of_combinationAt? {rank : Nat}
    (hrank : combinationAt? mutators rank = some mutation) : admits mutators mutation = true := by
  induction mutators generalizing rank mutation with
  | nil =>
    rw [combinationAt?] at hrank
    split at hrank
    · cases hrank
      rfl
    · cases hrank
  | cons mutator mutators ih =>
    obtain ⟨value, rest, hvalue, hrest, rfl⟩ := combinationAt?_cons_eq_some_iff.mp hrank
    have hmem : mutator.hasValue value = true := by
      simpa [Mutator.hasValue] using List.mem_of_getElem? hvalue
    rw [admits, hmem, ih hrest]
    rfl

/-- Every valid mutation has a rank: the position of its first value leads, and the rank of the
others follows. -/
theorem exists_combinationAt? (hadmits : admits mutators mutation = true) :
    ∃ rank < combinations mutators, combinationAt? mutators rank = some mutation := by
  induction mutators generalizing mutation with
  | nil =>
    cases mutation with
    | nil => exact ⟨0, Nat.one_pos, rfl⟩
    | cons value mutation => cases hadmits
  | cons mutator mutators ih =>
    cases mutation with
    | nil => cases hadmits
    | cons value mutation =>
      rw [admits, Bool.and_eq_true] at hadmits
      obtain ⟨rest, hlt, hrest⟩ := ih hadmits.2
      have hmem : value ∈ mutator.values := by simpa [Mutator.hasValue] using hadmits.1
      obtain ⟨position, hposition⟩ := List.mem_iff_getElem?.mp hmem
      have hbound : position < mutator.values.length :=
        (List.getElem?_eq_some_iff.mp hposition).1
      have hdiv : (position * combinations mutators + rest) / combinations mutators = position := by
        rw [Nat.mul_comm, Nat.mul_add_div (by omega), Nat.div_eq_of_lt hlt, Nat.add_zero]
      have hmod : (position * combinations mutators + rest) % combinations mutators = rest := by
        rw [Nat.mul_comm, Nat.mul_add_mod, Nat.mod_eq_of_lt hlt]
      refine ⟨position * combinations mutators + rest, ?_, ?_⟩
      · calc position * combinations mutators + rest
            < position * combinations mutators + combinations mutators := by omega
          _ = (position + 1) * combinations mutators := (Nat.succ_mul ..).symm
          _ ≤ mutator.values.length * combinations mutators := Nat.mul_le_mul_right _ hbound
      · rw [combinationAt?_cons_eq_some_iff, hdiv, hmod]
        exact ⟨value, mutation, hposition, hrest, rfl⟩

/-- No mutation has two ranks. -/
theorem combinationAt?_inj (hmutators : ∀ mutator ∈ mutators, mutator.WellFormed) {rank other : Nat}
    (hrank : combinationAt? mutators rank = some mutation)
    (hother : combinationAt? mutators other = some mutation) : rank = other := by
  induction mutators generalizing rank other mutation with
  | nil =>
    rw [combinationAt?] at hrank hother
    split at hrank <;> split at hother <;> simp_all
  | cons mutator mutators ih =>
    obtain ⟨hfirst, hlater⟩ := List.forall_mem_cons.mp hmutators
    obtain ⟨value, rest, hvalue, hrest, rfl⟩ := combinationAt?_cons_eq_some_iff.mp hrank
    obtain ⟨_, _, hothervalue, hotherrest, hsame⟩ := combinationAt?_cons_eq_some_iff.mp hother
    cases hsame
    have hnodup : mutator.values.Nodup := by
      refine hfirst.increasing.imp ?_
      intro a b hlt heq
      rw [heq] at hlt
      exact Int32.lt_irrefl hlt
    have hbound := (List.getElem?_eq_some_iff.mp hvalue).1
    have hdiv : rank / combinations mutators = other / combinations mutators :=
      (List.getElem?_inj hbound hnodup).mp (hvalue.trans hothervalue.symm)
    have hmod : rank % combinations mutators = other % combinations mutators :=
      ih hlater hrest hotherrest
    rw [← Nat.div_add_mod rank (combinations mutators), hdiv, hmod, Nat.div_add_mod]

/-- The mutations of a space are its valid mutations. -/
theorem mem_mutations_iff {space : Space} :
    mutation ∈ space.mutations ↔ space.isValid mutation = true := by
  rw [mutations, List.mem_filterMap]
  constructor
  · rintro ⟨rank, -, hrank⟩
    exact admits_of_combinationAt? hrank
  · intro hvalid
    obtain ⟨rank, hlt, hrank⟩ := exists_combinationAt? hvalid
    exact ⟨rank, List.mem_range.mpr hlt, hrank⟩

theorem nodup_mutations {space : Space} (hspace : space.WellFormed) : space.mutations.Nodup :=
  List.nodup_range.filterMap fun _ _ _ hrank hother =>
    combinationAt?_inj hspace.mutators hrank hother

/-! ## One mutation after the other -/

/-- The ranks are the numbers below the number of combinations. -/
theorem isSome_combinationAt?_iff {rank : Nat} :
    (combinationAt? mutators rank).isSome = true ↔ rank < combinations mutators := by
  induction mutators generalizing rank with
  | nil =>
    rw [combinationAt?, combinations_nil]
    split <;> simp_all
  | cons mutator mutators ih =>
    have hparts : (combinationAt? (mutator :: mutators) rank).isSome = true ↔
        rank / combinations mutators < mutator.values.length ∧
          rank % combinations mutators < combinations mutators := by
      rw [← ih, combinationAt?]
      cases hvalue : mutator.values[rank / combinations mutators]? with
      | none =>
        have hlarge := List.getElem?_eq_none_iff.mp hvalue
        simp [Nat.not_lt.mpr hlarge]
      | some value =>
        have hsmall := (List.getElem?_eq_some_iff.mp hvalue).1
        cases combinationAt? mutators (rank % combinations mutators) <;> simp [hsmall]
    rw [hparts, combinations_cons]
    constructor
    · rintro ⟨hdiv, hmod⟩
      exact (Nat.div_lt_iff_lt_mul (by omega)).mp hdiv
    · intro hlt
      have hpos : 0 < combinations mutators := by
        refine Nat.pos_of_ne_zero fun hzero => ?_
        rw [hzero, Nat.mul_zero] at hlt
        omega
      exact ⟨(Nat.div_lt_iff_lt_mul hpos).mpr hlt, Nat.mod_lt _ hpos⟩

theorem map_some_filterMap {α β : Type} {f : α → Option β} {xs : List α}
    (hall : ∀ x ∈ xs, (f x).isSome = true) : (xs.filterMap f).map some = xs.map f := by
  induction xs with
  | nil => rfl
  | cons x xs ih =>
    obtain ⟨hx, hxs⟩ := List.forall_mem_cons.mp hall
    obtain ⟨y, hy⟩ := Option.isSome_iff_exists.mp hx
    rw [List.filterMap_cons_some hy, List.map_cons, List.map_cons, ih hxs, hy]

/-- The mutations stand at their ranks. -/
theorem map_some_mutations (space : Space) :
    space.mutations.map some = (List.range space.size).map space.mutationAt? :=
  map_some_filterMap fun _ hrank => isSome_combinationAt?_iff.mpr (List.mem_range.mp hrank)

/-- Past the last rank there is nothing. -/
theorem map_mutationAt?_eq_replicate {space : Space} {rank : Nat} (hrank : space.size ≤ rank)
    (count : Nat) :
    (List.range' rank count).map space.mutationAt? = List.replicate count none := by
  have hnone : ∀ later ∈ List.range' rank count, space.mutationAt? later = none := by
    intro later hlater
    have hle := (List.mem_range'_1.mp hlater).1
    rw [← Option.not_isSome_iff_eq_none, mutationAt?, isSome_combinationAt?_iff]
    exact Nat.not_lt.mpr (Nat.le_trans hrank hle)
  rw [List.map_eq_replicate_iff.mpr hnone, List.length_range']

theorem take_eq_map_mutationAt? (space : Space) (rank count : Nat) :
    ((⟨rank⟩ : Cursor).take space count).1 = (List.range' rank count).map space.mutationAt? := by
  induction count generalizing rank with
  | zero => rfl
  | succ count ih =>
    rw [Cursor.take, List.range'_succ, List.map_cons, Cursor.next]
    cases hrank : space.mutationAt? rank with
    | some mutation => exact congrArg _ (ih (rank + 1))
    | none =>
      -- The cursor stays at the end, where there is nothing to come.
      have hend : space.size ≤ rank := by
        refine Nat.not_lt.mp fun hlt => ?_
        have hsome : (space.mutationAt? rank).isSome = true := isSome_combinationAt?_iff.mpr hlt
        rw [hrank] at hsome
        cases hsome
      refine congrArg _ ((ih rank).trans ?_)
      rw [map_mutationAt?_eq_replicate hend, map_mutationAt?_eq_replicate (by omega)]

/-- Asking for the next mutation gives all mutations in order, and then none forever. -/
theorem take_mutations (space : Space) (count : Nat) :
    (({} : Cursor).take space (space.mutations.length + count)).1 =
      space.mutations.map some ++ List.replicate count none := by
  have hlength : space.mutations.length = space.size := by
    simpa using congrArg List.length (map_some_mutations space)
  have hsplit : List.range' 0 (space.size + count) =
      List.range space.size ++ List.range' space.size count := by
    rw [List.range_eq_range', ← List.range'_append_1, Nat.zero_add]
  rw [take_eq_map_mutationAt?, hlength, hsplit, List.map_append, ← map_some_mutations,
    map_mutationAt?_eq_replicate (Nat.le_refl _)]

end Ubershader.Space
