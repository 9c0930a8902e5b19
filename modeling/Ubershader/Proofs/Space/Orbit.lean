import Mathlib.Data.List.Sections
import Mathlib.Logic.Relation
import Std.Data.TreeSet.Lemmas
import Ubershader.Proofs.Space.Product
import Ubershader.Space.Canonical

/-!
# Repeated replacement

Replacement is a partial function on mutations, so from every mutation it leads along one path. On
this path a place holds the value it started with or one that a rule puts there, which leaves
finitely many mutations. A path therefore comes to a mutation that no rule applies to, or it leads
back to one that was met before; in the second case rules apply to everything on it. The bound on
the steps of `canonicalize` is at least the number of different mutations on a path.
-/

namespace Ubershader

namespace Replacement

/-- The value that a rule puts at a place, if it changes that place. -/
def after? (rule : Replacement) (index : Nat) : Option Int32 :=
  (rule.changes.find? fun change => change.index == index).map Change.after

private theorem getElem?_foldl_changes {changes : List Change}
    (hincreasing : changes.Pairwise fun change other => change.index < other.index)
    {mutation : Mutation} {index : Nat} (hindex : index < mutation.length) :
    (changes.foldl (fun mutation change => mutation.set change.index change.after)
        mutation)[index]? =
      ((changes.find? fun change => change.index == index).map Change.after).or
        mutation[index]? := by
  induction changes generalizing mutation with
  | nil => simp
  | cons change changes ih =>
    obtain ⟨hlater, hincreasing⟩ := List.pairwise_cons.mp hincreasing
    rw [List.foldl_cons, ih hincreasing (by simpa using hindex), List.find?_cons]
    by_cases hhere : change.index = index
    · -- The indices increase, so no later change is at this place.
      have hnone : changes.find? (fun change => change.index == index) = none := by
        rw [List.find?_eq_none]
        intro other hother heq
        have hlt := hlater other hother
        have := beq_iff_eq.mp heq
        omega
      simp [hhere, hnone, hindex]
    · have hbeq : (change.index == index) = false := by simpa using hhere
      rw [hbeq, List.getElem?_set_ne hhere]

/-- A rule puts its values at the places that it changes and leaves the others alone. -/
theorem getElem?_apply {mutators : List Mutator} {rule : Replacement} (hrule : rule.Fits mutators)
    {mutation : Mutation} {index : Nat} (hindex : index < mutation.length) :
    (rule.apply mutation)[index]? = (rule.after? index).or mutation[index]? :=
  getElem?_foldl_changes hrule.increasing hindex

theorem legal_of_after? {mutators : List Mutator} {rule : Replacement} (hrule : rule.Fits mutators)
    {index : Nat} {value : Int32} (hafter : rule.after? index = some value) :
    Space.Legal mutators index value := by
  obtain ⟨change, hchange, rfl⟩ := Option.map_eq_some_iff.mp hafter
  have hindex : change.index = index := by simpa using List.find?_some hchange
  exact hindex ▸ hrule.after change (List.mem_of_find?_eq_some hchange)

end Replacement

namespace Space

variable {space : Space} {start mutation next : Mutation}

/-- What a step of replacement puts at a place: what was there, or what some rule puts there. -/
theorem getElem?_of_replaceOnce? (hspace : space.WellFormed)
    (hnext : space.replaceOnce? mutation = some next) {index : Nat} {value : Int32}
    (hvalue : next[index]? = some value) :
    mutation[index]? = some value ∨
      ∃ rule ∈ space.replacements, rule.after? index = some value := by
  have hindex : index < mutation.length := by
    rw [← length_of_replaceOnce? hnext]
    exact (List.getElem?_eq_some_iff.mp hvalue).1
  obtain ⟨rule, hrule, rfl⟩ := Option.map_eq_some_iff.mp hnext
  have hmem := List.mem_of_find?_eq_some hrule
  rw [Replacement.getElem?_apply (hspace.replacements rule hmem) hindex] at hvalue
  cases hafter : rule.after? index with
  | none =>
    rw [hafter] at hvalue
    exact .inl hvalue
  | some other =>
    rw [hafter] at hvalue
    exact .inr ⟨rule, hmem, hafter.trans hvalue⟩

/-- Replacement leads from valid mutations to valid ones. -/
theorem isValid_of_replaceOnce? (hspace : space.WellFormed)
    (hvalid : space.isValid mutation = true) (hnext : space.replaceOnce? mutation = some next) :
    space.isValid next = true := by
  obtain ⟨hlength, hlegal⟩ := admits_iff_legal.mp hvalid
  refine admits_iff_legal.mpr ⟨(length_of_replaceOnce? hnext).trans hlength, ?_⟩
  intro index value hvalue
  obtain hold | ⟨rule, hrule, hafter⟩ := getElem?_of_replaceOnce? hspace hnext hvalue
  · exact hlegal index value hold
  · exact Replacement.legal_of_after? (hspace.replacements rule hrule) hafter

/-- Replacement leads from one mutation to another, in any number of steps. -/
def Reaches (space : Space) : Mutation → Mutation → Prop :=
  Relation.ReflTransGen fun mutation next => space.replaceOnce? mutation = some next

theorem Reaches.isValid (hspace : space.WellFormed) (hreaches : space.Reaches start mutation)
    (hvalid : space.isValid start = true) : space.isValid mutation = true := by
  induction hreaches with
  | refl => exact hvalid
  | tail _ hnext ih => exact isValid_of_replaceOnce? hspace ih hnext

/-! ## How many mutations a path can have -/

/-- For each place, the values that a path from a mutation can have there. There are finitely many
of them, and this is what bounds the path. -/
def candidates (space : Space) (start : Mutation) : List (List Int32) :=
  (List.range start.length).map fun index =>
    start[index]?.toList ++ space.replacements.filterMap fun rule => rule.after? index

theorem Reaches.length_eq (hreaches : space.Reaches start mutation) :
    mutation.length = start.length := by
  induction hreaches with
  | refl => rfl
  | tail _ hnext ih => exact (length_of_replaceOnce? hnext).trans ih

theorem Reaches.getElem? (hspace : space.WellFormed) (hreaches : space.Reaches start mutation)
    {index : Nat} {value : Int32} (hvalue : mutation[index]? = some value) :
    start[index]? = some value ∨ ∃ rule ∈ space.replacements, rule.after? index = some value := by
  induction hreaches generalizing value with
  | refl => exact .inl hvalue
  | tail _ hnext ih =>
    obtain hold | hrule := getElem?_of_replaceOnce? hspace hnext hvalue
    · exact ih hold
    · exact .inr hrule

theorem Reaches.mem_sections (hspace : space.WellFormed) (hreaches : space.Reaches start mutation) :
    mutation ∈ (space.candidates start).sections := by
  rw [List.mem_sections, List.forall₂_iff_get]
  refine ⟨by simp [candidates, hreaches.length_eq], ?_⟩
  intro index hindex hcandidates
  have hvalue : mutation[index]? = some (mutation.get ⟨index, hindex⟩) :=
    List.getElem?_eq_getElem hindex
  have hplace := hreaches.getElem? hspace hvalue
  simpa [candidates, List.mem_filterMap] using hplace

theorem length_sections_le {lists : List (List Int32)} {bound : Nat}
    (hlists : ∀ list ∈ lists, list.length ≤ bound) :
    lists.sections.length ≤ Nat.pow bound lists.length := by
  induction lists with
  | nil => simp [List.sections]
  | cons list lists ih =>
    obtain ⟨hlist, hlists⟩ := List.forall_mem_cons.mp hlists
    have hlength : (List.sections (list :: lists)).length =
        lists.sections.length * list.length := by
      simp [List.sections, List.length_flatMap]
    rw [hlength]
    exact Nat.mul_le_mul (ih hlists) hlist

/-- A path without repetitions is no longer than the bound on replacement steps. -/
theorem length_le_replacementBound (hspace : space.WellFormed)
    (hstart : start.length = space.mutators.length) {trail : List Mutation} (hnodup : trail.Nodup)
    (htrail : ∀ mutation ∈ trail, space.Reaches start mutation) :
    trail.length ≤ space.replacementBound := by
  have hsubset : trail ⊆ (space.candidates start).sections :=
    fun mutation hmem => (htrail mutation hmem).mem_sections hspace
  have hplaces : ∀ list ∈ space.candidates start,
      list.length ≤ space.replacements.length + 1 := by
    intro list hlist
    obtain ⟨index, -, rfl⟩ := List.mem_map.mp hlist
    have hrules := List.length_filterMap_le (fun rule : Replacement => rule.after? index)
      space.replacements
    have hfirst : start[index]?.toList.length ≤ 1 := by cases start[index]? <;> simp
    rw [List.length_append]
    omega
  calc trail.length ≤ (space.candidates start).sections.length :=
        hnodup.length_le_of_subset hsubset
    _ ≤ Nat.pow (space.replacements.length + 1) (space.candidates start).length :=
        length_sections_le hplaces
    _ = space.replacementBound := by simp [candidates, hstart, replacementBound]

/-! ## Where a path ends -/

/-- The mutations that replacement has met on its way from `start` to `mutation`. Each but the last
one leads to one of them, so only the last one can lead to a mutation that is new. -/
structure Trail (space : Space) (start mutation : Mutation) (trail : List Mutation) : Prop where
  nodup : trail.Nodup
  first : start ∈ trail
  reaches : ∀ met ∈ trail, space.Reaches start met
  last : mutation ∈ trail
  leads : ∀ met ∈ trail, met ≠ mutation → ∃ next ∈ trail, space.replaceOnce? met = some next

namespace Trail

variable {trail : List Mutation}

theorem singleton (space : Space) (start : Mutation) : Trail space start start [start] where
  nodup := List.nodup_singleton start
  first := List.mem_singleton_self start
  reaches met hmet := by
    rw [List.mem_singleton.mp hmet]
    exact Relation.ReflTransGen.refl
  last := List.mem_singleton_self start
  leads met hmet hne := absurd (List.mem_singleton.mp hmet) hne

theorem extend (htrail : Trail space start mutation trail)
    (hnext : space.replaceOnce? mutation = some next) (hnew : next ∉ trail) :
    Trail space start next (next :: trail) where
  nodup := List.nodup_cons.mpr ⟨hnew, htrail.nodup⟩
  first := List.mem_cons_of_mem _ htrail.first
  reaches := by
    refine List.forall_mem_cons.mpr ⟨?_, htrail.reaches⟩
    exact (htrail.reaches mutation htrail.last).tail hnext
  last := List.mem_cons_self ..
  leads met hmet hne := by
    have hold : met ∈ trail := (List.mem_cons.mp hmet).resolve_left hne
    by_cases hlast : met = mutation
    · exact ⟨next, List.mem_cons_self .., hlast ▸ hnext⟩
    · obtain ⟨after, hafter, hreplace⟩ := htrail.leads met hold hlast
      exact ⟨after, List.mem_cons_of_mem _ hafter, hreplace⟩

/-- A trail that leads back into itself is all that replacement can reach. -/
theorem isSome_of_reaches (htrail : Trail space start mutation trail)
    (hnext : space.replaceOnce? mutation = some next) (hback : next ∈ trail) {other : Mutation}
    (hreaches : space.Reaches start other) : (space.replaceOnce? other).isSome = true := by
  have hleads : ∀ met ∈ trail, ∃ after ∈ trail, space.replaceOnce? met = some after := by
    intro met hmet
    by_cases hlast : met = mutation
    · exact ⟨next, hback, hlast ▸ hnext⟩
    · exact htrail.leads met hmet hlast
  have hmem : other ∈ trail := by
    induction hreaches with
    | refl => exact htrail.first
    | tail _ hstep ih =>
      obtain ⟨after, hafter, hreplace⟩ := hleads _ ih
      rw [hstep] at hreplace
      cases hreplace
      exact hafter
  obtain ⟨after, -, hreplace⟩ := hleads other hmem
  rw [hreplace]
  rfl

end Trail

theorem mem_insert_iff {met : Std.TreeSet Mutation} {other : Mutation} :
    other ∈ met.insert mutation ↔ other = mutation ∨ other ∈ met := by
  rw [Std.TreeSet.mem_insert, Std.LawfulEqCmp.compare_eq_iff_eq, eq_comm]

end Space

end Ubershader
