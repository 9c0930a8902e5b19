import Ubershader.Program.Build
import Ubershader.Proofs.Reading.Outcome
import Ubershader.Proofs.Space.Canonical
import Ubershader.Provider.Catalog

/-!
# Building covers the space

Building goes through all mutations and makes variants of those that are neither skipped nor
replaced. Nothing is lost by that: the mutation that repeated replacement settles at is valid and
is itself among the mutations gone through, once, so it is built unless it is skipped. Where
replacement goes round in a circle, nothing on the way is built.
-/

namespace Ubershader

namespace Program

def builtMutations (program : Program) : List Mutation :=
  program.space.mutations.filter fun mutation =>
    !program.space.isSkipped mutation && (program.space.replaceOnce? mutation).isNone

def variantsOf (program : Program) (mutation : Mutation) : List BuiltVariant :=
  program.targets.map fun target =>
    ⟨mutation, target.1.name, target.2, program.variantText mutation target.1 target.2⟩

/-- Nothing that building and canonicalizing ask about a mutation is a misuse, and no rule looks
past its end. -/
structure Answers (program : Program) (mutation : Mutation) : Prop where
  skips : program.skips mutation = .ok (program.space.isSkipped mutation)
  replaceOnce : program.replaceOnce mutation = .ok (program.space.replaceOnce? mutation)
  canonicalize : program.canonicalize mutation = .ok (program.space.canonicalize mutation)
  places : ∀ rule ∈ program.space.replacements, ∀ change ∈ rule.changes,
    change.index < mutation.length
  variant : ∀ technique ∈ program.techniques, ∀ stage ∈ technique.stages.toList,
    program.variant mutation technique stage =
      .ok (program.variantText mutation technique stage)

/-- Building covers the space of a program: every mutation is enumerated, and whatever stands for a
valid one is built, unless it is skipped. -/
structure BuildCovers (program : Program) : Prop where
  /-- Asking for one mutation after the other gives the mutations, and then none. -/
  enumerates : ∀ count,
    (({} : Cursor).take program.space (program.space.mutations.length + count)).1 =
      program.space.mutations.map some ++ List.replicate count none
  answers : ∀ mutation ∈ program.space.mutations, program.Answers mutation
  builds : ∃ report, program.buildAll program.space.mutations = .ok report ∧
    report.built = program.builtMutations.flatMap program.variantsOf
  /-- What stands for a valid mutation is built unless it is skipped. -/
  settled : ∀ mutation changed result, program.space.isValid mutation = true →
    program.canonicalize mutation = .ok (.settled changed result) →
      program.space.isValid result = true ∧
      (result ∈ program.builtMutations ↔ program.skips result = .ok false) ∧
      (result ∈ program.builtMutations → program.space.mutations.count result = 1)
  /-- Nothing that replacement can reach is built if it comes to no end. -/
  cycle : ∀ mutation repeated, program.space.isValid mutation = true →
    program.canonicalize mutation = .ok (.cycle repeated) →
      ∀ other, program.space.Reaches mutation other → other ∉ program.builtMutations

variable {program : Program} {mutation : Mutation}

theorem answers_of_isValid (hspace : program.space.WellFormed)
    (hvalid : program.space.isValid mutation = true) : program.Answers mutation := by
  have hlength : mutation.length = program.space.mutators.length :=
    Space.length_eq_of_admits hvalid
  have hright : ∀ {α : Type} (answer : α), program.ofRightLength mutation answer = .ok answer :=
    fun answer => if_pos hlength
  refine ⟨hright _, hright _, hright _, ?_, ?_⟩
  · intro rule hrule change hchange
    rw [hlength]
    exact ((hspace.replacements rule hrule).before change hchange).lt
  · intro technique _ stage hstage
    have hhas : technique.hasStage stage = true := by
      rw [← Technique.contains_stages, ← StageSet.mem_toList]
      exact hstage
    simp [Program.variant, hlength, hvalid, hhas]

theorem mem_builtMutations_iff (hspace : program.space.WellFormed) :
    mutation ∈ program.builtMutations ↔ program.space.isValid mutation = true ∧
      program.skips mutation = .ok false ∧ program.space.replaceOnce? mutation = none := by
  rw [builtMutations, List.mem_filter, Space.mem_mutations_iff, Bool.and_eq_true,
    Bool.not_eq_true', Option.isNone_iff_eq_none]
  refine and_congr_right fun hvalid => and_congr_left fun _ => ?_
  rw [(answers_of_isValid hspace hvalid).skips, Except.ok.injEq]

/-! ## The loop -/

theorem mapM_eq_ok {ε α β : Type} {f : α → Except ε β} {g : α → β} {xs : List α}
    (hall : ∀ x ∈ xs, f x = .ok (g x)) : xs.mapM f = .ok (xs.map g) := by
  induction xs with
  | nil => rfl
  | cons x xs ih =>
    obtain ⟨hx, hxs⟩ := List.forall_mem_cons.mp hall
    rw [List.mapM_cons, hx, ih hxs]
    rfl

theorem mem_targets_iff {technique : Technique} {stage : Stage} :
    (technique, stage) ∈ program.targets ↔
      technique ∈ program.techniques ∧ stage ∈ technique.stages.toList := by
  rw [targets, List.mem_flatMap]
  constructor
  · rintro ⟨other, hother, htarget⟩
    obtain ⟨stage', hstage, hsame⟩ := List.mem_map.mp htarget
    cases hsame
    exact ⟨hother, hstage⟩
  · rintro ⟨htechnique, hstage⟩
    exact ⟨technique, htechnique, List.mem_map_of_mem hstage⟩

theorem buildVariants_eq (hanswers : program.Answers mutation) :
    program.buildVariants mutation = .ok (program.variantsOf mutation) := by
  refine mapM_eq_ok ?_
  rintro ⟨technique, stage⟩ htarget
  obtain ⟨htechnique, hstage⟩ := mem_targets_iff.mp htarget
  simp only [hanswers.variant technique htechnique stage hstage]
  rfl

/-- One round of the loop makes the variants of a mutation, or leaves it out. -/
theorem exists_buildMutation_eq (hanswers : program.Answers mutation) (report : BuildReport) :
    ∃ after, program.buildMutation report mutation = .ok after ∧
      after.built = report.built ++
        if !program.space.isSkipped mutation && (program.space.replaceOnce? mutation).isNone
        then program.variantsOf mutation else [] := by
  rw [buildMutation, hanswers.skips, hanswers.replaceOnce, buildVariants_eq hanswers]
  cases program.space.isSkipped mutation with
  | true => exact ⟨_, rfl, (List.append_nil _).symm⟩
  | false =>
    cases program.space.replaceOnce? mutation with
    | some other => exact ⟨_, rfl, (List.append_nil _).symm⟩
    | none => exact ⟨_, rfl, rfl⟩

theorem exists_foldlM_buildMutation_eq {mutations : List Mutation}
    (hanswers : ∀ mutation ∈ mutations, program.Answers mutation) (report : BuildReport) :
    ∃ last, mutations.foldlM program.buildMutation report = .ok last ∧
      last.built = report.built ++ (mutations.filter fun mutation =>
        !program.space.isSkipped mutation && (program.space.replaceOnce? mutation).isNone).flatMap
          program.variantsOf := by
  induction mutations generalizing report with
  | nil => exact ⟨report, rfl, (List.append_nil _).symm⟩
  | cons mutation mutations ih =>
    obtain ⟨hfirst, hlater⟩ := List.forall_mem_cons.mp hanswers
    obtain ⟨after, hafter, hbuilt⟩ := exists_buildMutation_eq hfirst report
    obtain ⟨last, hlast, hall⟩ := ih hlater after
    refine ⟨last, ?_, ?_⟩
    · rw [List.foldlM_cons, hafter]
      exact hlast
    · rw [hall, hbuilt, List.filter_cons, List.append_assoc]
      split
      · rw [List.flatMap_cons]
      · rw [List.nil_append]

/-- The loop goes through, and makes the variants of the mutations that are to be built. -/
theorem exists_buildAll_eq (hspace : program.space.WellFormed) :
    ∃ report, program.buildAll program.space.mutations = .ok report ∧
      report.built = program.builtMutations.flatMap program.variantsOf := by
  refine exists_foldlM_buildMutation_eq ?_ {}
  intro mutation hmutation
  exact answers_of_isValid hspace (Space.mem_mutations_iff.mp hmutation)

/-! ## What stands for a mutation -/

theorem ends_of_canonicalize_eq (hspace : program.space.WellFormed)
    (hvalid : program.space.isValid mutation = true) {canonical : Canonical}
    (hcanonical : program.canonicalize mutation = .ok canonical) :
    program.space.Ends mutation canonical := by
  rw [(answers_of_isValid hspace hvalid).canonicalize, Except.ok.injEq] at hcanonical
  rw [← hcanonical]
  exact Space.ends_canonicalize hspace (Space.length_eq_of_admits hvalid)

theorem isValid_of_settled (hspace : program.space.WellFormed)
    (hvalid : program.space.isValid mutation = true) {changed : Bool} {result : Mutation}
    (hcanonical : program.canonicalize mutation = .ok (.settled changed result)) :
    program.space.isValid result = true :=
  (ends_of_canonicalize_eq hspace hvalid hcanonical).1.isValid hspace hvalid

/-- No rule applies where replacement has settled, so only skipping keeps it from being built. -/
theorem mem_builtMutations_iff_of_settled (hspace : program.space.WellFormed)
    (hvalid : program.space.isValid mutation = true) {changed : Bool} {result : Mutation}
    (hcanonical : program.canonicalize mutation = .ok (.settled changed result)) :
    result ∈ program.builtMutations ↔ program.skips result = .ok false := by
  have hresult := isValid_of_settled hspace hvalid hcanonical
  have hstops := (ends_of_canonicalize_eq hspace hvalid hcanonical).2
  rw [mem_builtMutations_iff hspace]
  exact ⟨fun hbuilt => hbuilt.2.1, fun hskips => ⟨hresult, hskips, hstops⟩⟩

theorem notMem_builtMutations_of_cycle (hspace : program.space.WellFormed)
    (hvalid : program.space.isValid mutation = true) {repeated : Mutation}
    (hcanonical : program.canonicalize mutation = .ok (.cycle repeated)) {other : Mutation}
    (hreaches : program.space.Reaches mutation other) : other ∉ program.builtMutations := by
  intro hbuilt
  have happlies : (program.space.replaceOnce? other).isSome = true :=
    ends_of_canonicalize_eq hspace hvalid hcanonical other hreaches
  rw [((mem_builtMutations_iff hspace).mp hbuilt).2.2] at happlies
  cases happlies

end Program

/-- Building covers the space of every program that was read: it goes through all mutations
without a misuse, it builds exactly those that are neither skipped nor replaced, and a valid
mutation is stood for by one that is built once, unless that one is skipped or there is no end to
replacement. -/
theorem buildCovers_of_read {σ κ : Type} {settings : Settings} {provider : Provider σ κ}
    {entry : String} {context : κ} {world : σ} {program : Program}
    (hread : (read settings provider entry context world).outcome = .ok program) :
    program.BuildCovers := by
  have hspace : program.space.WellFormed := (madeBy_of_read hread).space_wellFormed
  refine ⟨Space.take_mutations program.space, ?_, Program.exists_buildAll_eq hspace, ?_, ?_⟩
  · intro mutation hmutation
    exact Program.answers_of_isValid hspace (Space.mem_mutations_iff.mp hmutation)
  · intro mutation changed result hvalid hcanonical
    have hresult := Program.isValid_of_settled hspace hvalid hcanonical
    refine ⟨hresult, Program.mem_builtMutations_iff_of_settled hspace hvalid hcanonical, ?_⟩
    intro _
    exact List.count_eq_one_of_mem (Space.nodup_mutations hspace)
      (Space.mem_mutations_iff.mpr hresult)
  · intro mutation repeated hvalid hcanonical other hreaches
    exact Program.notMem_builtMutations_of_cycle hspace hvalid hcanonical hreaches

/-- A program with a mutation that is replaced by another one, and two that are replaced by one
another. -/
def circularRules : Catalog where
  files :=
    [("main", "#pragma anki mutator A 0 1 2 3\n#pragma anki rewrite_mutation A 1 to A 0\n" ++
        "#pragma anki rewrite_mutation A 2 to A 3\n#pragma anki rewrite_mutation A 3 to A 2\n" ++
        "#pragma anki technique_start comp\n#pragma anki technique_end comp\n")]

theorem buildCovers_circularRules :
    ∃ program, (read {} circularRules.provider "main" "" ()).outcome = .ok program ∧
      program.space.isValid [1] = true ∧ program.space.canonicalize [1] = .settled true [0] ∧
      program.space.isValid [2] = true ∧ program.space.canonicalize [2] = .cycle [2] ∧
      program.builtMutations = [[0]] ∧ program.BuildCovers := by
  have hcheck : ((read {} circularRules.provider "main" "" ()).outcome.toOption.any fun program =>
      decide (program.space.isValid [1] = true ∧
        program.space.canonicalize [1] = .settled true [0] ∧
        program.space.isValid [2] = true ∧ program.space.canonicalize [2] = .cycle [2] ∧
        program.builtMutations = [[0]])) = true := by
    decide +kernel
  obtain ⟨program, hprogram, hfacts⟩ := (Option.any_eq_true ..).mp hcheck
  have hread := eq_ok_of_toOption hprogram
  obtain ⟨hreplaced, hsettled, hcircular, hcycle, hbuilt⟩ := of_decide_eq_true hfacts
  exact ⟨program, hread, hreplaced, hsettled, hcircular, hcycle, hbuilt,
    buildCovers_of_read hread⟩

end Ubershader
