import Std.Data.String.ToInt
import Ubershader.Program.Variant
import Ubershader.Proofs.Lines
import Ubershader.Proofs.Reading.Outcome
import Ubershader.Proofs.Space.Orbit
import Ubershader.Provider.Catalog

/-!
# Variants and the mutators that a block sees

The text of a variant tells exactly the values of the mutators that its block sees. Other mutators
do not occur in it, so they can take any value. Those that do occur have one line each, and the
lines can be told apart although they differ in length, because a decimal holds no line feed.
-/

namespace Ubershader

namespace Text

theorem isLine_decimal (value : Int32) : IsLine (decimal value) := by
  rw [decimal]
  cases value.toInt with
  | ofNat number => exact isLine_repr number
  | negSucc number => exact isLine_append.mpr ⟨by decide, isLine_repr (number + 1)⟩

theorem decimal_inj {value other : Int32} (htexts : decimal value = decimal other) :
    value = other :=
  Int32.toInt_inj.mp (Int.repr_inj.mp htexts)

/-- The first line of a text can be read back. -/
theorem append_newline_inj {line other rest tail : String} (hline : IsLine line)
    (hother : IsLine other) (htexts : line ++ ("\n" ++ rest) = other ++ ("\n" ++ tail)) :
    line = other ∧ rest = tail := by
  have hfirst : ∀ {front back : String}, IsLine front →
      (front ++ ("\n" ++ back)).toList.takeWhile (· != '\n') = front.toList := by
    intro front back hfront
    have hpass : ∀ c ∈ front.toList, (c != '\n') = true := by
      intro c hc
      exact bne_iff_ne.mpr fun heq => hfront (heq ▸ hc)
    simp [List.takeWhile_append_of_pos hpass]
  have hsame : line = other := by
    rw [← String.toList_inj, ← hfirst hline, ← hfirst hother, htexts]
  rw [hsame, String.append_right_inj, String.append_right_inj] at htexts
  exact ⟨hsame, htexts⟩

end Text

/-- A definition at the front of a text tells its value. -/
theorem defineLine_decimal_append_inj {name rest tail : String} {value other : Int32} :
    defineLine name (Text.decimal value) ++ rest = defineLine name (Text.decimal other) ++ tail ↔
      value = other ∧ rest = tail := by
  constructor
  · intro htexts
    simp only [defineLine, String.append_assoc, String.append_right_inj] at htexts
    obtain ⟨hvalues, hrests⟩ := Text.append_newline_inj (Text.isLine_decimal value)
      (Text.isLine_decimal other) htexts
    exact ⟨Text.decimal_inj hvalues, hrests⟩
  · rintro ⟨rfl, rfl⟩
    rfl

namespace Program

variable {program : Program} {technique : Technique} {stage : Stage}
variable {mutation first second : Mutation}

/-- The lines of the mutators tell exactly the values of those that the stage sees. -/
theorem join_mutatorLines_eq_iff (technique : Technique) (stage : Stage) {mutators : List Mutator}
    (hfirst : first.length = mutators.length) (hsecond : second.length = mutators.length)
    (index : Nat) :
    String.join (mutatorLines technique stage index mutators first) =
        String.join (mutatorLines technique stage index mutators second) ↔
      ∀ place, technique.usesMutator stage (index + place) = true →
        first[place]? = second[place]? := by
  induction mutators generalizing first second index with
  | nil =>
    rw [List.length_eq_zero_iff.mp hfirst, List.length_eq_zero_iff.mp hsecond]
    exact iff_of_true rfl fun _ _ => rfl
  | cons mutator mutators ih =>
    obtain ⟨value, first, rfl⟩ := List.exists_cons_of_length_eq_add_one hfirst
    obtain ⟨other, second, rfl⟩ := List.exists_cons_of_length_eq_add_one hsecond
    have hlater := ih (Nat.succ.inj hfirst) (Nat.succ.inj hsecond) (index + 1)
    have hplaces : (∀ place, technique.usesMutator stage (index + place) = true →
          (value :: first)[place]? = (other :: second)[place]?) ↔
        (technique.usesMutator stage index = true → value = other) ∧
          ∀ place, technique.usesMutator stage (index + 1 + place) = true →
            first[place]? = second[place]? := by
      rw [← Nat.and_forall_add_one]
      simp [Nat.add_right_comm index 1, Nat.add_assoc index]
    rw [hplaces, ← hlater, mutatorLines, mutatorLines]
    cases huses : technique.usesMutator stage index with
    | true => simp [defineLine_decimal_append_inj]
    | false => simp

/-- Only the lines of the mutators depend on the mutation. -/
theorem variantText_eq_iff (hfirst : first.length = program.space.mutators.length)
    (hsecond : second.length = program.space.mutators.length) :
    program.variantText first technique stage = program.variantText second technique stage ↔
      ∀ index, technique.usesMutator stage index = true → first[index]? = second[index]? := by
  have hlines := join_mutatorLines_eq_iff technique stage hfirst hsecond 0
  simp only [Nat.zero_add] at hlines
  simp only [variantText, mutatorSection, String.append_right_inj, String.append_left_inj]
  exact hlines

theorem variant_eq_ok (hvalid : program.space.isValid mutation = true)
    (hhas : technique.hasStage stage = true) :
    program.variant mutation technique stage =
      .ok (program.variantText mutation technique stage) := by
  simp [variant, Space.length_eq_of_admits hvalid, hvalid, hhas]

end Program

/-- A variant depends on exactly the mutators that its block sees. For a program that was read, any
technique, also one of another program, a stage that the technique has and two valid mutations,
there are two texts, and they are equal if and only if the mutations agree at every mutator that the
stage sees. So replacement can go on as long as it likes without a change of the text, as long as
only other mutators are changed. -/
theorem variant_eq_iff_of_read {σ κ : Type} {settings : Settings} {provider : Provider σ κ}
    {entry : String} {context : κ} {world : σ} {program : Program}
    (hread : (read settings provider entry context world).outcome = .ok program)
    {technique : Technique} {stage : Stage} (hhas : technique.hasStage stage = true)
    {first : Mutation} (hfirst : program.space.isValid first = true) :
    (∀ second, program.space.isValid second = true →
      ∃ text other, program.variant first technique stage = .ok text ∧
        program.variant second technique stage = .ok other ∧
        (text = other ↔
          ∀ index, technique.usesMutator stage index = true → first[index]? = second[index]?)) ∧
    ∀ second, program.space.Reaches first second →
      (∀ index, technique.usesMutator stage index = true → first[index]? = second[index]?) →
        program.variant second technique stage = program.variant first technique stage := by
  have hiff : ∀ second, program.space.isValid second = true →
      (program.variantText first technique stage = program.variantText second technique stage ↔
        ∀ index, technique.usesMutator stage index = true → first[index]? = second[index]?) :=
    fun second hsecond => Program.variantText_eq_iff (Space.length_eq_of_admits hfirst)
      (Space.length_eq_of_admits hsecond)
  constructor
  · intro second hsecond
    exact ⟨_, _, Program.variant_eq_ok hfirst hhas, Program.variant_eq_ok hsecond hhas,
      hiff second hsecond⟩
  · intro second hreaches hagree
    have hsecond : program.space.isValid second = true :=
      hreaches.isValid (madeBy_of_read hread).space_wellFormed hfirst
    rw [Program.variant_eq_ok hfirst hhas, Program.variant_eq_ok hsecond hhas,
      (hiff second hsecond).mpr hagree]

/-- A program with a block that sees the second of two mutators, and a rule for the first one. -/
def maskedBlock : Catalog where
  files :=
    [("main", "#pragma anki mutator A 0 1\n#pragma anki mutator B -7 12\n" ++
        "#pragma anki rewrite_mutation A 1 to A 0\n" ++
        "#pragma anki technique_start comp uses_mutators B\n#pragma anki technique_end comp\n")]

theorem variant_eq_iff_of_read_maskedBlock :
    ∃ program technique, (read {} maskedBlock.provider "main" "" ()).outcome = .ok program ∧
      program.techniques = [technique] ∧ technique.hasStage .compute = true ∧
      program.space.isValid [1, -7] = true ∧ program.space.isValid [1, 12] = true ∧
      program.space.replaceOnce? [1, -7] = some [0, -7] ∧
      program.variant [0, -7] technique .compute = program.variant [1, -7] technique .compute ∧
      ∃ text other, program.variant [1, -7] technique .compute = .ok text ∧
        program.variant [1, 12] technique .compute = .ok other ∧ text ≠ other := by
  have hcheck : ((read {} maskedBlock.provider "main" "" ()).outcome.toOption.any fun program =>
      program.techniques.any fun technique =>
        decide (program.techniques = [technique] ∧ technique.block? .compute ≠ none ∧
          technique.activeMutators .compute = BitVec.twoPow 64 1 ∧
          program.space.isValid [1, -7] = true ∧ program.space.isValid [1, 12] = true ∧
          program.space.replaceOnce? [1, -7] = some [0, -7])) = true := by
    decide +kernel
  obtain ⟨program, hprogram, htechniques⟩ := (Option.any_eq_true ..).mp hcheck
  obtain ⟨technique, -, hfacts⟩ := List.any_eq_true.mp htechniques
  obtain ⟨honly, hblock, hactive, hfirst, hsecond, hnext⟩ := of_decide_eq_true hfacts
  have hread := eq_ok_of_toOption hprogram
  have hhas : technique.hasStage .compute = true := Option.isSome_iff_ne_none.mpr hblock
  have huses : ∀ index, technique.usesMutator .compute index = true ↔ index = 1 := by
    intro index
    rw [Technique.usesMutator, hactive, BitVec.getLsbD_twoPow]
    simp [eq_comm]
  obtain ⟨hiff, hreplaced⟩ := variant_eq_iff_of_read hread hhas hfirst
  obtain ⟨text, other, htext, hother, hsame⟩ := hiff [1, 12] hsecond
  refine ⟨program, technique, hread, honly, hhas, hfirst, hsecond, hnext, ?_, text, other, htext,
    hother, ?_⟩
  · refine hreplaced [0, -7] (.single hnext) fun index hindex => ?_
    rw [(huses index).mp hindex]
    rfl
  · intro heq
    have hagree := hsame.mp heq 1 ((huses 1).mpr rfl)
    exact absurd hagree (by decide)

end Ubershader
