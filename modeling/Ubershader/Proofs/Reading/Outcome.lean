import Ubershader.Proofs.Program.Blocks
import Ubershader.Proofs.Reading.Trace
import Ubershader.Proofs.Space.WellFormed

/-!
# What a reading comes to

`Draft.WellFormed` holds of every draft that a trace adds up to: its space is well formed, the
names of its blocks are identifiers, and no two blocks share both name and stage, the open one
included. A reading that gives a program gives it from such a draft, with nothing left open.
-/

namespace Ubershader

/-- What holds of every draft at every moment of a reading. It is what a program needs in the end,
and every edit that is allowed keeps it. -/
structure Draft.WellFormed (draft : Draft) : Prop where
  space : draft.space.WellFormed
  identifiers : ∀ block ∈ draft.blocks, Text.isIdentifier block.technique = true
  keys : (draft.blocks.map Block.key).Nodup
  openIdentifier : ∀ block, draft.openBlock = some block →
    Text.isIdentifier block.technique = true
  openKey : ∀ block, draft.openBlock = some block → block.key ∉ draft.blocks.map Block.key
  library : draft.library ≠ some ""

namespace Draft

variable {settings : Settings} {draft : Draft}

theorem wellFormed_empty : ({} : Draft).WellFormed where
  space := Space.wellFormed_empty
  identifiers := by simp
  keys := List.nodup_nil
  openIdentifier := by simp
  openKey := by simp
  library := by simp

/-- Changing the current buffer touches neither the finished blocks nor the key of the open
one. -/
theorem WellFormed.modifyCurrent (hdraft : draft.WellFormed) (change : Buffer → Buffer) :
    (draft.modifyCurrent change).WellFormed := by
  rw [Draft.modifyCurrent]
  split
  · exact ⟨hdraft.space, hdraft.identifiers, hdraft.keys, hdraft.openIdentifier, hdraft.openKey,
      hdraft.library⟩
  · next block hopen =>
    refine ⟨hdraft.space, hdraft.identifiers, hdraft.keys, ?_, ?_, hdraft.library⟩
    · rintro _ ⟨⟩
      exact hdraft.openIdentifier block hopen
    · rintro _ ⟨⟩
      exact hdraft.openKey block hopen

theorem WellFormed.openBlock (hdraft : draft.WellFormed) {technique : String} {stage : Stage}
    (hfresh : draft.hasBlock technique stage = false)
    (hidentifier : Text.isIdentifier technique = true) (active : MutatorMask) (site : Location) :
    (draft.apply (.openBlock technique stage active site)).WellFormed := by
  refine ⟨hdraft.space, hdraft.identifiers, hdraft.keys, ?_, ?_, hdraft.library⟩
  · rintro _ ⟨⟩
    exact hidentifier
  · rintro _ ⟨⟩
    exact hasBlock_eq_false_iff.mp hfresh

theorem WellFormed.closeBlock (hdraft : draft.WellFormed) {block : OpenBlock}
    (hopen : draft.openBlock = some block) : (draft.apply .closeBlock).WellFormed := by
  have happly : draft.apply .closeBlock =
      { draft with blocks := draft.blocks ++ [block.close], openBlock := none } := by
    simp [Draft.apply, hopen]
  rw [happly]
  refine ⟨hdraft.space, ?_, ?_, by simp, by simp, hdraft.library⟩
  · intro other hother
    obtain hold | hlast := List.mem_append.mp hother
    · exact hdraft.identifiers other hold
    · rw [List.mem_singleton.mp hlast]
      exact hdraft.openIdentifier block hopen
  · rw [List.map_append, List.map_singleton, OpenBlock.key_close, List.nodup_append]
    refine ⟨hdraft.keys, by simp, ?_⟩
    intro key hkey other hother heq
    rw [List.mem_singleton.mp hother] at heq
    exact hdraft.openKey block hopen (heq ▸ hkey)

theorem WellFormed.apply (hdraft : draft.WellFormed) {edit : Edit}
    (hallows : draft.Allows settings edit) : (draft.apply edit).WellFormed := by
  cases hallows with
  | append line => exact hdraft.modifyCurrent (·.push line)
  | guard path => exact hdraft.modifyCurrent (·.guard path)
  | openBlock _ _ hfresh hidentifier _ _ site => exact hdraft.openBlock hfresh hidentifier _ site
  | closeBlock _ hopen => exact hdraft.closeBlock hopen
  | addMutator _ hdeclared => exact { hdraft with space := hdraft.space.addMutator hdeclared }
  | addSkip _ hdeclared => exact { hdraft with space := hdraft.space.addSkip hdeclared }
  | addReplacement _ hdeclared =>
    exact { hdraft with space := hdraft.space.addReplacement hdeclared }
  | openStruct => exact { hdraft with }
  | addMember => exact { hdraft with }
  | closeStruct => exact { hdraft with }
  | setLibrary _ _ hnamed => exact { hdraft with library := by simpa [Draft.apply] using hnamed }
  | setRayType => exact { hdraft with }
  | allowSixteenBit => exact { hdraft with }

theorem wellFormed_of_trace {edits : List Edit} (trace : Trace settings edits) :
    (({} : Draft).applyAll edits).WellFormed :=
  trace.invariant wellFormed_empty fun _ _ hallows hdraft => hdraft.apply hallows

end Draft

/-- A program comes from a draft in which nothing is open. -/
theorem Program.of_ofDraft {settings : Settings} {entry : String} {draft : Draft}
    {program : Program} (hprogram : Program.ofDraft settings entry draft = .ok program) :
    draft.openBlock = none ∧ program =
      { settings := settings
        space := draft.space
        common := draft.common.lines
        techniques := Technique.ofBlocks draft.blocks
        library := draft.library
        rayType := draft.rayType
        sixteenBit := draft.sixteenBit } := by
  rw [Program.ofDraft] at hprogram
  split at hprogram
  · cases hprogram
  · cases hprogram
  · cases hprogram
  · next hblock _ _ =>
    cases hprogram
    exact ⟨hblock, rfl⟩

/-- The program of a reading, together with the edits that it was made by. Much that is proved of
programs needs this only, and not the walk. -/
structure Program.MadeBy (program : Program) (settings : Settings) (edits : List Edit) : Prop where
  trace : Trace settings edits
  closed : (({} : Draft).applyAll edits).openBlock = none
  space : program.space = (({} : Draft).applyAll edits).space
  techniques : program.techniques = Technique.ofBlocks (({} : Draft).applyAll edits).blocks
  library : program.library = (({} : Draft).applyAll edits).library

section

variable {σ κ : Type} {settings : Settings} {provider : Provider σ κ} {entry : String}
  {context : κ} {world : σ} {program : Program}

/-- A reading gives a program only if its walk went through to the end. -/
theorem walk_of_read (hread : (read settings provider entry context world).outcome = .ok program) :
    (Walk.visit settings provider (settings.maxIncludeDepth.toNat + 1) ⟨entry, 0, ""⟩ entry
        context).run { world := world } =
        .ok () (read settings provider entry context world).session ∧
      Program.ofDraft settings entry (read settings provider entry context world).session.draft =
        .ok program := by
  unfold read at hread ⊢
  dsimp only at hread ⊢
  split
  · next hrun =>
    rw [hrun] at hread
    exact ⟨hrun, hread⟩
  · next hrun =>
    rw [hrun] at hread
    cases hread

theorem madeBy_of_read
    (hread : (read settings provider entry context world).outcome = .ok program) :
    program.MadeBy settings (read settings provider entry context world).session.edits := by
  obtain ⟨-, hprogram⟩ := walk_of_read hread
  rw [draft_eq_applyAll_edits] at hprogram
  obtain ⟨hclosed, rfl⟩ := Program.of_ofDraft hprogram
  exact ⟨trace_read settings provider entry context world, hclosed, rfl, rfl, rfl⟩

end

namespace Program.MadeBy

variable {settings : Settings} {edits : List Edit} {program : Program}

theorem draft_wellFormed (hprogram : program.MadeBy settings edits) :
    (({} : Draft).applyAll edits).WellFormed :=
  Draft.wellFormed_of_trace hprogram.trace

theorem space_wellFormed (hprogram : program.MadeBy settings edits) :
    program.space.WellFormed :=
  hprogram.space ▸ hprogram.draft_wellFormed.space

theorem library_ne_empty (hprogram : program.MadeBy settings edits) :
    program.library ≠ some "" :=
  hprogram.library ▸ hprogram.draft_wellFormed.library

theorem isIdentifier_name (hprogram : program.MadeBy settings edits) {technique : Technique}
    (htechnique : technique ∈ program.techniques) :
    Text.isIdentifier technique.name = true := by
  rw [hprogram.techniques] at htechnique
  have hname := (Technique.names_ofBlocks _).2 technique.name |>.mp
    (List.mem_map_of_mem htechnique)
  obtain ⟨block, hblock, hsame⟩ := List.mem_map.mp hname
  exact hsame ▸ hprogram.draft_wellFormed.identifiers block hblock

/-- The blocks of the techniques of a program are the finished blocks of its draft. -/
theorem block?_eq_some_iff (hprogram : program.MadeBy settings edits) {technique : Technique}
    (htechnique : technique ∈ program.techniques) {stage : Stage} {block : Block} :
    technique.block? stage = some block ↔
      block ∈ (({} : Draft).applyAll edits).blocks ∧ block.key = (technique.name, stage) := by
  rw [hprogram.techniques] at htechnique
  exact Technique.block?_eq_some_iff hprogram.draft_wellFormed.keys htechnique

theorem exists_block?_eq_some (hprogram : program.MadeBy settings edits) {block : Block}
    (hblock : block ∈ (({} : Draft).applyAll edits).blocks) :
    ∃ technique ∈ program.techniques, technique.block? block.stage = some block := by
  rw [hprogram.techniques]
  exact Technique.exists_block?_eq_some hprogram.draft_wellFormed.keys hblock

end Program.MadeBy

end Ubershader
