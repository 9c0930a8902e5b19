import Ubershader.Proofs.Program.ActiveMutators
import Ubershader.Proofs.Roster.Sound

/-!
# The header of a variant

The header of a variant says which technique and which stage the variant is for. It has one line
for each technique of the program and one for each stage that the target can run, and in both
sections exactly one line has the value one. Making the header checks neither that the names are
different nor that the stage is one that is listed: both come from what is true of every program
that was read.
-/

namespace Ubershader

/-! ## Sections -/

namespace Text

/-- A text consists of lines, all of them terminated: they are what stands between its line feeds,
and nothing comes after the last one. -/
def ConsistsOf (text : String) (lines : List String) : Prop :=
  pieces text = lines ++ [""]

theorem consistsOf_joined {lines : List String} (hlines : ∀ line ∈ lines, IsLine line) :
    ConsistsOf (joined lines) lines :=
  pieces_joined hlines

end Text

def definition (name value : String) : String :=
  "#define " ++ name ++ " " ++ value

/-- A section of a header with one definition for each of several names, of which exactly one has
the value one and the others have the value zero. -/
structure Text.Chooses (text : String) (names : List String) (chosen : String) : Prop where
  distinct : names.Nodup
  listed : chosen ∈ names
  lines : Text.ConsistsOf text
    (names.map fun name => definition name (if name = chosen then "1" else "0"))

theorem isLine_definition {name value : String} (hname : Text.IsLine name)
    (hvalue : Text.IsLine value) : Text.IsLine (definition name value) := by
  simp only [definition, Text.isLine_append]
  exact ⟨⟨⟨by decide, hname⟩, by decide⟩, hvalue⟩

theorem consistsOf_defineLines {α : Type} {items : List α} {name value : α → String}
    (hname : ∀ item ∈ items, Text.IsLine (name item))
    (hvalue : ∀ item ∈ items, Text.IsLine (value item)) :
    Text.ConsistsOf (String.join (items.map fun item => defineLine (name item) (value item)))
      (items.map fun item => definition (name item) (value item)) := by
  have hjoined : String.join (items.map fun item => defineLine (name item) (value item)) =
      Text.joined (items.map fun item => definition (name item) (value item)) := by
    rw [Text.joined, List.map_map]
    rfl
  rw [hjoined]
  refine Text.consistsOf_joined fun line hline => ?_
  obtain ⟨item, hitem, rfl⟩ := List.mem_map.mp hline
  exact isLine_definition (hname item hitem) (hvalue item hitem)

/-- One flag for each item of a list, set for one of them. -/
theorem chooses_flagLines {α : Type} [DecidableEq α] {items : List α} {chosen : α}
    {label : α → String} (hlabel : Function.Injective label) (hitems : items.Nodup)
    (hchosen : chosen ∈ items) (hlines : ∀ item ∈ items, Text.IsLine (label item)) :
    Text.Chooses (String.join (items.map fun item => flagLine (label item) (item == chosen)))
      (items.map label) (label chosen) where
  distinct := hitems.map hlabel
  listed := List.mem_map_of_mem hchosen
  lines := by
    have hflags : ∀ item, (if label item = label chosen then "1" else "0") =
        if item == chosen then "1" else "0" := by
      intro item
      simp only [hlabel.eq_iff, beq_iff_eq]
    rw [List.map_map]
    simp only [Function.comp_def, hflags]
    exact consistsOf_defineLines hlines fun item _ => by split <;> decide

/-! ## Techniques and stages -/

theorem Stage.defineName_injective : Function.Injective Stage.defineName := by
  have hall : ∀ stage ∈ Stage.all, ∀ other ∈ Stage.all,
      stage.defineName = other.defineName → stage = other := by
    decide +kernel
  intro stage other
  exact hall stage (Stage.mem_all stage) other (Stage.mem_all other)

theorem Stage.isLine_defineName (stage : Stage) : Text.IsLine stage.defineName := by
  cases stage <;> decide

theorem Settings.nodup_supportedStages (settings : Settings) : settings.supportedStages.Nodup :=
  List.Nodup.filter _ (show Stage.all.Nodup by decide)

namespace Program.MadeBy

variable {settings : Settings} {edits : List Edit} {program : Program} {technique : Technique}
  {stage : Stage}

theorem nodup_names (hprogram : program.MadeBy settings edits) :
    (program.techniques.map Technique.name).Nodup :=
  hprogram.techniques ▸ (Technique.names_ofBlocks _).1

/-- A technique has blocks for stages that the target can run only. -/
theorem supports_of_hasStage (hprogram : program.MadeBy settings edits)
    (htechnique : technique ∈ program.techniques) (hhas : technique.hasStage stage = true) :
    settings.supports stage = true := by
  obtain ⟨block, hblock⟩ := Option.isSome_iff_exists.mp hhas
  obtain ⟨hfinished, hkey⟩ := (hprogram.block?_eq_some_iff htechnique).mp hblock
  have hfits := (Draft.fits_of_trace hprogram.trace).stages block
  rw [Draft.allBlocks_of_none hprogram.closed] at hfits
  obtain rfl : block.stage = stage := (Prod.mk.inj hkey).2
  exact hfits hfinished

theorem chooses_techniqueSection (hprogram : program.MadeBy settings edits)
    (htechnique : technique ∈ program.techniques) :
    Text.Chooses (program.techniqueSection technique)
      (program.techniques.map fun other => "ANKI_TECHNIQUE_" ++ other.name)
      ("ANKI_TECHNIQUE_" ++ technique.name) := by
  have hlabel : Function.Injective ("ANKI_TECHNIQUE_" ++ ·) :=
    fun name other => (String.append_right_inj _).mp
  have hlines : ∀ name ∈ program.techniques.map Technique.name,
      Text.IsLine ("ANKI_TECHNIQUE_" ++ name) := by
    intro name hname
    obtain ⟨other, hother, rfl⟩ := List.mem_map.mp hname
    exact Text.isLine_append.mpr
      ⟨by decide, Text.isLine_of_isIdentifier (hprogram.isIdentifier_name hother)⟩
  have hchooses := chooses_flagLines hlabel hprogram.nodup_names
    (List.mem_map_of_mem htechnique) hlines
  rw [List.map_map, List.map_map] at hchooses
  exact hchooses

end Program.MadeBy

theorem Program.chooses_stageSection (program : Program) {stage : Stage}
    (hsupports : program.settings.supports stage = true) :
    Text.Chooses (program.stageSection stage)
      (program.settings.supportedStages.map fun other => "ANKI_" ++ other.defineName ++ "_SHADER")
      ("ANKI_" ++ stage.defineName ++ "_SHADER") := by
  have hlabel : Function.Injective fun stage : Stage => "ANKI_" ++ stage.defineName ++ "_SHADER" :=
    fun stage other hsame => Stage.defineName_injective
      ((String.append_right_inj _).mp ((String.append_left_inj _).mp hsame))
  refine chooses_flagLines hlabel program.settings.nodup_supportedStages
    (Settings.mem_supportedStages.mpr hsupports) fun other _ => ?_
  simp only [Text.isLine_append]
  exact ⟨⟨by decide, other.isLine_defineName⟩, by decide⟩

section

variable {σ κ : Type} {settings : Settings} {provider : Provider σ κ} {entry : String}
  {context : κ} {world : σ} {program : Program}

/-- A program keeps the settings that it was read with. -/
theorem settings_of_read
    (hread : (read settings provider entry context world).outcome = .ok program) :
    program.settings = settings := by
  obtain ⟨-, hprogram⟩ := walk_of_read hread
  obtain ⟨-, rfl⟩ := Program.of_ofDraft hprogram
  rfl

/-- Every variant identifies itself. For a program that was read, a technique of its own, a stage
that the technique has and a valid mutation there is a text. Its technique section has one line for
each technique, with different names, and the value one exactly for the given technique. Its stage
section has one line for each stage that the target can run, and the value one exactly for the given
stage. The text ends with the source of the block. -/
theorem exists_variant_and_chooses_of_read
    (hread : (read settings provider entry context world).outcome = .ok program)
    {technique : Technique} (htechnique : technique ∈ program.techniques) {stage : Stage}
    (hhas : technique.hasStage stage = true) {mutation : Mutation}
    (hvalid : program.space.isValid mutation = true) :
    ∃ source, technique.source? stage = some source ∧
      program.variant mutation technique stage = .ok (program.settingsSection ++
        program.mutatorSection mutation technique stage ++ program.techniqueSection technique ++
        program.stageSection stage ++ program.engineSection ++ source) ∧
      Text.Chooses (program.techniqueSection technique)
        (program.techniques.map fun other => "ANKI_TECHNIQUE_" ++ other.name)
        ("ANKI_TECHNIQUE_" ++ technique.name) ∧
      Text.Chooses (program.stageSection stage)
        (settings.supportedStages.map fun other => "ANKI_" ++ other.defineName ++ "_SHADER")
        ("ANKI_" ++ stage.defineName ++ "_SHADER") := by
  have hprogram := madeBy_of_read hread
  have hsettings := settings_of_read hread
  have hsupports := hprogram.supports_of_hasStage htechnique hhas
  obtain ⟨block, hblock⟩ := Option.isSome_iff_exists.mp hhas
  have hsource : technique.source? stage = some block.source := by
    rw [Technique.source?, hblock, Option.map_some]
  refine ⟨block.source, hsource, ?_, hprogram.chooses_techniqueSection htechnique, ?_⟩
  · rw [Program.variant_eq_ok hvalid hhas, Program.variantText, hsource, Option.getD_some]
  · rw [← hsettings] at hsupports ⊢
    exact program.chooses_stageSection hsupports

end

/-- Two techniques, one of them in an included file, of which the first one has two stages. -/
def sharedStages : Catalog where
  files :=
    [("main", "#pragma anki technique_start frag Lit\n#pragma anki technique_end frag Lit\n" ++
        "#include \"depth\"\n" ++
        "#pragma anki technique_start vert Lit\n#pragma anki technique_end vert Lit\n"),
     ("depth", "#pragma anki technique_start frag Depth\nint d;\n" ++
        "#pragma anki technique_end frag Depth\n")]

theorem exists_variant_and_chooses_sharedStages :
    ∃ program technique, (read {} sharedStages.provider "main" "" ()).outcome = .ok program ∧
      technique ∈ program.techniques ∧ technique.source? .fragment = some "int d;\n" ∧
      program.space.isValid [] = true ∧
      (∃ front, program.variant [] technique .fragment = .ok (front ++ "int d;\n")) ∧
      Text.ConsistsOf (program.techniqueSection technique)
        ["#define ANKI_TECHNIQUE_Lit 0", "#define ANKI_TECHNIQUE_Depth 1"] := by
  have hcheck : ((read {} sharedStages.provider "main" "" ()).outcome.toOption.any fun program =>
      program.techniques.any fun technique => decide (technique.name = "Depth" ∧
        (program.techniques.map fun other => "ANKI_TECHNIQUE_" ++ other.name) =
          ["ANKI_TECHNIQUE_Lit", "ANKI_TECHNIQUE_Depth"] ∧
        technique.hasStage .fragment = true ∧ technique.source? .fragment = some "int d;\n" ∧
        program.space.isValid [] = true)) = true := by
    decide +kernel
  obtain ⟨program, hprogram, htechniques⟩ := (Option.any_eq_true ..).mp hcheck
  obtain ⟨technique, htechnique, hfacts⟩ := List.any_eq_true.mp htechniques
  obtain ⟨hname, hnames, hhas, hsource, hvalid⟩ := of_decide_eq_true hfacts
  have hread := eq_ok_of_toOption hprogram
  obtain ⟨source, hsame, hvariant, hchooses, -⟩ :=
    exists_variant_and_chooses_of_read hread htechnique hhas hvalid
  obtain rfl : "int d;\n" = source := Option.some.inj (hsource.symm.trans hsame)
  rw [hnames, hname] at hchooses
  exact ⟨program, technique, hread, htechnique, hsource, hvalid, ⟨_, hvariant⟩, hchooses.lines⟩

end Ubershader
