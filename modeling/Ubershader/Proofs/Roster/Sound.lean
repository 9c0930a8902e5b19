import Ubershader.Proofs.Reading.IncludeOnce
import Ubershader.Proofs.Roster.Represents

/-!
# Rosters stay sound

What a roster keeps more than once agrees at every moment of every reading: a block is open by its
place exactly if it is open by its line, the place lies in the table and has a buffer, and the
stages of a technique are those that it has buffers for. So opening a stage never finds it open,
asking for a buffer never makes one, and the check for a block that is left open cannot miss one.

The edits of a reading that ends in a fault are followed by the ends of the include guards that are
still open, one for each such file, so moments are given by a part of the edits from the start and
a number of guards that are closed after it.
-/

namespace Ubershader

/-- What a roster keeps more than once agrees: the place with the line that opened a block, and the
set of stages of each technique with its buffers. -/
structure Roster.Sound (settings : Settings) (roster : Roster) : Prop where
  opened_iff : roster.opened.isSome = true ↔ ∃ index stage, roster.place = .entry index stage
  place : ∀ index stage, roster.place = .entry index stage →
    ∃ entry, roster.entries[index]? = some entry ∧ entry.stages.contains stage = true ∧
      (entry.buffers stage).isSome = true
  slots : ∀ entry ∈ roster.entries, ∀ stage,
    entry.stages.contains stage = true ↔ (entry.buffers stage).isSome = true
  inhabited : ∀ entry ∈ roster.entries, ∃ stage, entry.stages.contains stage = true
  names : (roster.entries.map Entry.name).Nodup
  identifiers : ∀ entry ∈ roster.entries, Text.isIdentifier entry.name = true
  supported : ∀ entry ∈ roster.entries, ∀ stage, entry.stages.contains stage = true →
    settings.supports stage = true
  rayType : ∀ value, roster.rayType = some value → value ≤ 128

/-- Asking for the buffer where lines go leaves the technique as it is. -/
theorem Roster.Sound.exists_provideBuffer_eq {settings : Settings} {roster : Roster}
    (hroster : roster.Sound settings) {index : Nat} {stage : Stage}
    (hplace : roster.place = .entry index stage) :
    ∃ entry, roster.entries[index]? = some entry ∧ entry.provideBuffer stage = entry := by
  obtain ⟨entry, hentry, -, hsome⟩ := hroster.place index stage hplace
  obtain ⟨buffer, hbuffer⟩ := Option.isSome_iff_exists.mp hsome
  have hsame : Function.update entry.buffers stage (some buffer) = entry.buffers := by
    rw [← hbuffer, Function.update_eq_self]
  refine ⟨entry, hentry, ?_⟩
  simp [Entry.provideBuffer, Entry.setBuffer, Entry.buffer, hbuffer, hsame]

/-! ## Drafts that fit the settings -/

/-- The stages of the blocks can be run, and the ray type is not too large. -/
structure Draft.Fits (settings : Settings) (draft : Draft) : Prop where
  stages : ∀ block ∈ draft.allBlocks, settings.supports block.stage = true
  rayType : ∀ value, draft.rayType = some value → value ≤ Command.maxRayType

namespace Draft

variable {settings : Settings} {draft : Draft}

theorem Fits.modifyCurrent (hdraft : draft.Fits settings) (change : Buffer → Buffer) :
    (draft.modifyCurrent change).Fits settings := by
  rw [Draft.modifyCurrent]
  split
  · exact { hdraft with }
  · next block hopen =>
    refine { hdraft with stages := ?_ }
    have hstages := hdraft.stages
    rw [allBlocks_of_some hopen] at hstages
    intro other hother
    obtain hold | hlast := List.mem_append.mp hother
    · exact hstages other (List.mem_append_left _ hold)
    · rw [List.mem_singleton.mp hlast]
      exact hstages block.close (by simp)

theorem Fits.apply (hdraft : draft.Fits settings) {edit : Edit}
    (hallows : draft.Allows settings edit) : (draft.apply edit).Fits settings := by
  cases hallows with
  | append line => exact hdraft.modifyCurrent (·.push line)
  | guard path => exact hdraft.modifyCurrent (·.guard path)
  | openBlock _ hopen _ _ hsupported =>
    refine { hdraft with stages := ?_ }
    have hstages := hdraft.stages
    rw [allBlocks_of_none hopen] at hstages
    intro other hother
    obtain hold | hlast := List.mem_append.mp hother
    · exact hstages other hold
    · rw [List.mem_singleton.mp hlast]
      exact hsupported
  | @closeBlock block _ hopen =>
    have hnext : draft.apply .closeBlock =
        { draft with blocks := draft.blocks ++ [block.close], openBlock := none } := by
      simp [Draft.apply, hopen]
    have hstages := hdraft.stages
    rw [allBlocks_of_some hopen] at hstages
    rw [hnext]
    refine { hdraft with stages := ?_ }
    rw [allBlocks_of_none rfl]
    exact hstages
  | setRayType _ _ hsmall =>
    refine { hdraft with rayType := ?_ }
    rintro _ ⟨⟩
    exact hsmall
  | addMutator => exact { hdraft with }
  | addSkip => exact { hdraft with }
  | addReplacement => exact { hdraft with }
  | openStruct => exact { hdraft with }
  | addMember => exact { hdraft with }
  | closeStruct => exact { hdraft with }
  | setLibrary => exact { hdraft with }
  | allowSixteenBit => exact { hdraft with }

theorem fits_of_trace {edits : List Edit} (trace : Trace settings edits) :
    (({} : Draft).applyAll edits).Fits settings :=
  trace.invariant ⟨by simp [allBlocks], by simp⟩ fun _ _ hallows hdraft => hdraft.apply hallows

theorem WellFormed.isIdentifier_technique (hdraft : draft.WellFormed) {block : Block}
    (hblock : block ∈ draft.allBlocks) : Text.isIdentifier block.technique = true := by
  obtain hold | hlast := List.mem_append.mp hblock
  · exact hdraft.identifiers block hold
  · obtain ⟨last, hopen, rfl⟩ := Option.map_eq_some_iff.mp (Option.mem_toList.mp hlast)
    exact hdraft.openIdentifier last hopen

/-- The library and the ray type of a draft stay as they are once they are set. -/
theorem library_and_rayType_apply {edit : Edit} (hallows : draft.Allows settings edit) :
    (∀ name, draft.library = some name → (draft.apply edit).library = some name) ∧
      ∀ value, draft.rayType = some value → (draft.apply edit).rayType = some value := by
  cases hallows with
  | append line | guard path =>
    simp only [Draft.apply, Draft.modifyCurrent]
    split <;> exact ⟨fun _ hset => hset, fun _ hset => hset⟩
  | closeBlock _ hopen =>
    simp only [Draft.apply, hopen]
    exact ⟨fun _ hset => hset, fun _ hset => hset⟩
  | setLibrary _ hunset => exact ⟨by simp [hunset], fun _ hset => hset⟩
  | setRayType _ hunset => exact ⟨fun _ hset => hset, by simp [hunset]⟩
  | _ => exact ⟨fun _ hset => hset, fun _ hset => hset⟩

end Draft

namespace Roster

variable {settings : Settings} {roster : Roster} {draft : Draft}

theorem Represents.exists_mem_allBlocks (hroster : roster.Represents draft) {entry : Entry}
    (hentry : entry ∈ roster.entries) :
    ∃ block ∈ draft.allBlocks, block.technique = entry.name := by
  rw [← Draft.mem_names, ← hroster.names]
  exact List.mem_map_of_mem hentry

/-- A roster that represents a draft is sound. -/
theorem Represents.sound (hroster : roster.Represents draft) (hdraft : draft.WellFormed)
    (hfits : draft.Fits settings) : roster.Sound settings where
  opened_iff := by
    have hblock := hroster.block
    cases hopen : draft.openBlock with
    | none =>
      rw [hopen] at hblock
      simp [hblock.1, hblock.2]
    | some block =>
      rw [hopen] at hblock
      obtain ⟨hopened, index, entry, hplace, -⟩ := hblock
      simp [hopened, hplace]
  place := by
    have hblock := hroster.block
    intro index stage hplace
    cases hopen : draft.openBlock with
    | none =>
      rw [hopen] at hblock
      simp [hblock.1] at hplace
    | some block =>
      rw [hopen] at hblock
      obtain ⟨-, _, entry, hheld, hentry, -, hbuffer⟩ := hblock
      rw [hplace] at hheld
      cases hheld
      have hslot := (hroster.entries entry (List.mem_of_getElem? hentry)).slots block.stage
      rw [hbuffer] at hslot
      exact ⟨entry, hentry, hslot, by rw [hbuffer]; rfl⟩
  slots := by
    intro entry hentry stage
    rw [(hroster.entries entry hentry).slots]
  inhabited := by
    intro entry hentry
    obtain ⟨block, hblock, htechnique⟩ := hroster.exists_mem_allBlocks hentry
    refine ⟨block.stage, ?_⟩
    rw [(hroster.entries entry hentry).contains_eq, Draft.block?, List.find?_isSome]
    exact ⟨block, hblock, by simp [Block.key, htechnique]⟩
  names := hroster.nodup_names
  identifiers := by
    intro entry hentry
    obtain ⟨block, hblock, htechnique⟩ := hroster.exists_mem_allBlocks hentry
    rw [← htechnique]
    exact hdraft.isIdentifier_technique hblock
  supported := by
    intro entry hentry stage hstage
    rw [(hroster.entries entry hentry).contains_eq, Option.isSome_iff_exists] at hstage
    obtain ⟨block, hfound⟩ := hstage
    have hkey := List.find?_some hfound
    have hown : block.stage = stage := congrArg Prod.snd (of_decide_eq_true hkey)
    rw [← hown]
    exact hfits.stages block (List.mem_of_find?_eq_some hfound)
  rayType := by
    rw [hroster.rayType]
    exact hfits.rayType

end Roster

/-! ## Techniques by their names -/

namespace Program

variable {program : Program} {name : String}

/-- The technique that is found under a name is the only one of that name. -/
theorem technique?_eq_some_iff (hnames : (program.techniques.map Technique.name).Nodup)
    {technique : Technique} :
    program.technique? name = some technique ↔
      technique ∈ program.techniques ∧ technique.name = name := by
  constructor
  · intro hfound
    exact ⟨List.mem_of_find?_eq_some hfound, by simpa using List.find?_some hfound⟩
  · rintro ⟨hmem, hname⟩
    cases hfound : program.technique? name with
    | none => simpa [hname] using List.find?_eq_none.mp hfound technique hmem
    | some other =>
      have hother : other.name = name := by simpa using List.find?_some hfound
      rw [List.inj_on_of_nodup_map hnames (List.mem_of_find?_eq_some hfound) hmem
        (hother.trans hname.symm)]

/-- The position that is found under a name is the only one with a technique of that name. -/
theorem techniqueIndex?_eq_some_iff (hnames : (program.techniques.map Technique.name).Nodup)
    {index : Nat} :
    program.techniqueIndex? name = some index ↔
      ∃ technique, program.techniques[index]? = some technique ∧ technique.name = name := by
  constructor
  · intro hfound
    obtain ⟨hindex, hname, -⟩ := List.findIdx?_eq_some_iff_getElem.mp hfound
    exact ⟨_, List.getElem?_eq_getElem hindex, beq_iff_eq.mp hname⟩
  · rintro ⟨technique, htechnique, hname⟩
    cases hfound : program.techniqueIndex? name with
    | none =>
      simpa [hname] using
        List.findIdx?_eq_none_iff.mp hfound technique (List.mem_of_getElem? htechnique)
    | some other =>
      obtain ⟨hother, hotherName, -⟩ := List.findIdx?_eq_some_iff_getElem.mp hfound
      have hlt : other < (program.techniques.map Technique.name).length := by simpa using hother
      have hsame : (program.techniques.map Technique.name)[other]? =
          (program.techniques.map Technique.name)[index]? := by
        rw [List.getElem?_map, List.getElem?_map, htechnique, List.getElem?_eq_getElem hother,
          Option.map_some, Option.map_some, beq_iff_eq.mp hotherName, hname]
      rw [(List.getElem?_inj hlt hnames).mp hsame]

end Program

section

variable {σ κ : Type} (settings : Settings) (provider : Provider σ κ) (entry : String)
  (context : κ) (world : σ)

/-- At every moment of a reading the edits up to there can be replayed on a roster. It is sound,
it represents the draft, and asking for the buffer where lines go does not make one. The library
and the ray type stay as they are once they are set. A reading that gives a program ends with no
block open, and each name that finds a technique or its position finds the only one there is. -/
theorem sound_of_read :
    (∀ front, front <+: (read settings provider entry context world).session.edits → ∀ count,
      ∃ roster, Roster.applyAll {} (front ++ List.replicate count (.append .guardClose)) =
          .ok roster ∧
        roster.Sound settings ∧
        roster.Represents
          (({} : Draft).applyAll (front ++ List.replicate count (.append .guardClose))) ∧
        ∀ index stage, roster.place = .entry index stage →
          ∃ entry, roster.entries[index]? = some entry ∧ entry.provideBuffer stage = entry) ∧
    (∀ front back, front <+: back →
      back <+: (read settings provider entry context world).session.edits →
      ∀ earlier later, Roster.applyAll {} front = .ok earlier →
        Roster.applyAll {} back = .ok later →
        (earlier.library.isSome = true → later.library = earlier.library) ∧
          (earlier.rayType.isSome = true → later.rayType = earlier.rayType)) ∧
    ∀ program, (read settings provider entry context world).outcome = .ok program →
      (∃ roster, Roster.applyAll {} (read settings provider entry context world).session.edits =
          .ok roster ∧
        roster.finish settings entry = .ok program.inPipelineOrder ∧
        roster.place = .common ∧ roster.opened = none) ∧
      ∀ name,
        (∀ technique, program.technique? name = some technique ↔
          technique ∈ program.techniques ∧ technique.name = name) ∧
        ∀ index, program.techniqueIndex? name = some index ↔
          ∃ technique, program.techniques[index]? = some technique ∧ technique.name = name := by
  have trace := trace_read settings provider entry context world
  refine ⟨?_, ?_, ?_⟩
  · rintro front ⟨back, hback⟩ count
    have hmoment : Trace settings (front ++ List.replicate count (.append .guardClose)) := by
      have hfront : Trace settings front := (hback ▸ trace).of_append
      simpa using hfront.append_lines (List.replicate count .guardClose)
    obtain ⟨roster, hroster, hrepresents⟩ := Roster.exists_applyAll_of_trace hmoment
    have hsound := hrepresents.sound (Draft.wellFormed_of_trace hmoment)
      (Draft.fits_of_trace hmoment)
    exact ⟨roster, hroster, hsound, hrepresents, fun _ _ hplace =>
      hsound.exists_provideBuffer_eq hplace⟩
  · rintro front back ⟨middle, rfl⟩ ⟨rest, hrest⟩ earlier later hearlier hlater
    have hwhole : Trace settings (front ++ middle) := (hrest ▸ trace).of_append
    obtain ⟨_, hfirst, hfront⟩ := Roster.exists_applyAll_of_trace hwhole.of_append
    obtain ⟨_, hsecond, hback⟩ := Roster.exists_applyAll_of_trace hwhole
    cases hearlier.symm.trans hfirst
    cases hlater.symm.trans hsecond
    rw [hfront.library, hback.library, hfront.rayType, hback.rayType]
    constructor
    · intro hset
      obtain ⟨name, hname⟩ := Option.isSome_iff_exists.mp hset
      rw [hname]
      exact hwhole.invariant_from (fun draft => draft.library = some name) hname
        fun draft edit hallows => (draft.library_and_rayType_apply hallows).1 name
    · intro hset
      obtain ⟨value, hvalue⟩ := Option.isSome_iff_exists.mp hset
      rw [hvalue]
      exact hwhole.invariant_from (fun draft => draft.rayType = some value) hvalue
        fun draft edit hallows => (draft.library_and_rayType_apply hallows).2 value
  · intro program hprogram
    have hmade := madeBy_of_read hprogram
    have hnames : (program.techniques.map Technique.name).Nodup := by
      rw [hmade.techniques]
      exact (Technique.names_ofBlocks _).1
    refine ⟨?_, fun name => ⟨fun technique => Program.technique?_eq_some_iff hnames,
      fun index => Program.techniqueIndex?_eq_some_iff hnames⟩⟩
    obtain ⟨roster, hroster, hrepresents⟩ := Roster.exists_applyAll_of_trace trace
    have hblock := hrepresents.block
    rw [hmade.closed] at hblock
    refine ⟨roster, hroster, ?_, hblock.1, hblock.2⟩
    rw [hrepresents.finish_eq (Draft.wellFormed_of_trace trace), ← draft_eq_applyAll_edits,
      (walk_of_read hprogram).2]
    rfl

end

/-- A block that is opened in one file and closed in another, and a second stage after it. -/
def handedOverBlock : Catalog where
  files :=
    [("main", "#include \"start\"\nint m;\n#pragma anki technique_end vert Lit\n" ++
        "#pragma anki technique_start frag Lit\n#pragma anki technique_end frag Lit\n"),
     ("start", "#pragma once\n#pragma anki technique_start vert Lit\nint s;\n")]

theorem sound_of_read_handedOverBlock :
    (∃ roster, Roster.applyAll {}
        ((read {} handedOverBlock.provider "main" "" ()).session.edits.take 5) = .ok roster ∧
      roster.Sound {} ∧ roster.place = .entry 0 .vertex) ∧
    ∃ program technique, (read {} handedOverBlock.provider "main" "" ()).outcome = .ok program ∧
      program.techniques[0]? = some technique ∧ technique.name = "Lit" ∧
      program.technique? "Lit" = some technique ∧ program.techniqueIndex? "Lit" = some 0 := by
  obtain ⟨hmoments, -, hprogram⟩ := sound_of_read {} handedOverBlock.provider "main" "" ()
  constructor
  · obtain ⟨roster, hroster, hsound, -⟩ := hmoments _ (List.take_prefix 5
      (read {} handedOverBlock.provider "main" "" ()).session.edits) 0
    rw [List.replicate_zero, List.append_nil] at hroster
    have hplace : (Roster.applyAll {}
        ((read {} handedOverBlock.provider "main" "" ()).session.edits.take 5)).toOption.map
          Roster.place = some (.entry 0 .vertex) := by
      decide +kernel
    rw [hroster] at hplace
    exact ⟨roster, hroster, hsound, Option.some.inj hplace⟩
  · have hcheck : ((read {} handedOverBlock.provider "main" "" ()).outcome.toOption.any
        fun program => program.techniques[0]?.any fun technique => technique.name = "Lit") =
          true := by
      decide +kernel
    obtain ⟨program, hread, htechnique⟩ := (Option.any_eq_true ..).mp hcheck
    obtain ⟨technique, hfirst, hname⟩ := (Option.any_eq_true ..).mp htechnique
    have houtcome := eq_ok_of_toOption hread
    obtain ⟨-, hnames⟩ := hprogram program houtcome
    obtain ⟨hfound, hindex⟩ := hnames "Lit"
    refine ⟨program, technique, houtcome, hfirst, of_decide_eq_true hname, ?_, ?_⟩
    · exact (hfound technique).mpr ⟨List.mem_of_getElem? hfirst, of_decide_eq_true hname⟩
    · exact (hindex 0).mpr ⟨technique, hfirst, of_decide_eq_true hname⟩

end Ubershader
