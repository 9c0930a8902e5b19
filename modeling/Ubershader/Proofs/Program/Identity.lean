import Ubershader.Program.Variant
import Ubershader.Proofs.Reading.Outcome
import Ubershader.Proofs.Space.ByteForm
import Ubershader.Provider.Catalog

/-!
# What the byte form of a program tells

Programs with the same byte form are alike in everything that is laid out there, apart from their
spaces: those are equal exactly when their mutators have equally many values. When the spaces are
equal too, all variants have the same text, so that the byte form can stand for the program in a
cache of variants.

There are programs with the same byte form and different spaces, because the values of a mutator
are laid out without their number.
-/

namespace Ubershader

/-- Techniques that cannot be told apart by their variants. Where their blocks stand in the lists
does not matter. -/
structure Technique.Alike (left right : Technique) : Prop where
  name : left.name = right.name
  stages : left.stages = right.stages
  activeMutators : ∀ stage, left.activeMutators stage = right.activeMutators stage
  source : ∀ stage, left.source? stage = right.source? stage

/-- Settings that differ in how files are read and whether lines are marked, at most. -/
structure Settings.Alike (left right : Settings) : Prop where
  defines : left.defines = right.defines
  maxBindlessTextures : left.maxBindlessTextures = right.maxBindlessTextures
  maxBindlessReadonlyTextureBuffers :
    left.maxBindlessReadonlyTextureBuffers = right.maxBindlessReadonlyTextureBuffers
  mobilePlatform : left.mobilePlatform = right.mobilePlatform
  fullPrecision : left.fullPrecision = right.fullPrecision
  rayTracing : left.rayTracing = right.rayTracing
  meshShaders : left.meshShaders = right.meshShaders

/-- Programs that are alike in everything but their spaces. Of the spaces only the bytes go into the
fingerprint, and these are compared apart. -/
structure Program.Alike (left right : Program) : Prop where
  common : left.commonSource = right.commonSource
  techniques : List.Forall₂ Technique.Alike left.techniques right.techniques
  library : left.library = right.library
  rayType : left.rayType = right.rayType
  sixteenBit : left.sixteenBit = right.sixteenBit
  settings : left.settings.Alike right.settings

/-! ## Variants of programs that are alike -/

theorem Technique.map_name_eq {lefts rights : List Technique}
    (halike : List.Forall₂ Alike lefts rights) : lefts.map name = rights.map name := by
  induction halike with
  | nil => rfl
  | cons hhead _ ih => rw [List.map_cons, List.map_cons, hhead.name, ih]

namespace Program

theorem mutatorLines_eq {technique other : Technique} (halike : technique.Alike other)
    (stage : Stage) (index : Nat) (mutators : List Mutator) (mutation : Mutation) :
    mutatorLines technique stage index mutators mutation =
      mutatorLines other stage index mutators mutation := by
  have huses : ∀ index, technique.usesMutator stage index = other.usesMutator stage index := by
    intro index
    rw [Technique.usesMutator, Technique.usesMutator, halike.activeMutators]
  induction mutators generalizing index mutation with
  | nil => rfl
  | cons mutator mutators ih =>
    cases mutation with
    | nil => rfl
    | cons value mutation => simp only [mutatorLines, huses, ih]

theorem Alike.variant_eq {left right : Program} (halike : left.Alike right)
    (hspace : left.space = right.space) {technique other : Technique}
    (htechnique : technique.Alike other) (mutation : Mutation) (stage : Stage) :
    left.variant mutation technique stage = right.variant mutation other stage := by
  have htechniques : left.techniqueSection technique = right.techniqueSection other := by
    have hsection : ∀ program : Program, program.techniqueSection technique =
        String.join ((program.techniques.map Technique.name).map fun name =>
          flagLine ("ANKI_TECHNIQUE_" ++ name) (name == technique.name)) := by
      intro program
      rw [techniqueSection, List.map_map]
      rfl
    have hother : right.techniqueSection other = right.techniqueSection technique := by
      rw [techniqueSection, techniqueSection, htechnique.name]
    rw [hother, hsection, hsection, Technique.map_name_eq halike.techniques]
  have hsupports : left.settings.supportedStages = right.settings.supportedStages := by
    refine List.filter_congr fun stage _ => ?_
    rw [Settings.supports, Settings.supports, halike.settings.rayTracing,
      halike.settings.meshShaders]
  have hstage : technique.hasStage stage = other.hasStage stage := by
    have hsome := congrArg Option.isSome (htechnique.source stage)
    simpa [Technique.source?, Technique.hasStage] using hsome
  have htext : left.variantText mutation technique stage =
      right.variantText mutation other stage := by
    simp only [variantText, settingsSection, mutatorSection, stageSection, engineSection,
      htechniques, hsupports, hspace, mutatorLines_eq htechnique, htechnique.source,
      halike.settings.defines, halike.settings.maxBindlessTextures,
      halike.settings.maxBindlessReadonlyTextureBuffers, halike.settings.mobilePlatform,
      halike.settings.fullPrecision, halike.sixteenBit]
  simp only [variant, hspace, hstage, htext, htechnique.name]

end Program

/-! ## Reading the byte form back -/

theorem length_le_length_flatMap {α : Type} {encode : α → List UInt8} {x : α} {xs : List α}
    (hx : x ∈ xs) : (encode x).length ≤ (xs.flatMap encode).length := by
  rw [List.flatMap_def]
  exact (List.sublist_flatten_of_mem (List.mem_map_of_mem hx)).length_le

namespace Technique

theorem stageBytes_append_inj {left right : Technique} {stages : List Stage} {s t : List UInt8}
    (hleft : ∀ stage ∈ stages, (left.stageBytes stage).length < UInt64.size)
    (hright : ∀ stage ∈ stages, (right.stageBytes stage).length < UInt64.size)
    (hbytes : stages.flatMap left.stageBytes ++ s = stages.flatMap right.stageBytes ++ t) :
    (∀ stage ∈ stages, left.activeMutators stage = right.activeMutators stage ∧
      (left.source? stage).getD "" = (right.source? stage).getD "") ∧ s = t := by
  induction stages with
  | nil => exact ⟨by simp, hbytes⟩
  | cons stage stages ih =>
    obtain ⟨hleftSize, hleft⟩ := List.forall_mem_cons.mp hleft
    obtain ⟨hrightSize, hright⟩ := List.forall_mem_cons.mp hright
    simp only [stageBytes, List.length_append, Bytes.length_framed, length_littleEndian]
      at hleftSize hrightSize
    simp only [List.flatMap_cons, List.append_assoc, stageBytes] at hbytes
    have hmaskSize : ∀ mask : MutatorMask,
        (littleEndian 8 mask.toNat).length < UInt64.size := by
      intro mask
      rw [length_littleEndian]
      decide
    obtain ⟨hmask, hafter⟩ := Bytes.framed_append_inj (hmaskSize _) (hmaskSize _) hbytes
    obtain ⟨hsource, hrest⟩ := Bytes.framed_ofString_append_inj (by omega) (by omega) hafter
    obtain ⟨hlater, hends⟩ := ih hleft hright hrest
    have hactive : left.activeMutators stage = right.activeMutators stage :=
      BitVec.eq_of_toNat_eq (littleEndian_inj (BitVec.isLt _) (BitVec.isLt _) hmask)
    exact ⟨List.forall_mem_cons.mpr ⟨⟨hactive, hsource⟩, hlater⟩, hends⟩

/-- Techniques with the same stages are alike if they are so at those stages. -/
theorem alike_of_stages {left right : Technique} (hname : left.name = right.name)
    (hstages : left.stages = right.stages)
    (hblocks : ∀ stage ∈ left.stages.toList,
      left.activeMutators stage = right.activeMutators stage ∧
        (left.source? stage).getD "" = (right.source? stage).getD "") : left.Alike right := by
  have hsame : ∀ stage, left.hasStage stage = right.hasStage stage := by
    intro stage
    rw [← contains_stages, ← contains_stages, hstages]
  have hboth : ∀ stage, left.activeMutators stage = right.activeMutators stage ∧
      left.source? stage = right.source? stage := by
    intro stage
    have hright := hsame stage
    cases hleft : left.hasStage stage with
    | true =>
      have hmem : stage ∈ left.stages.toList := by
        rw [StageSet.mem_toList, contains_stages, hleft]
      obtain ⟨hactive, hsource⟩ := hblocks stage hmem
      rw [hleft] at hright
      obtain ⟨block, hblock⟩ := Option.isSome_iff_exists.mp hleft
      obtain ⟨other, hother⟩ := Option.isSome_iff_exists.mp hright.symm
      refine ⟨hactive, ?_⟩
      simpa [source?, hblock, hother] using hsource
    | false =>
      rw [hleft] at hright
      have hblock : left.block? stage = none := by simpa [hasStage] using hleft
      have hother : right.block? stage = none := by simpa [hasStage] using hright.symm
      simp [activeMutators, source?, hblock, hother]
  exact ⟨hname, hstages, fun stage => (hboth stage).1, fun stage => (hboth stage).2⟩

/-- The byte form of a technique can be read back. -/
theorem bytes_append_inj {left right : Technique} {s t : List UInt8}
    (hleft : left.bytes.length < UInt64.size) (hright : right.bytes.length < UInt64.size)
    (hbytes : left.bytes ++ s = right.bytes ++ t) : left.Alike right ∧ s = t := by
  simp only [bytes, List.length_append, Bytes.length_framed, length_littleEndian]
    at hleft hright
  simp only [bytes, List.append_assoc] at hbytes
  obtain ⟨hname, hafter⟩ := Bytes.framed_ofString_append_inj (by omega) (by omega) hbytes
  obtain ⟨hbits, hsources⟩ := littleEndian_append_inj (BitVec.isLt _) (BitVec.isLt _) hafter
  have hstages : left.stages = right.stages :=
    congrArg StageSet.mk (BitVec.eq_of_toNat_eq hbits)
  rw [← hstages] at hsources hright
  have hsize : ∀ technique : Technique,
      (left.stages.toList.flatMap technique.stageBytes).length < UInt64.size →
        ∀ stage ∈ left.stages.toList, (technique.stageBytes stage).length < UInt64.size :=
    fun technique hlength stage hstage =>
      Nat.lt_of_le_of_lt (length_le_length_flatMap hstage) hlength
  obtain ⟨hblocks, hends⟩ := stageBytes_append_inj (hsize left (by omega))
    (hsize right (by omega)) hsources
  exact ⟨alike_of_stages hname hstages hblocks, hends⟩

end Technique

theorem Define.bytes_append_inj {left right : Define} {s t : List UInt8}
    (hleft : left.bytes.length < UInt64.size) (hright : right.bytes.length < UInt64.size)
    (hbytes : left.bytes ++ s = right.bytes ++ t) : left = right ∧ s = t := by
  obtain ⟨name, value⟩ := left
  obtain ⟨otherName, otherValue⟩ := right
  simp only [bytes, List.length_append, Bytes.length_framed] at hleft hright
  simp only [bytes, List.append_assoc] at hbytes
  obtain ⟨rfl, hafter⟩ := Bytes.framed_ofString_append_inj (by omega) (by omega) hbytes
  obtain ⟨rfl, hrest⟩ := Bytes.ofInt32_append_inj hafter
  exact ⟨rfl, hrest⟩

/-- The byte form of settings can be read back, from its end: what follows the definitions has a
fixed length. -/
theorem Settings.alike_of_bytes_eq {left right : Settings} (hsize : left.bytes.length < UInt64.size)
    (hbytes : left.bytes = right.bytes) : left.Alike right := by
  have hother : right.bytes.length < UInt64.size := hbytes ▸ hsize
  simp only [bytes, List.append_assoc] at hbytes hsize hother
  rw [List.length_append] at hsize hother
  -- A definition takes twelve bytes at least, so it does not fit into what follows the list.
  have hends : ∀ (define : Define) (bytes tail : List UInt8), 12 ≤ bytes.length →
      tail.length = 12 → define.bytes ++ bytes ≠ tail := by
    intro define bytes tail hlength htail heq
    have := congrArg List.length heq
    simp [Define.bytes] at this
    omega
  obtain ⟨hdefines, htail⟩ := flatMap_append_inj (fun bytes => 12 ≤ bytes.length)
    (fun define bytes hlength => by simp; omega)
    (fun x hx y hy s t _ _ => Define.bytes_append_inj
      (Nat.lt_of_le_of_lt (length_le_length_flatMap hx) (by omega))
      (Nat.lt_of_le_of_lt (length_le_length_flatMap hy) (by omega)))
    (fun x _ bytes hlength => hends x bytes _ hlength (by simp))
    (fun y _ bytes hlength => hends y bytes _ hlength (by simp)) (by simp) (by simp) hbytes
  obtain ⟨htextures, htail⟩ := Bytes.ofUInt32_append_inj htail
  obtain ⟨hbuffers, htail⟩ := Bytes.ofUInt32_append_inj htail
  obtain ⟨hmobile, htail⟩ := Bytes.ofBool_append_inj htail
  obtain ⟨hprecision, htail⟩ := Bytes.ofBool_append_inj htail
  obtain ⟨hrayTracing, htail⟩ := Bytes.ofBool_append_inj htail
  obtain ⟨hmeshShaders, -⟩ := Bytes.ofBool_append_inj (congrArg (· ++ []) htail)
  exact ⟨by simpa using hdefines, htextures, hbuffers, hmobile, hprecision, hrayTracing,
    hmeshShaders⟩

/-- A technique is not mistaken for the space, which stands behind the techniques: its name is not
empty and has no zero. -/
theorem Technique.bytes_append_ne_framed {technique : Technique} {space : Space}
    (hname : Text.isIdentifier technique.name = true) (hspace : space.WellFormed)
    (htechnique : technique.bytes.length < UInt64.size) (hsize : space.bytes.length < UInt64.size)
    (s t : List UInt8) : technique.bytes ++ s ≠ Bytes.framed space.bytes ++ t := by
  intro hbytes
  simp only [bytes, List.length_append, Bytes.length_framed] at htechnique
  simp only [bytes, List.append_assoc] at hbytes
  obtain ⟨hfield, -⟩ := Bytes.framed_append_inj (by omega) hsize hbytes
  have hzero := hspace.zero_mem_bytes (hfield ▸ Text.ofString_ne_nil hname)
  exact Text.zero_notMem_ofString hname (hfield ▸ hzero)

namespace Program

variable {left right : Program} {settings otherSettings : Settings} {edits otherEdits : List Edit}

/-- Programs with the same byte form are alike, and their spaces have the same byte form. -/
theorem alike_of_bytes_eq (hleft : left.MadeBy settings edits)
    (hright : right.MadeBy otherSettings otherEdits) (hsize : left.bytes.length < UInt64.size)
    (hbytes : left.bytes = right.bytes) :
    left.Alike right ∧ left.space.bytes = right.space.bytes := by
  have hother : right.bytes.length < UInt64.size := hbytes ▸ hsize
  simp only [bytes, List.length_append, Bytes.length_framed] at hsize hother
  simp only [bytes, List.append_assoc] at hbytes
  have htail := List.append_cancel_left hbytes
  obtain ⟨hcommon, htail⟩ := Bytes.framed_ofString_append_inj (by omega) (by omega) htail
  have hleftSize : ∀ technique ∈ left.techniques, technique.bytes.length < UInt64.size :=
    fun technique hmem => Nat.lt_of_le_of_lt (length_le_length_flatMap hmem) (by omega)
  have hrightSize : ∀ technique ∈ right.techniques, technique.bytes.length < UInt64.size :=
    fun technique hmem => Nat.lt_of_le_of_lt (length_le_length_flatMap hmem) (by omega)
  obtain ⟨htechniques, htail⟩ := flatMap_append_inj (fun _ => True) (fun _ _ _ => trivial)
    (fun x hx y hy s t _ _ => Technique.bytes_append_inj (hleftSize x hx) (hrightSize y hy))
    (fun x hx s _ => Technique.bytes_append_ne_framed (hleft.isIdentifier_name hx)
      hright.space_wellFormed (hleftSize x hx) (by omega) s _)
    (fun y hy t _ => Technique.bytes_append_ne_framed (hright.isIdentifier_name hy)
      hleft.space_wellFormed (hrightSize y hy) (by omega) t _) trivial trivial htail
  obtain ⟨hspace, htail⟩ := Bytes.framed_append_inj (by omega) (by omega) htail
  obtain ⟨hsixteenBit, htail⟩ := Bytes.ofBool_append_inj htail
  obtain ⟨hlibrary, htail⟩ := Bytes.framed_ofString_append_inj (by omega) (by omega) htail
  obtain ⟨hisSome, htail⟩ := Bytes.ofBool_append_inj htail
  obtain ⟨hray, htail⟩ := Bytes.ofUInt32_append_inj htail
  have hrayType : left.rayType = right.rayType := by
    cases hl : left.rayType <;> cases hr : right.rayType <;> simp_all
  refine ⟨⟨hcommon, htechniques, ?_, hrayType, hsixteenBit, ?_⟩, hspace⟩
  · -- The name of a library is not empty, so no library has a byte form of its own.
    have hl := hleft.library_ne_empty
    have hr := hright.library_ne_empty
    cases hlib : left.library <;> cases hlib' : right.library <;> simp_all
  · exact Settings.alike_of_bytes_eq (by omega) htail

end Program

section

variable {σ κ σ' κ' : Type} {settings otherSettings : Settings} {provider : Provider σ κ}
  {otherProvider : Provider σ' κ'} {entry otherEntry : String} {context : κ} {otherContext : κ'}
  {world : σ} {otherWorld : σ'} {left right : Program}

/-- What equal byte forms say about two programs that were read, from whatever files and with
whatever settings: the programs are alike, and their spaces are equal if and only if their mutators
have equally many values. If the spaces are equal, corresponding techniques have the same variants
under all mutations and for all stages. A byte form that fits in memory is short enough. -/
theorem alike_and_space_eq_iff_of_bytes_eq
    (hleft : (read settings provider entry context world).outcome = .ok left)
    (hright : (read otherSettings otherProvider otherEntry otherContext otherWorld).outcome =
      .ok right)
    (hsize : left.bytes.length < UInt64.size) (hbytes : left.bytes = right.bytes) :
    left.Alike right ∧
      (left.space = right.space ↔ left.space.valueCounts = right.space.valueCounts) ∧
      (left.space = right.space → List.Forall₂ (fun technique other => ∀ mutation stage,
        left.variant mutation technique stage = right.variant mutation other stage)
        left.techniques right.techniques) := by
  have hleftMade := madeBy_of_read hleft
  have hrightMade := madeBy_of_read hright
  obtain ⟨halike, hspace⟩ := Program.alike_of_bytes_eq hleftMade hrightMade hsize hbytes
  refine ⟨halike, ⟨fun heq => by rw [heq], fun hcounts => ?_⟩, fun heq => ?_⟩
  · exact Space.eq_of_bytes_eq hleftMade.space_wellFormed hrightMade.space_wellFormed hcounts hspace
  · exact halike.techniques.imp fun _ _ htechnique => halike.variant_eq heq htechnique

end

/-- A mutator with two values, and one with a name that is read as the four bytes of a value. -/
def twoMutators : Catalog where
  files :=
    [("main", "#pragma anki mutator A 0 1\n#pragma anki mutator FOO 6000000 6000001\n" ++
        "#pragma anki technique_start comp\n#pragma anki technique_end comp\n")]

/-- One mutator that has that value, and the values of the second mutator. -/
def oneMutator : Catalog where
  files :=
    [("main", "#pragma anki mutator A 0 1 5197638 6000000 6000001\n" ++
        "#pragma anki technique_start comp\n#pragma anki technique_end comp\n")]

theorem exists_bytes_eq_and_valueCounts_ne :
    ∃ left right, (read {} twoMutators.provider "main" "" ()).outcome = .ok left ∧
      (read {} oneMutator.provider "main" "" ()).outcome = .ok right ∧
      left.bytes.length < UInt64.size ∧ left.bytes = right.bytes ∧
      left.space.valueCounts ≠ right.space.valueCounts := by
  have hcheck : ((read {} twoMutators.provider "main" "" ()).outcome.toOption.any fun left =>
      (read {} oneMutator.provider "main" "" ()).outcome.toOption.any fun right =>
        decide (left.bytes.length < UInt64.size ∧ left.bytes = right.bytes ∧
          left.space.valueCounts ≠ right.space.valueCounts)) = true := by
    decide +kernel
  obtain ⟨left, hleft, hothers⟩ := (Option.any_eq_true ..).mp hcheck
  obtain ⟨right, hright, hfacts⟩ := (Option.any_eq_true ..).mp hothers
  exact ⟨left, right, eq_ok_of_toOption hleft, eq_ok_of_toOption hright, of_decide_eq_true hfacts⟩

theorem alike_and_space_eq_iff_of_bytes_eq_oneMutator :
    ∃ left right, (read {} twoMutators.provider "main" "" ()).outcome = .ok left ∧
      (read {} oneMutator.provider "main" "" ()).outcome = .ok right ∧
      left.bytes.length < UInt64.size ∧ left.bytes = right.bytes ∧ left.Alike right ∧
      (left.space = right.space ↔ left.space.valueCounts = right.space.valueCounts) ∧
      (left.space = right.space → List.Forall₂ (fun technique other => ∀ mutation stage,
        left.variant mutation technique stage = right.variant mutation other stage)
        left.techniques right.techniques) := by
  obtain ⟨left, right, hleft, hright, hsize, hbytes, -⟩ := exists_bytes_eq_and_valueCounts_ne
  exact ⟨left, right, hleft, hright, hsize, hbytes,
    alike_and_space_eq_iff_of_bytes_eq hleft hright hsize hbytes⟩

/-- Two programs can have one fingerprint and different mutators. -/
theorem exists_fingerprint_eq_and_mutators_ne :
    ∃ left right, (read {} twoMutators.provider "main" "" ()).outcome = .ok left ∧
      (read {} oneMutator.provider "main" "" ()).outcome = .ok right ∧
      left.bytes = right.bytes ∧ left.fingerprint = right.fingerprint ∧
      left.space.mutators ≠ right.space.mutators := by
  obtain ⟨left, right, hleft, hright, -, hbytes, hcounts⟩ := exists_bytes_eq_and_valueCounts_ne
  refine ⟨left, right, hleft, hright, hbytes, congrArg checksum hbytes, ?_⟩
  intro hmutators
  exact hcounts (by rw [Space.valueCounts, Space.valueCounts, hmutators])

end Ubershader
