import Ubershader.Proofs.Checksum
import Ubershader.Proofs.Program.Identity
import Ubershader.Provider.Catalog

/-!
# What the fingerprint notices

The fingerprint of a program is a checksum, so it cannot tell all programs apart. It never misses a
change of one field, though, as long as the field takes eight bytes in a row or less: a number, a
flag, the ray type, the mask of a stage, or one value of a mutator.

`ChangesTo` says what such a change is, for each noun that has a byte form of its own. The byte
form of the whole then differs where that of the part does.
-/

namespace Ubershader

/-! ## Fields of the byte form -/

namespace Bytes

theorem differLocally_ofUInt32 {word other : UInt32} (hne : word ≠ other) :
    DifferLocally (ofUInt32 word) (ofUInt32 other) := by
  refine .of_short (by simp) (by simp) ?_
  intro hbytes
  exact hne (ofUInt32_append_inj (congrArg (· ++ []) hbytes)).1

theorem differLocally_ofInt32 {word other : Int32} (hne : word ≠ other) :
    DifferLocally (ofInt32 word) (ofInt32 other) := by
  refine .of_short (by simp) (by simp) ?_
  intro hbytes
  exact hne (ofInt32_append_inj (congrArg (· ++ []) hbytes)).1

theorem differLocally_ofBool {flag other : Bool} (hne : flag ≠ other) :
    DifferLocally (ofBool flag) (ofBool other) := by
  refine .of_short (by simp) (by simp) ?_
  intro hbytes
  exact hne (ofBool_append_inj (congrArg (· ++ []) hbytes)).1

end Bytes

/-- A list differs where one of its items does. -/
theorem DifferLocally.flatMap {α : Type} {encode : α → List UInt8} {item other : α}
    (hitem : DifferLocally (encode item) (encode other)) (front back : List α) :
    DifferLocally ((front ++ item :: back).flatMap encode)
      ((front ++ other :: back).flatMap encode) := by
  simp only [List.flatMap_append, List.flatMap_cons]
  exact (hitem.append _).prepend _

/-! ## One change -/

/-- Settings in which one field was given another value. -/
inductive Settings.ChangesTo (settings : Settings) : Settings → Prop
  /-- One definition has another value. -/
  | define {front back : List Define} {name : String} {before after : Int32}
      (isThere : settings.defines = front ++ ⟨name, before⟩ :: back) (changed : before ≠ after) :
      ChangesTo settings { settings with defines := front ++ ⟨name, after⟩ :: back }
  | maxBindlessTextures {count : UInt32} (changed : settings.maxBindlessTextures ≠ count) :
      ChangesTo settings { settings with maxBindlessTextures := count }
  | maxBindlessReadonlyTextureBuffers {count : UInt32}
      (changed : settings.maxBindlessReadonlyTextureBuffers ≠ count) :
      ChangesTo settings { settings with maxBindlessReadonlyTextureBuffers := count }
  | mobilePlatform :
      ChangesTo settings { settings with mobilePlatform := !settings.mobilePlatform }
  | fullPrecision :
      ChangesTo settings { settings with fullPrecision := !settings.fullPrecision }
  | rayTracing :
      ChangesTo settings { settings with rayTracing := !settings.rayTracing }
  | meshShaders :
      ChangesTo settings { settings with meshShaders := !settings.meshShaders }

/-- A space in which one value of one mutator was replaced by another one. The rules are the same,
and so is the number of values. -/
inductive Space.ChangesTo (space : Space) : Space → Prop
  | value {front back : List Mutator} {name : String} {smaller larger : List Int32}
      {before after : Int32}
      (isThere : space.mutators = front ++ ⟨name, smaller ++ before :: larger⟩ :: back)
      (changed : before ≠ after) :
      ChangesTo space
        { space with mutators := front ++ ⟨name, smaller ++ after :: larger⟩ :: back }

/-- A block that sees other mutators, if it is one of a given stage. -/
def Block.withActive (stage : Stage) (mask : MutatorMask) (block : Block) : Block :=
  if block.stage = stage then { block with active := mask } else block

def Technique.withActive (technique : Technique) (stage : Stage) (mask : MutatorMask) :
    Technique :=
  technique.mapBlocks (Block.withActive stage mask)

/-- A technique in which the mask of one stage was given another value. -/
inductive Technique.ChangesTo (technique : Technique) : Technique → Prop
  | active {stage : Stage} {mask : MutatorMask} (isThere : technique.hasStage stage = true)
      (changed : technique.activeMutators stage ≠ mask) :
      ChangesTo technique (technique.withActive stage mask)

/-- A program in which one field of the byte form was given another value. -/
inductive Program.ChangesTo (program : Program) : Program → Prop
  | settings {settings : Settings} (change : program.settings.ChangesTo settings) :
      ChangesTo program { program with settings := settings }
  | space {space : Space} (change : program.space.ChangesTo space) :
      ChangesTo program { program with space := space }
  | technique {front back : List Technique} {technique other : Technique}
      (isThere : program.techniques = front ++ technique :: back)
      (change : technique.ChangesTo other) :
      ChangesTo program { program with techniques := front ++ other :: back }
  | sixteenBit : ChangesTo program { program with sixteenBit := !program.sixteenBit }
  /-- The ray type is another one, or is there in one program only. -/
  | rayType {rayType : Option UInt32} (changed : program.rayType ≠ rayType) :
      ChangesTo program { program with rayType := rayType }

/-! ## Where the byte form differs -/

theorem Settings.ChangesTo.differLocally {settings other : Settings}
    (hchange : settings.ChangesTo other) : DifferLocally settings.bytes other.bytes := by
  cases hchange with
  | @define front back name before after hthere hne =>
    have hdefine : DifferLocally (Define.bytes ⟨name, before⟩) (Define.bytes ⟨name, after⟩) :=
      (Bytes.differLocally_ofInt32 hne).prepend _
    simp only [bytes, hthere, List.append_assoc]
    exact (hdefine.flatMap front back).append _
  | maxBindlessTextures hne =>
    simp only [bytes, List.append_assoc]
    exact ((Bytes.differLocally_ofUInt32 hne).append _).prepend _
  | maxBindlessReadonlyTextureBuffers hne =>
    simp only [bytes, List.append_assoc]
    exact (((Bytes.differLocally_ofUInt32 hne).append _).prepend _).prepend _
  | mobilePlatform =>
    have hne : settings.mobilePlatform ≠ !settings.mobilePlatform := by simp
    exact (((((Bytes.differLocally_ofBool hne).prepend _).append _).append _).append _)
  | fullPrecision =>
    have hne : settings.fullPrecision ≠ !settings.fullPrecision := by simp
    exact (((Bytes.differLocally_ofBool hne).prepend _).append _).append _
  | rayTracing =>
    have hne : settings.rayTracing ≠ !settings.rayTracing := by simp
    exact ((Bytes.differLocally_ofBool hne).prepend _).append _
  | meshShaders =>
    have hne : settings.meshShaders ≠ !settings.meshShaders := by simp
    exact (Bytes.differLocally_ofBool hne).prepend _

theorem Space.ChangesTo.differLocally {space other : Space} (hchange : space.ChangesTo other) :
    DifferLocally space.bytes other.bytes := by
  cases hchange with
  | @value front back name smaller larger before after hthere hne =>
    have hmutator : DifferLocally (Mutator.bytes ⟨name, smaller ++ before :: larger⟩)
        (Mutator.bytes ⟨name, smaller ++ after :: larger⟩) :=
      ((Bytes.differLocally_ofInt32 hne).flatMap smaller larger).prepend _
    simp only [bytes, hthere]
    exact ((hmutator.flatMap front back).append _).append _

theorem Block.stage_withActive (stage : Stage) (mask : MutatorMask) (block : Block) :
    (block.withActive stage mask).stage = block.stage := by
  rw [Block.withActive]
  split <;> rfl

theorem Block.source_withActive (stage : Stage) (mask : MutatorMask) (block : Block) :
    (block.withActive stage mask).source = block.source := by
  rw [Block.withActive]
  split <;> rfl

namespace Technique

variable (technique : Technique) (stage : Stage) (mask : MutatorMask)

theorem stages_withActive : (technique.withActive stage mask).stages = technique.stages :=
  stages_mapBlocks _ (Block.stage_withActive stage mask) technique

theorem block?_withActive (other : Stage) :
    (technique.withActive stage mask).block? other =
      (technique.block? other).map (Block.withActive stage mask) :=
  block?_mapBlocks _ (Block.stage_withActive stage mask) technique other

theorem source?_withActive (other : Stage) :
    (technique.withActive stage mask).source? other = technique.source? other := by
  rw [source?, source?, block?_withActive, Option.map_map]
  exact congrArg (Option.map · (technique.block? other))
    (funext (Block.source_withActive stage mask))

theorem activeMutators_withActive_of_ne {other : Stage} (hne : other ≠ stage) :
    (technique.withActive stage mask).activeMutators other = technique.activeMutators other := by
  rw [activeMutators, activeMutators, block?_withActive]
  cases hblock : technique.block? other with
  | none => rfl
  | some block =>
    have hstage : block.stage = other := by simpa using List.find?_some hblock
    simp [Block.withActive, hstage, hne]

theorem activeMutators_withActive_self (hstage : technique.hasStage stage = true) :
    (technique.withActive stage mask).activeMutators stage = mask := by
  obtain ⟨block, hblock⟩ := Option.isSome_iff_exists.mp hstage
  have hsame : block.stage = stage := by simpa using List.find?_some hblock
  simp [activeMutators, block?_withActive, hblock, Block.withActive, hsame]

end Technique

theorem StageSet.nodup_toList (set : StageSet) : set.toList.Nodup :=
  List.Nodup.filter _ (by decide)

theorem Technique.ChangesTo.differLocally {technique other : Technique}
    (hchange : technique.ChangesTo other) : DifferLocally technique.bytes other.bytes := by
  cases hchange with
  | @active stage mask hthere hne =>
    have hmem : stage ∈ technique.stages.toList := by
      rw [StageSet.mem_toList, contains_stages, hthere]
    obtain ⟨front, back, hstages⟩ := List.append_of_mem hmem
    have hnodup := technique.stages.nodup_toList
    rw [hstages, List.nodup_middle, List.nodup_cons, List.mem_append, not_or] at hnodup
    -- The other stages keep their masks, and all sources are as they were.
    have hother : ∀ list : List Stage, stage ∉ list →
        list.flatMap (technique.withActive stage mask).stageBytes =
          list.flatMap technique.stageBytes := by
      intro list hlist
      refine List.flatMap_congr fun other hmem => ?_
      have hne : other ≠ stage := fun heq => hlist (heq ▸ hmem)
      rw [stageBytes, stageBytes, source?_withActive, activeMutators_withActive_of_ne _ _ _ hne]
    have hmask : DifferLocally (littleEndian 8 (technique.activeMutators stage).toNat)
        (littleEndian 8 mask.toNat) := by
      refine .of_short (by simp) (by simp) ?_
      intro hbytes
      exact hne (BitVec.eq_of_toNat_eq (littleEndian_inj (BitVec.isLt _) (BitVec.isLt _) hbytes))
    have hstage : DifferLocally (technique.stageBytes stage)
        ((technique.withActive stage mask).stageBytes stage) := by
      rw [stageBytes, stageBytes, source?_withActive, activeMutators_withActive_self _ _ _ hthere]
      exact hmask.framed.append _
    simp only [bytes, stages_withActive, hstages, List.flatMap_append, List.flatMap_cons,
      hother front hnodup.1.1, hother back hnodup.1.2]
    exact ((hstage.append _).prepend _).prepend _

/-- The ray type and the flag that says whether there is one take five bytes together. -/
theorem differLocally_rayType {rayType other : Option UInt32} (hne : rayType ≠ other) :
    DifferLocally (Bytes.ofBool rayType.isSome ++ Bytes.ofUInt32 (rayType.getD 0))
      (Bytes.ofBool other.isSome ++ Bytes.ofUInt32 (other.getD 0)) := by
  refine .of_short (by simp) (by simp) ?_
  intro hbytes
  obtain ⟨hisSome, hword⟩ := Bytes.ofBool_append_inj hbytes
  obtain ⟨hvalue, -⟩ := Bytes.ofUInt32_append_inj (congrArg (· ++ []) hword)
  cases rayType <;> cases other <;> simp_all

theorem Program.ChangesTo.differLocally {program other : Program}
    (hchange : program.ChangesTo other) : DifferLocally program.bytes other.bytes := by
  cases hchange with
  | settings hchange => exact hchange.differLocally.prepend _
  | space hchange =>
    simp only [bytes, List.append_assoc]
    exact (((hchange.differLocally.framed.append _).prepend _).prepend _).prepend _
  | @technique front back technique other hthere hchange =>
    simp only [bytes, hthere, List.append_assoc]
    exact (((hchange.differLocally.flatMap front back).append _).prepend _).prepend _
  | sixteenBit =>
    have hne : program.sixteenBit ≠ !program.sixteenBit := by simp
    exact (((((Bytes.differLocally_ofBool hne).prepend _).append _).append _).append _).append _
  | rayType hne =>
    have hray := (differLocally_rayType hne).append program.settings.bytes
    rw [List.append_assoc, List.append_assoc] at hray
    simp only [bytes, List.append_assoc]
    exact (((((hray.prepend _).prepend _).prepend _).prepend _).prepend _).prepend _

/-! ## The main result -/

theorem Technique.Alike.bytes_eq {left right : Technique} (halike : left.Alike right) :
    left.bytes = right.bytes := by
  have hstage : left.stageBytes = right.stageBytes := by
    funext stage
    rw [stageBytes, stageBytes, halike.activeMutators, halike.source]
  rw [bytes, bytes, halike.name, halike.stages, hstage]

theorem Technique.flatMap_bytes_eq {lefts rights : List Technique}
    (halike : List.Forall₂ Alike lefts rights) : lefts.flatMap bytes = rights.flatMap bytes := by
  induction halike with
  | nil => rfl
  | cons hhead _ ih => rw [List.flatMap_cons, List.flatMap_cons, hhead.bytes_eq, ih]

/-- Programs that are alike and have the same space have the same byte form. -/
theorem Program.Alike.bytes_eq {left right : Program} (halike : left.Alike right)
    (hspace : left.space = right.space) : left.bytes = right.bytes := by
  have htechniques := Technique.flatMap_bytes_eq halike.techniques
  obtain ⟨hdefines, htextures, hbuffers, hmobile, hprecision, hrayTracing, hmeshShaders⟩ :=
    halike.settings
  simp only [bytes, Settings.bytes, halike.common, htechniques, hspace, halike.sixteenBit,
    halike.library, halike.rayType, hdefines, htextures, hbuffers, hmobile, hprecision,
    hrayTracing, hmeshShaders]

theorem Program.alike_refl (program : Program) : program.Alike program where
  common := rfl
  techniques := List.forall₂_same.mpr fun _ _ => ⟨rfl, rfl, fun _ => rfl, fun _ => rfl⟩
  library := rfl
  rayType := rfl
  sixteenBit := rfl
  settings := ⟨rfl, rfl, rfl, rfl, rfl, rfl, rfl⟩

/-- The fingerprint notices a change of one field. Let two programs agree in everything that is
laid out in their byte forms, after exactly one field of the first one was given another value: the
value of one definition, one of the two engine constants, one of the four flags of the target, the
16-bit flag, the ray type, the mask of one stage of one technique, or one value of one mutator.
Then the two have different fingerprints, whatever and however long everything else is. -/
theorem fingerprint_ne_of_changesTo {left changed right : Program}
    (hchange : left.ChangesTo changed) (halike : changed.Alike right)
    (hspace : changed.space = right.space) : left.fingerprint ≠ right.fingerprint := by
  have hdiffer : DifferLocally left.bytes right.bytes := by
    rw [← halike.bytes_eq hspace]
    exact hchange.differLocally
  exact hdiffer.checksum_ne

/-- A program with a mutator and a block, whose first line ends with a given clause. -/
def blockWithClause (clause : String) : Catalog where
  files :=
    [("main", "#pragma anki mutator A 0 1\n#pragma anki technique_start comp" ++ clause ++
        "\n#pragma anki technique_end comp\n")]

theorem fingerprint_ne_blockWithClause :
    ∃ left right changed,
      (read {} (blockWithClause " uses_mutators A").provider "main" "" ()).outcome = .ok left ∧
      (read {} (blockWithClause "").provider "main" "" ()).outcome = .ok right ∧
      left.ChangesTo changed ∧ changed.Alike right ∧ changed.space = right.space ∧
      left.fingerprint ≠ right.fingerprint := by
  have hcheck : ((read {} (blockWithClause " uses_mutators A").provider "main" ""
      ()).outcome.toOption.any fun left =>
        (read {} (blockWithClause "").provider "main" "" ()).outcome.toOption.any fun right =>
          left.techniques.any fun technique =>
            decide (left.techniques = [technique] ∧ technique.hasStage .compute = true ∧
              technique.activeMutators .compute ≠ BitVec.allOnes 64 ∧
              right = { left with
                techniques := [technique.withActive .compute (BitVec.allOnes 64)] })) = true := by
    decide +kernel
  obtain ⟨left, hleft, hothers⟩ := (Option.any_eq_true ..).mp hcheck
  obtain ⟨right, hright, htechniques⟩ := (Option.any_eq_true ..).mp hothers
  obtain ⟨technique, -, hfacts⟩ := List.any_eq_true.mp htechniques
  obtain ⟨hthere, hstage, hne, hsame⟩ := of_decide_eq_true hfacts
  have honly : left.techniques = [] ++ technique :: [] := hthere
  have hchange : left.ChangesTo right := by
    rw [hsame]
    exact .technique honly (.active hstage hne)
  have halike := Program.alike_refl right
  exact ⟨left, right, right, eq_ok_of_toOption hleft, eq_ok_of_toOption hright, hchange, halike,
    rfl, fingerprint_ne_of_changesTo hchange halike rfl⟩

end Ubershader
