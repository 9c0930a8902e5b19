import Ubershader.Program.Basic

/-!
# Variants

A variant is the text of one stage of one technique under one mutation: a header of definitions
and then the source of the block. The header has the definitions of the settings, the mutators
that the block sees with their values, one definition per technique and one per stage that the
target supports, which are one for the technique and stage of the variant and zero for the others,
and the engine constants.
-/

namespace Ubershader

def defineLine (name value : String) : String :=
  "#define " ++ name ++ " " ++ value ++ "\n"

def flagLine (name : String) (flag : Bool) : String :=
  defineLine name (if flag then "1" else "0")

namespace Program

def settingsSection (program : Program) : String :=
  String.join <| program.settings.defines.map fun define =>
    defineLine define.name (Text.decimal define.value)

/-- The definitions of the mutators that a stage sees, from a list of mutators of which the first
has a given index. -/
def mutatorLines (technique : Technique) (stage : Stage) :
    (index : Nat) → List Mutator → Mutation → List String
  | index, mutator :: mutators, value :: mutation =>
    let rest := mutatorLines technique stage (index + 1) mutators mutation
    if technique.usesMutator stage index then
      defineLine mutator.name (Text.decimal value) :: rest
    else rest
  | _, _, _ => []

def mutatorSection (program : Program) (mutation : Mutation) (technique : Technique)
    (stage : Stage) : String :=
  String.join (mutatorLines technique stage 0 program.space.mutators mutation)

/-- The definitions that tell the techniques of the program apart. -/
def techniqueSection (program : Program) (technique : Technique) : String :=
  String.join <| program.techniques.map fun other =>
    flagLine ("ANKI_TECHNIQUE_" ++ other.name) (other.name == technique.name)

/-- The definitions that tell the stages of the target apart. -/
def stageSection (program : Program) (stage : Stage) : String :=
  String.join <| program.settings.supportedStages.map fun other =>
    flagLine ("ANKI_" ++ other.defineName ++ "_SHADER") (other == stage)

def engineSection (program : Program) : String :=
  let settings := program.settings
  defineLine "kMaxBindlessTextures" (settings.maxBindlessTextures.toNat.repr ++ "u") ++
    defineLine "kMaxBindlessReadonlyTextureBuffers"
      (settings.maxBindlessReadonlyTextureBuffers.toNat.repr ++ "u") ++
    flagLine "ANKI_PLATFORM_MOBILE" settings.mobilePlatform ++
    flagLine "ANKI_FORCE_FULL_FP_PRECISION" settings.fullPrecision ++
    flagLine "ANKI_SUPPORTS_16BIT_TYPES" program.sixteenBit

/-- The text of a variant, whatever the mutation and the technique are. -/
def variantText (program : Program) (mutation : Mutation) (technique : Technique)
    (stage : Stage) : String :=
  program.settingsSection ++ program.mutatorSection mutation technique stage ++
    program.techniqueSection technique ++ program.stageSection stage ++ program.engineSection ++
    (technique.source? stage).getD ""

/-- The text of a variant. The mutation must have one legal value per mutator and the technique
must have the stage; it need not be a technique of the program. -/
def variant (program : Program) (mutation : Mutation) (technique : Technique) (stage : Stage) :
    Except Misuse String :=
  if mutation.length ≠ program.space.mutators.length then
    .error (.variantLength mutation.length program.space.mutators.length)
  else if !program.space.isValid mutation then .error (.outsideDomain mutation)
  else if !technique.hasStage stage then .error (.missingStage technique.name stage)
  else .ok (program.variantText mutation technique stage)

end Program

end Ubershader
