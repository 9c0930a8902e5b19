import Ubershader.Bytes
import Ubershader.Checksum
import Ubershader.Program.Basic

/-!
# Fingerprints

The fingerprint of a program is the checksum of its byte form, which lays out everything that a
variant can depend on. Texts and other fields of varying length are framed. The byte form starts
with a version, to be changed when generated text changes its shape.
-/

namespace Ubershader

def Mutation.bytes (mutation : Mutation) : List UInt8 :=
  mutation.flatMap Bytes.ofInt32

def Mutation.fingerprint (mutation : Mutation) : UInt64 :=
  checksum mutation.bytes

namespace Mutator

/-- The name of the mutator, closed by a zero, and its values. -/
def bytes (mutator : Mutator) : List UInt8 :=
  Bytes.ofString mutator.name ++ [0] ++ mutator.values.flatMap Bytes.ofInt32

end Mutator

namespace SkipRule

/-- A zero for a wildcard, a one and the value otherwise. -/
def slotBytes : Option Int32 → List UInt8
  | none => [0]
  | some value => 1 :: Bytes.ofInt32 value

/-- A letter, and a slot after the other. -/
def bytes (rule : SkipRule) : List UInt8 :=
  0x73 :: rule.slots.flatMap slotBytes

end SkipRule

def Change.bytes (change : Change) : List UInt8 :=
  littleEndian 4 change.index ++ Bytes.ofInt32 change.before ++ Bytes.ofInt32 change.after

namespace Replacement

/-- A letter, and a change after the other. -/
def bytes (rule : Replacement) : List UInt8 :=
  0x72 :: rule.changes.flatMap Change.bytes

end Replacement

namespace Space

/-- The mutators, the skip rules and the replacement rules. -/
def bytes (space : Space) : List UInt8 :=
  space.mutators.flatMap Mutator.bytes ++ space.skips.flatMap SkipRule.bytes ++
    space.replacements.flatMap Replacement.bytes

end Space

namespace Technique

/-- The mutators that a stage sees, and its source. -/
def stageBytes (technique : Technique) (stage : Stage) : List UInt8 :=
  Bytes.framed (littleEndian 8 (technique.activeMutators stage).toNat) ++
    Bytes.framed (Bytes.ofString ((technique.source? stage).getD ""))

/-- The name of the technique, its stages as a mask, and a stage after the other. -/
def bytes (technique : Technique) : List UInt8 :=
  Bytes.framed (Bytes.ofString technique.name) ++
    littleEndian 4 technique.stages.bits.toNat ++
    technique.stages.toList.flatMap technique.stageBytes

end Technique

def Define.bytes (define : Define) : List UInt8 :=
  Bytes.framed (Bytes.ofString define.name) ++ Bytes.ofInt32 define.value

namespace Settings

/-- The definitions, the engine constants and the abilities of the target. How files are read and
whether lines are marked shows in the sources and is left out. -/
def bytes (settings : Settings) : List UInt8 :=
  settings.defines.flatMap Define.bytes ++
    Bytes.ofUInt32 settings.maxBindlessTextures ++
    Bytes.ofUInt32 settings.maxBindlessReadonlyTextureBuffers ++
    Bytes.ofBool settings.mobilePlatform ++
    Bytes.ofBool settings.fullPrecision ++
    Bytes.ofBool settings.rayTracing ++
    Bytes.ofBool settings.meshShaders

end Settings

namespace Program

def version : String := "shader-variants program v1\n"

/-- The byte form of a program, which stands for the program in its fingerprint. A change that no
byte shows is not noticed by whoever compares fingerprints. -/
def bytes (program : Program) : List UInt8 :=
  Bytes.ofString version ++
    Bytes.framed (Bytes.ofString program.commonSource) ++
    program.techniques.flatMap Technique.bytes ++
    Bytes.framed program.space.bytes ++
    Bytes.ofBool program.sixteenBit ++
    Bytes.framed (Bytes.ofString (program.library.getD "")) ++
    Bytes.ofBool program.rayType.isSome ++
    Bytes.ofUInt32 (program.rayType.getD 0) ++
    program.settings.bytes

def fingerprint (program : Program) : UInt64 :=
  checksum program.bytes

end Program

end Ubershader
