import Ubershader.Draft.Basic
import Ubershader.Pipeline.StageSet
import Ubershader.Settings.Basic
import Ubershader.Text.Lines

/-!
# Programs

A program is what is left of a draft when everything that was opened is closed. Its blocks are
grouped into techniques: a technique has one block per stage, and techniques come in the order of
their first blocks.
-/

namespace Ubershader

/-- The source of a block: its lines, each terminated. -/
def Block.source (block : Block) : String :=
  Text.joined (block.lines.toList.map Line.text)

/-- A named group of blocks, of different stages. Its blocks may come from anywhere in the files, in
any order. -/
structure Technique where
  name : String
  blocks : List Block
deriving DecidableEq, Repr

namespace Technique

def stages (technique : Technique) : StageSet :=
  StageSet.ofList (technique.blocks.map Block.stage)

def block? (technique : Technique) (stage : Stage) : Option Block :=
  technique.blocks.find? fun block => block.stage == stage

def hasStage (technique : Technique) (stage : Stage) : Bool :=
  (technique.block? stage).isSome

/-- The mutators that the block of a stage sees. There are none without a block. -/
def activeMutators (technique : Technique) (stage : Stage) : MutatorMask :=
  ((technique.block? stage).map Block.active).getD 0

def usesMutator (technique : Technique) (stage : Stage) (index : Nat) : Bool :=
  (technique.activeMutators stage).getLsbD index

def source? (technique : Technique) (stage : Stage) : Option String :=
  (technique.block? stage).map Block.source

/-- File a block under the technique of its name, which is added if it is not there. -/
def file (block : Block) : List Technique → List Technique
  | [] => [⟨block.technique, [block]⟩]
  | technique :: rest =>
    if technique.name = block.technique then
      { technique with blocks := technique.blocks ++ [block] } :: rest
    else technique :: file block rest

def ofBlocks (blocks : List Block) : List Technique :=
  blocks.foldl (fun techniques block => file block techniques) []

@[simp] theorem contains_stages (technique : Technique) (stage : Stage) :
    technique.stages.contains stage = technique.hasStage stage := by
  rw [Bool.eq_iff_iff]
  simp [stages, hasStage, block?]

end Technique

/-- A program that has been read. Its sources are complete, so its variants are made without the
files and without the provider. -/
structure Program where
  settings : Settings
  space : Space
  /-- The lines outside of all blocks. -/
  common : Array Line
  techniques : List Technique
  library : Option String
  rayType : Option UInt32
  sixteenBit : Bool
deriving DecidableEq, Repr

namespace Program

def commonSource (program : Program) : String :=
  Text.joined (program.common.toList.map Line.text)

def technique? (program : Program) (name : String) : Option Technique :=
  program.techniques.find? fun technique => technique.name == name

def techniqueIndex? (program : Program) (name : String) : Option Nat :=
  program.techniques.findIdx? fun technique => technique.name == name

/-- The program that a draft has come to, once the entry file has been read. There must be a
block, and nothing may be left open. -/
def ofDraft (settings : Settings) (entry : String) (draft : Draft) : Except Fault Program :=
  match draft.openBlock, draft.openStruct, draft.blocks with
  | some block, _, _ => .error (.directive block.site (.block .neverClosed))
  | none, _, [] => .error (.noTechniques entry)
  | none, some struct, _ => .error (.directive struct.site (.struct .neverClosed))
  | none, none, blocks =>
    .ok
      { settings := settings
        space := draft.space
        common := draft.common.lines
        techniques := Technique.ofBlocks blocks
        library := draft.library
        rayType := draft.rayType
        sixteenBit := draft.sixteenBit }

end Program

end Ubershader
