import Ubershader.Draft.Line
import Ubershader.Fault
import Ubershader.PackedStruct
import Ubershader.Pipeline.Stage
import Ubershader.Space.Declare

/-!
# Drafts

A draft is what is known of a program while its files are read. Lines go to the *current buffer*:
the buffer of the block that is open, or the common buffer when none is. A block starts with a
copy of the common buffer and is filed among the finished blocks when it is closed.

A draft changes by edits only. An edit is a plain value, so the edits of a run can be kept, and
the draft is what they add up to.
-/

namespace Ubershader

/-- Lines for one source, and the files among them that are included once only. These are kept with
the lines because a file that is in one source may still be missing in another one. -/
structure Buffer where
  lines : Array Line := #[]
  once : List String := []
deriving DecidableEq, Repr

namespace Buffer

def push (buffer : Buffer) (line : Line) : Buffer :=
  { buffer with lines := buffer.lines.push line }

/-- Note that a file is included once only. -/
def guard (buffer : Buffer) (path : String) : Buffer :=
  { buffer with once := path :: buffer.once }

/-- Whether a file is already there and is included once only. -/
def holdsOnce (buffer : Buffer) (path : String) : Bool :=
  buffer.once.contains path

@[simp] theorem toList_lines_push (buffer : Buffer) (line : Line) :
    (buffer.push line).lines.toList = buffer.lines.toList ++ [line] := by
  simp [push]

@[simp] theorem once_push (buffer : Buffer) (line : Line) :
    (buffer.push line).once = buffer.once := rfl

@[simp] theorem lines_guard (buffer : Buffer) (path : String) :
    (buffer.guard path).lines = buffer.lines := rfl

end Buffer

/-- One bit for each mutator, set if the mutator is seen by a block. -/
abbrev MutatorMask := BitVec 64

/-- A finished block: the source of one stage of one technique. -/
structure Block where
  technique : String
  stage : Stage
  active : MutatorMask
  lines : Array Line
deriving DecidableEq, Repr

/-- A block that is not closed yet. The line that opened it is the one to complain about if it is
never closed. -/
structure OpenBlock where
  technique : String
  stage : Stage
  active : MutatorMask
  buffer : Buffer
  site : Location
deriving DecidableEq, Repr

def OpenBlock.close (block : OpenBlock) : Block :=
  ⟨block.technique, block.stage, block.active, block.buffer.lines⟩

/-- A struct that is not closed yet. As for a block, the line that opened it is kept for a
complaint. -/
structure OpenStruct where
  struct : PackedStruct
  site : Location
deriving DecidableEq, Repr

/-- What is known of a program while it is read. Everything is kept once, so no two parts of a draft
can disagree. -/
structure Draft where
  space : Space := {}
  /-- Lines outside of all blocks. -/
  common : Buffer := {}
  /-- Finished blocks, in the order in which they were closed. -/
  blocks : List Block := []
  openBlock : Option OpenBlock := none
  openStruct : Option OpenStruct := none
  library : Option String := none
  rayType : Option UInt32 := none
  sixteenBit : Bool := false
deriving DecidableEq, Repr

namespace Draft

def current (draft : Draft) : Buffer :=
  match draft.openBlock with
  | none => draft.common
  | some block => block.buffer

/-- Change the buffer where lines go: the one of the open block, or the common one if no block is
open. -/
def modifyCurrent (draft : Draft) (change : Buffer → Buffer) : Draft :=
  match draft.openBlock with
  | none => { draft with common := change draft.common }
  | some block => { draft with openBlock := some { block with buffer := change block.buffer } }

@[simp] theorem current_modifyCurrent (draft : Draft) (change : Buffer → Buffer) :
    (draft.modifyCurrent change).current = change draft.current := by
  unfold modifyCurrent current
  cases draft.openBlock <;> rfl

def hasBlock (draft : Draft) (technique : String) (stage : Stage) : Bool :=
  draft.blocks.any fun block => block.technique == technique && block.stage == stage

end Draft

/-- A change of a draft. A reading changes its draft in no other way, so whatever all edits keep
holds of every draft that is met. -/
inductive Edit
  /-- Add a line to the current buffer. -/
  | append (line : Line)
  /-- Note in the current buffer that a file is included once only. -/
  | guard (path : String)
  /-- Open a block. -/
  | openBlock (technique : String) (stage : Stage) (active : MutatorMask) (site : Location)
  /-- Close the open block. -/
  | closeBlock
  | addMutator (mutator : Mutator)
  | addSkip (rule : SkipRule)
  | addReplacement (rule : Replacement)
  /-- Open a struct. -/
  | openStruct (name : String) (site : Location)
  /-- Add a member to the open struct. -/
  | addMember (member : Member)
  /-- Close the open struct. -/
  | closeStruct
  | setLibrary (name : String)
  | setRayType (rayType : UInt32)
  | allowSixteenBit
deriving DecidableEq, Repr

namespace Draft

/-- The draft after an edit. Closing what is not open, and adding a member to no struct, change
nothing. -/
def apply (draft : Draft) : Edit → Draft
  | .append line => draft.modifyCurrent (·.push line)
  | .guard path => draft.modifyCurrent (·.guard path)
  | .openBlock technique stage active site =>
    { draft with openBlock := some ⟨technique, stage, active, draft.common, site⟩ }
  | .closeBlock =>
    match draft.openBlock with
    | none => draft
    | some block => { draft with blocks := draft.blocks ++ [block.close], openBlock := none }
  | .addMutator mutator => { draft with space := draft.space.addMutator mutator }
  | .addSkip rule => { draft with space := draft.space.addSkip rule }
  | .addReplacement rule => { draft with space := draft.space.addReplacement rule }
  | .openStruct name site => { draft with openStruct := some ⟨⟨name, []⟩, site⟩ }
  | .addMember member =>
    { draft with openStruct := draft.openStruct.map fun struct =>
        { struct with struct := struct.struct.push member } }
  | .closeStruct => { draft with openStruct := none }
  | .setLibrary name => { draft with library := some name }
  | .setRayType rayType => { draft with rayType := some rayType }
  | .allowSixteenBit => { draft with sixteenBit := true }

def applyAll (draft : Draft) (edits : List Edit) : Draft :=
  edits.foldl apply draft

@[simp] theorem applyAll_nil (draft : Draft) : draft.applyAll [] = draft := rfl

@[simp] theorem applyAll_cons (draft : Draft) (edit : Edit) (edits : List Edit) :
    draft.applyAll (edit :: edits) = (draft.apply edit).applyAll edits := rfl

@[simp] theorem applyAll_append (draft : Draft) (front back : List Edit) :
    draft.applyAll (front ++ back) = (draft.applyAll front).applyAll back := by
  simp [applyAll]

end Draft

end Ubershader
