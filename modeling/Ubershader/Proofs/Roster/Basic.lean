import Mathlib.Logic.Function.Basic
import Ubershader.Program.Basic
import Ubershader.Proofs.Checked

/-!
# Rosters

A draft keeps every fact once. A roster keeps the same in place and more than once, the way a
reader does that never moves a buffer: a table of techniques, each with the set of its stages and
with a slot for the buffer of every stage; the *place* where lines go, which is an index into that
table and a stage; and, apart from the place, the line that opened the block.

Nothing in the type says that these agree. The place may lie outside of the table, a stage may be
in the set and have no buffer, and a block may be open by its place and closed by its line. The
operations are therefore checked, and opening a stage that is open already is a crash.
-/

namespace Ubershader

structure Entry where
  name : String
  stages : StageSet := .empty
  active : Stage → MutatorMask := fun _ => 0
  buffers : Stage → Option Buffer := fun _ => none

namespace Entry

def buffer (entry : Entry) (stage : Stage) : Buffer :=
  (entry.buffers stage).getD {}

def setBuffer (entry : Entry) (stage : Stage) (buffer : Buffer) : Entry :=
  { entry with buffers := Function.update entry.buffers stage (some buffer) }

/-- The entry once its buffer of a stage has been asked for. -/
def provideBuffer (entry : Entry) (stage : Stage) : Entry :=
  entry.setBuffer stage (entry.buffer stage)

/-- The entry with one more stage in its set, and with a buffer for it. -/
def addStage (entry : Entry) (stage : Stage) (active : MutatorMask) (buffer : Buffer) : Entry :=
  { entry with
    stages := entry.stages.union (.singleton stage)
    active := Function.update entry.active stage active
    buffers := Function.update entry.buffers stage (some buffer) }

/-- Open a stage, which must not be open yet, with a copy of the common buffer. -/
def openStage (entry : Entry) (stage : Stage) (active : MutatorMask) (common : Buffer) :
    Checked Entry :=
  if entry.stages.contains stage then .error .assertion
  else .ok (entry.addStage stage active common)

@[simp] theorem name_setBuffer (entry : Entry) (stage : Stage) (buffer : Buffer) :
    (entry.setBuffer stage buffer).name = entry.name := rfl

@[simp] theorem name_addStage (entry : Entry) (stage : Stage) (active : MutatorMask)
    (buffer : Buffer) : (entry.addStage stage active buffer).name = entry.name := rfl

def block? (entry : Entry) (stage : Stage) : Option Block :=
  if entry.stages.contains stage then
    (entry.buffers stage).map fun buffer =>
      ⟨entry.name, stage, entry.active stage, buffer.lines⟩
  else none

/-- The technique that an entry comes to, with its blocks in pipeline order. -/
def technique (entry : Entry) : Technique :=
  ⟨entry.name, Stage.all.filterMap entry.block?⟩

end Entry

inductive Place
  | common
  | entry (index : Nat) (stage : Stage)
deriving DecidableEq, Repr

/-- What is known of a program while it is read, kept in place. That the place and the line which
opened a block agree is left to the operations. -/
structure Roster where
  space : Space := {}
  common : Buffer := {}
  entries : List Entry := []
  place : Place := .common
  /-- The line that opened the block. -/
  opened : Option Location := none
  openStruct : Option OpenStruct := none
  library : Option String := none
  rayType : Option UInt32 := none
  sixteenBit : Bool := false

namespace Roster

def current (roster : Roster) : Checked Buffer :=
  match roster.place with
  | .common => .ok roster.common
  | .entry index stage => do
    let entry ← Checked.element roster.entries index
    return entry.buffer stage

def modifyCurrent (roster : Roster) (change : Buffer → Buffer) : Checked Roster :=
  match roster.place with
  | .common => .ok { roster with common := change roster.common }
  | .entry index stage => do
    let entry ← Checked.element roster.entries index
    let entries ← Checked.replace roster.entries index
      (entry.setBuffer stage (change (entry.buffer stage)))
    return { roster with entries := entries }

/-- The position of the technique of a given name, and the table with that technique in it. -/
def provideEntry (roster : Roster) (technique : String) : Nat × List Entry :=
  match roster.entries.findIdx? fun entry => entry.name == technique with
  | some index => (index, roster.entries)
  | none => (roster.entries.length, roster.entries ++ [{ name := technique }])

def openBlock (roster : Roster) (technique : String) (stage : Stage) (active : MutatorMask)
    (site : Location) : Checked Roster := do
  let (index, entries) := roster.provideEntry technique
  let entry ← Checked.element entries index
  let entry ← entry.openStage stage active roster.common
  let entries ← Checked.replace entries index entry
  return { roster with entries := entries, place := .entry index stage, opened := some site }

def apply (roster : Roster) : Edit → Checked Roster
  | .append line => roster.modifyCurrent (·.push line)
  | .guard path => roster.modifyCurrent (·.guard path)
  | .openBlock technique stage active site => roster.openBlock technique stage active site
  | .closeBlock => .ok { roster with place := .common, opened := none }
  | .addMutator mutator => .ok { roster with space := roster.space.addMutator mutator }
  | .addSkip rule => .ok { roster with space := roster.space.addSkip rule }
  | .addReplacement rule => .ok { roster with space := roster.space.addReplacement rule }
  | .openStruct name site => .ok { roster with openStruct := some ⟨⟨name, []⟩, site⟩ }
  | .addMember member =>
    .ok { roster with openStruct := roster.openStruct.map fun struct =>
        { struct with struct := struct.struct.push member } }
  | .closeStruct => .ok { roster with openStruct := none }
  | .setLibrary name => .ok { roster with library := some name }
  | .setRayType rayType => .ok { roster with rayType := some rayType }
  | .allowSixteenBit => .ok { roster with sixteenBit := true }

def applyAll (roster : Roster) (edits : List Edit) : Checked Roster :=
  edits.foldlM apply roster

theorem applyAll_append (roster : Roster) (front back : List Edit) :
    roster.applyAll (front ++ back) =
      roster.applyAll front >>= fun next => next.applyAll back := by
  simp [applyAll]

/-- The program that is made of a roster in which nothing is open. -/
def program (settings : Settings) (roster : Roster) : Program where
  settings := settings
  space := roster.space
  common := roster.common.lines
  techniques := roster.entries.map Entry.technique
  library := roster.library
  rayType := roster.rayType
  sixteenBit := roster.sixteenBit

/-- The program that a roster has come to, once the entry file has been read. A block counts as
open if there is a place for its lines and a line that opened it. -/
def finish (settings : Settings) (file : String) (roster : Roster) : Except Fault Program :=
  if roster.entries.isEmpty then .error (.noTechniques file)
  else
    match roster.place, roster.opened with
    | .entry _ _, some site => .error (.directive site (.block .neverClosed))
    | _, _ =>
      match roster.openStruct with
      | some struct => .error (.directive struct.site (.struct .neverClosed))
      | none => .ok (roster.program settings)

end Roster

end Ubershader
