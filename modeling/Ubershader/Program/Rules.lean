import Ubershader.Program.Basic
import Ubershader.Space.Canonical

/-!
# Rules of a program

The rules of a program can be asked about mutations that have one value per mutator, whether or
not the values are legal. A mutation of another length is a misuse.
-/

namespace Ubershader.Program

/-- Give an answer about a mutation that has one value per mutator. The values need not be legal:
only the number of them is looked at. -/
def ofRightLength {α : Type} (program : Program) (mutation : Mutation) (answer : α) :
    Except Misuse α :=
  if mutation.length = program.space.mutators.length then .ok answer
  else .error (.ruleLength mutation.length program.space.mutators.length)

def skips (program : Program) (mutation : Mutation) : Except Misuse Bool :=
  program.ofRightLength mutation (program.space.isSkipped mutation)

/-- The mutation that the first replacement rule that applies makes of another one, if any rule
applies. -/
def replaceOnce (program : Program) (mutation : Mutation) : Except Misuse (Option Mutation) :=
  program.ofRightLength mutation (program.space.replaceOnce? mutation)

/-- What comes of replacing a mutation until no rule applies. -/
def canonicalize (program : Program) (mutation : Mutation) : Except Misuse Canonical :=
  program.ofRightLength mutation (program.space.canonicalize mutation)

end Ubershader.Program
