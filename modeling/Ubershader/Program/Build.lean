import Ubershader.Program.Rules
import Ubershader.Program.Variant
import Ubershader.Space.Enumeration

/-!
# Building a program

Building goes through the mutations of a program in order. A mutation that a skip rule marks is
left out, and so is one that a replacement rule applies to, since another mutation stands for it.
For every other mutation each stage of each technique gives a variant.
-/

namespace Ubershader

structure BuiltVariant where
  mutation : Mutation
  technique : String
  stage : Stage
  text : String
deriving DecidableEq, Repr

/-- What building comes to, each list in the order of building. A mutation that is skipped is not
replaced as well, and one that is replaced is replaced only once. -/
structure BuildReport where
  built : List BuiltVariant := []
  skipped : List Mutation := []
  /-- Mutations that another one stands for, with that one. -/
  replaced : List (Mutation × Mutation) := []
deriving DecidableEq, Repr

namespace Program

/-- The technique and stage of every block of a program, by technique and then in pipeline
order. -/
def targets (program : Program) : List (Technique × Stage) :=
  program.techniques.flatMap fun technique =>
    technique.stages.toList.map fun stage => (technique, stage)

def buildVariants (program : Program) (mutation : Mutation) :
    Except Misuse (List BuiltVariant) :=
  program.targets.mapM fun (technique, stage) => do
    let text ← program.variant mutation technique stage
    return ⟨mutation, technique.name, stage, text⟩

def buildMutation (program : Program) (report : BuildReport) (mutation : Mutation) :
    Except Misuse BuildReport := do
  if ← program.skips mutation then
    return { report with skipped := report.skipped ++ [mutation] }
  else
    match ← program.replaceOnce mutation with
    | some other => return { report with replaced := report.replaced ++ [(mutation, other)] }
    | none =>
      let variants ← program.buildVariants mutation
      return { report with built := report.built ++ variants }

def buildAll (program : Program) (mutations : List Mutation) : Except Misuse BuildReport :=
  mutations.foldlM program.buildMutation {}

/-- Build the first `count` mutations. -/
def build (program : Program) (count : Nat) : Except Misuse BuildReport :=
  program.buildAll (program.space.firstMutations count)

end Program

end Ubershader
