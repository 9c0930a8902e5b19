/-!
# What can be wrong with a directive

A complaint says what is wrong with a directive, without saying where it stands. The wording of
each complaint is fixed here and nowhere else, so that everything else can speak of causes.
-/

namespace Ubershader

/-- Ways in which the arguments of a directive are wrong for its kind. -/
inductive Malformation
  | inclusionPath
  | repeatedOnce
  | onceArguments
  | missingCommand
  | unknownCommand
  | missingMutatorName
  | longMutatorName
  | badMutatorName
  | tooManyMutators
  | mutatorValueNotInteger
  | tooFewMutatorValues
  | tooFewSkipPairs
  | missingTo
  | badPairsBeforeTo
  | sidesDiffer
  | repeatedMutator
  | targetNotOnLeft
  | badPairValue
  | illegalPairValue
  | missingStartStage
  | missingEndStage
  | unknownStage
  | unsupportedStage
  | badTechniqueName
  | expectedUsesMutators
  | tooManyEndArguments
  | libraryArguments
  | repeatedLibrary
  | rayTypeArguments
  | rayTypeNotInteger
  | repeatedRayType
  | largeRayType
  | structName
  | memberArguments
  | unknownMemberType
  | badMemberName
  | repeatedMember
  | structEndArguments
  | emptyStruct
  | sixteenBitArguments
deriving DecidableEq, Repr

def Malformation.reason : Malformation → String
  | inclusionPath => "include expects a \"path\" or <path>"
  | repeatedOnce => "can't have more than one #pragma once per file"
  | onceArguments => "#pragma once takes no arguments"
  | missingCommand => "#pragma anki without a directive"
  | unknownCommand => "unknown #pragma anki directive"
  | missingMutatorName => "mutator needs a name"
  | longMutatorName => "mutator name too long"
  | badMutatorName => "mutator name is not an identifier"
  | tooManyMutators => "too many mutators"
  | mutatorValueNotInteger => "mutator value is not an integer"
  | tooFewMutatorValues => "mutator needs at least two values"
  | tooFewSkipPairs => "skip_mutation needs two or more mutator/value pairs"
  | missingTo => "rewrite_mutation is missing \"to\""
  | badPairsBeforeTo => "rewrite_mutation needs mutator/value pairs before \"to\""
  | sidesDiffer => "rewrite_mutation sides differ in size"
  | repeatedMutator => "mutator appeared more than once"
  | targetNotOnLeft => "rewrite target is not on the left of \"to\""
  | badPairValue => "malformed mutator value"
  | illegalPairValue => "mutator value incorrect"
  | missingStartStage => "technique_start needs a shader stage"
  | missingEndStage => "technique_end needs a shader stage"
  | unknownStage => "unknown shader stage"
  | unsupportedStage => "shader stage not supported by the target"
  | badTechniqueName => "technique name is not an identifier"
  | expectedUsesMutators => "expected uses_mutators"
  | tooManyEndArguments => "too many arguments to technique_end"
  | libraryArguments => "library expects exactly one name"
  | repeatedLibrary => "library name already set"
  | rayTypeArguments => "ray_type expects exactly one value"
  | rayTypeNotInteger => "ray type is not an unsigned integer"
  | repeatedRayType => "ray type already set"
  | largeRayType => "ray type has a very large value"
  | structName => "struct expects one identifier"
  | memberArguments => "member expects a type and a name"
  | unknownMemberType => "unrecognized member type"
  | badMemberName => "member name is not an identifier"
  | repeatedMember => "member declared more than once"
  | structEndArguments => "struct_end takes no arguments"
  | emptyStruct => "struct doesn't have any members"
  | sixteenBitArguments => "16bit takes no arguments"

/-- Ways in which technique blocks are out of order. -/
inductive BlockDisorder
  | alreadyOpen
  | repeatedStage
  | endWithoutStart
  | endMismatch
  | neverClosed
deriving DecidableEq, Repr

def BlockDisorder.reason : BlockDisorder → String
  | alreadyOpen => "need to close the previous technique_start before starting a new one"
  | repeatedStage => "technique_start with the same name and stage appeared more than once"
  | endWithoutStart => "technique_end without a matching technique_start"
  | endMismatch => "name or stage doesn't match the one in technique_start"
  | neverClosed => "technique_start was never closed"

/-- Ways in which struct directives are out of order. -/
inductive StructDisorder
  | directiveInside
  | memberOutside
  | endWithoutStart
  | neverClosed
deriving DecidableEq, Repr

def StructDisorder.reason : StructDisorder → String
  | directiveInside => "directive not allowed inside a struct"
  | memberOutside => "member outside of a struct"
  | endWithoutStart => "struct_end without a matching struct"
  | neverClosed => "struct was never closed"

/-- What is wrong with a directive. The reason is a value and not a text, so that it can be told
which check has failed. -/
inductive Complaint
  | malformed (cause : Malformation)
  | mutatorNotFound (mutator : String)
  | duplicateMutator (mutator : String)
  | duplicateMutatorValue (mutator : String) (value : Int32)
  | duplicateReplacement
  | block (cause : BlockDisorder)
  | struct (cause : StructDisorder)
deriving DecidableEq, Repr

/-- Checks that are made one after the other have all gone through if the last one has. -/
theorem exists_of_bind_eq_ok {ε α β : Type} {first : Except ε α} {next : α → Except ε β} {b : β}
    (hbind : first >>= next = .ok b) : ∃ a, first = .ok a ∧ next a = .ok b := by
  cases first with
  | error complaint => cases hbind
  | ok a => exact ⟨a, rfl, hbind⟩

theorem eq_ok_of_toOption {ε α : Type} {checked : Except ε α} {a : α}
    (hchecked : checked.toOption = some a) : checked = .ok a := by
  cases checked with
  | error complaint => cases hchecked
  | ok a => cases hchecked; rfl

end Ubershader
