import Ubershader.Complaint
import Ubershader.Pipeline.Stage
import Ubershader.Text.Quoted

/-!
# Faults

A fault ends the reading of a program. Faults of a directive carry the line that it stands on:
the file, the number of the line in it, counted from one, and its text.
-/

namespace Ubershader

/-- A line of a file. Its text is kept because a message repeats it, and the file is not read
again for that. -/
structure Location where
  file : String
  line : Nat
  text : String
deriving DecidableEq, Repr

/-- Why a program could not be read. -/
inductive Fault
  /-- The provider could not resolve or fetch a file, and says why. -/
  | provider (file cause : String)
  /-- Including `file` from a line of `includer` would go deeper than allowed. -/
  | tooDeep (file includer : String) (line depth : Nat)
  /-- A directive is wrong. -/
  | directive (site : Location) (complaint : Complaint)
  /-- The program declares no technique. -/
  | noTechniques (file : String)
deriving DecidableEq, Repr

namespace Location

def shown (site : Location) : String :=
  site.file ++ "(" ++ site.line.repr ++ "): "

end Location

def Complaint.message (complaint : Complaint) (site : Location) : String :=
  site.shown ++
    (match complaint with
      | malformed cause => "malformed expression, " ++ cause.reason
      | mutatorNotFound mutator => "mutator " ++ Text.quoted mutator ++ " not found"
      | duplicateMutator mutator => "duplicate mutator " ++ Text.quoted mutator
      | duplicateMutatorValue mutator value =>
        "value " ++ Text.decimal value ++ " of mutator " ++ Text.quoted mutator ++
          " appears more than once"
      | duplicateReplacement => "mutation rewrite already exists"
      | block cause => cause.reason
      | struct cause => cause.reason) ++
    ": " ++ site.text

def Fault.message : Fault → String
  | provider file cause =>
    "include provider error: \"" ++ cause ++ "\" when trying to include " ++ Text.quoted file
  | tooDeep file includer line depth =>
    "include depth " ++ depth.repr ++ " exceeded when including " ++ Text.quoted file ++
      "; triggered in " ++ Text.quoted includer ++ " (" ++ line.repr ++ ")"
  | directive site complaint => complaint.message site
  | noTechniques file => "no techniques were found in " ++ Text.quoted file

/-- Ways to misuse a program that has been read. -/
inductive Misuse
  /-- A rule was asked about a mutation of the wrong length. -/
  | ruleLength (given expected : Nat)
  /-- A variant was asked for with a mutation of the wrong length. -/
  | variantLength (given expected : Nat)
  /-- A variant was asked for with a value that its mutator cannot take. -/
  | outsideDomain (mutation : List Int32)
  /-- A variant was asked for in a stage that the technique does not have. -/
  | missingStage (technique : String) (stage : Stage)
deriving DecidableEq, Repr

def Misuse.message : Misuse → String
  | ruleLength given expected =>
    "assertion `left == right` failed: mutation size mismatch\n  left: " ++ given.repr ++
      "\n right: " ++ expected.repr
  | variantLength given expected =>
    "assertion `left == right` failed: mutation length doesn't match the number of mutators" ++
      "\n  left: " ++ given.repr ++ "\n right: " ++ expected.repr
  | outsideDomain mutation =>
    "mutation " ++ Text.bracketed mutation ++ " contains values outside the mutator domains"
  | missingStage technique stage =>
    "technique " ++ Text.quoted technique ++ " has no " ++ stage.token ++ " stage"

end Ubershader
