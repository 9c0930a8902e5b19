import Ubershader.Complaint
import Ubershader.Space.Basic
import Ubershader.Text.Numeral
import Ubershader.Text.Tokens

/-!
# Declaring mutators and rules

The arguments of a directive are checked against the space as it is when the directive is met, and
give the mutator or rule to be added. The checks are made in a fixed order and the first one that
fails decides the complaint.

A rule may only name mutators that are declared before it and values that those can take. Mutators
declared later leave it as it is.
-/

namespace Ubershader

/-- Put an element into a list that is ordered by a key, after the elements with a smaller or
equal key. -/
def insertByKey {α : Type} (key : α → Int) (a : α) : List α → List α
  | [] => [a]
  | b :: rest => if key b ≤ key a then b :: insertByKey key a rest else a :: b :: rest

/-- Order a list by a key. Elements with equal keys keep their order. -/
def sortByKey {α : Type} (key : α → Int) (list : List α) : List α :=
  list.foldl (fun sorted a => insertByKey key a sorted) []

/-- The first value of a list that is equal to its neighbour on the right. In an ordered list it
is the least value that occurs twice. -/
def firstRepeated? : List Int32 → Option Int32
  | a :: b :: rest => if a = b then some a else firstRepeated? (b :: rest)
  | _ => none

/-- Take a list two by two. An odd last element is dropped. -/
def inPairs {α : Type} : List α → List (α × α)
  | a :: b :: rest => (a, b) :: inPairs rest
  | _ => []

namespace Space

/-- Active mutators are a mask of this many bits. -/
def maxMutators : Nat := 64

/-- The longest name of a mutator, in bytes. -/
def maxNameLength : Nat := 63

def mutatorValue (token : String) : Except Complaint Int32 :=
  match Text.int32? token with
  | some value => .ok value
  | none => .error (.malformed .mutatorValueNotInteger)

/-- What is wrong with a name for a new mutator, if anything is. The order of the checks decides
what is complained about if several things are wrong. -/
def nameComplaint? (space : Space) (name : String) : Option Complaint :=
  if Text.opensComment name then some (.malformed .missingMutatorName)
  else if (space.mutatorIndex? name).isSome then some (.duplicateMutator name)
  else if maxNameLength < name.utf8ByteSize then some (.malformed .longMutatorName)
  else if !Text.isIdentifier name then some (.malformed .badMutatorName)
  else if space.mutators.length = maxMutators then some (.malformed .tooManyMutators)
  else none

/-- The mutator with a given name and the given values, which are put in order. -/
def mutatorOfValues (name : String) (values : List Int32) : Except Complaint Mutator :=
  if values.length < 2 then .error (.malformed .tooFewMutatorValues)
  else
    let sorted := sortByKey Int32.toInt values
    match firstRepeated? sorted with
    | some value => .error (.duplicateMutatorValue name value)
    | none => .ok ⟨name, sorted⟩

/-- The mutator that a directive with the given arguments declares: a name and at least two
different values, in any order. -/
def mutatorOf (space : Space) : (args : List String) → Except Complaint Mutator
  | [] => .error (.malformed .missingMutatorName)
  | name :: args =>
    match space.nameComplaint? name with
    | some complaint => .error complaint
    | none => (Text.beforeComment args).mapM mutatorValue >>= mutatorOfValues name

/-- The position of a mutator and the legal value of it that two tokens name. -/
def pairOf (space : Space) (pair : String × String) : Except Complaint (Nat × Int32) :=
  match space.mutatorIndex? pair.1 with
  | none => .error (.mutatorNotFound pair.1)
  | some index =>
    match Text.int32? pair.2 with
    | none => .error (.malformed .badPairValue)
    | some value =>
      if (space.mutators[index]?.any fun mutator => mutator.hasValue value) then
        .ok (index, value)
      else
        .error (.malformed .illegalPairValue)

/-- The partial mutation with the given values and wildcards in all other places. Of two values
for one place the later one counts. -/
def slotsOf (space : Space) (pairs : List (Nat × Int32)) : List (Option Int32) :=
  pairs.foldl (fun slots pair => slots.set pair.1 (some pair.2))
    (List.replicate space.mutators.length none)

/-- The skip rule that a directive with the given arguments declares: two or more pairs of a
mutator and a value. -/
def skipRuleOf (space : Space) (args : List String) : Except Complaint SkipRule :=
  let args := Text.beforeComment args
  if args.length < 4 ∨ args.length % 2 ≠ 0 then .error (.malformed .tooFewSkipPairs)
  else do
    let pairs ← (inPairs args).mapM space.pairOf
    return ⟨space.slotsOf pairs⟩

/-- The pairs on one side of a replacement rule. No mutator may occur twice, and each must be
allowed. -/
def sideOf (space : Space) (allowed : Nat → Bool) :
    (taken : List Nat) → List (String × String) → Except Complaint (List (Nat × Int32))
  | _, [] => .ok []
  | taken, pair :: pairs => do
    let resolved ← space.pairOf pair
    if resolved.1 ∈ taken then .error (.malformed .repeatedMutator)
    else if !allowed resolved.1 then .error (.malformed .targetNotOnLeft)
    else do
      let rest ← space.sideOf allowed (resolved.1 :: taken) pairs
      return resolved :: rest

/-- The rule that changes the sources to the targets, which are for the same mutators. -/
def replacementOfSides (sources targets : List (Nat × Int32)) : Replacement :=
  ⟨sortByKey (fun change => (change.index : Int)) <|
    sources.map fun source =>
      { index := source.1
        before := source.2
        after := (targets.lookup source.1).getD source.2 }⟩

def replacementOfPairs (space : Space) (left right : List (String × String)) :
    Except Complaint Replacement := do
  let sources ← space.sideOf (fun _ => true) [] left
  let targets ← space.sideOf (fun index => sources.any fun source => source.1 == index) [] right
  let rule := replacementOfSides sources targets
  if space.replacements.any fun other => other.pattern == rule.pattern then
    .error .duplicateReplacement
  else
    return rule

/-- The replacement rule that a directive with the given arguments declares: pairs of a mutator
and a value, the word `to`, and as many pairs for the same mutators. -/
def replacementOf (space : Space) (args : List String) : Except Complaint Replacement :=
  let args := Text.beforeComment args
  let left := args.takeWhile fun token => token != "to"
  let right := (args.dropWhile fun token => token != "to").drop 1
  if "to" ∉ args then .error (.malformed .missingTo)
  else if left = [] ∨ left.length % 2 ≠ 0 then .error (.malformed .badPairsBeforeTo)
  else if right.length ≠ left.length then .error (.malformed .sidesDiffer)
  else space.replacementOfPairs (inPairs left) (inPairs right)

def addMutator (space : Space) (mutator : Mutator) : Space :=
  { space with mutators := space.mutators ++ [mutator] }

def addSkip (space : Space) (rule : SkipRule) : Space :=
  { space with skips := space.skips ++ [rule] }

def addReplacement (space : Space) (rule : Replacement) : Space :=
  { space with replacements := space.replacements ++ [rule] }

end Space

end Ubershader
