import Ubershader.Draft.Basic
import Ubershader.Settings.Basic

/-!
# Commands

The meaning of a command is the list of edits it makes to a draft. What a command may do depends
on the settings and on the draft, and a command that may not be carried out gives a complaint and
no edits. Of several things that are wrong the first one in a fixed order is complained about.
-/

namespace Ubershader

namespace Command

def maxRayType : UInt32 := 128

/-- The name of a technique whose blocks give none. -/
def unnamedTechnique : String := "Unnamed"

/-- The word in front of the mutators that a block sees. -/
def usesMutators : String := "uses_mutators"

/-- The edits that a command makes, or what is wrong with it. A command that is refused makes no
edit at all. -/
abbrev Meaning := Except Complaint (List Edit)

def malformed {α : Type} (cause : Malformation) : Except Complaint α :=
  .error (.malformed cause)

/-- A command that is not allowed while a struct is open. The lines of a struct would go to two
buffers if a block could be opened or closed in between. -/
def outsideStruct (draft : Draft) (meaning : Meaning) : Meaning :=
  if draft.openStruct.isSome then .error (.struct .directiveInside) else meaning

def maskOf (space : Space) : List String → Except Complaint MutatorMask
  | [] => .ok 0
  | name :: names =>
    match space.mutatorIndex? name with
    | none => .error (.mutatorNotFound name)
    | some index => do
      let mask ← maskOf space names
      return BitVec.twoPow 64 index ||| mask

/-- The mutators that a block sees, from the arguments after its name. Without a list of them a
block sees every mutator, also one that is declared later. -/
def activeMask (space : Space) : List String → Except Complaint MutatorMask
  | [] => .ok (BitVec.allOnes 64)
  | word :: names =>
    if word = usesMutators then maskOf space names else malformed .expectedUsesMutators

/-- The name of a technique and the arguments after it. The name may be left out. -/
def techniqueName : List String → String × List String
  | [] => (unnamedTechnique, [])
  | word :: rest =>
    if word = usesMutators then (unnamedTechnique, word :: rest) else (word, rest)

/-- Open a block, unless one is open already or the stage of the technique has one. -/
def openBlock (draft : Draft) (site : Location) (technique : String) (stage : Stage)
    (active : MutatorMask) : Meaning :=
  if draft.openBlock.isSome then .error (.block .alreadyOpen)
  else if draft.hasBlock technique stage then .error (.block .repeatedStage)
  else .ok [.openBlock technique stage active site]

/-- `technique_start STAGE [NAME] [uses_mutators MUTATOR ...]` opens a block. -/
def techniqueStart (settings : Settings) (draft : Draft) (site : Location)
    (args : List String) : Meaning :=
  match Text.beforeComment args with
  | [] => malformed .missingStartStage
  | token :: args =>
    match Stage.ofToken? token with
    | none => malformed .unknownStage
    | some stage =>
      let (technique, args) := techniqueName args
      if !settings.supports stage then malformed .unsupportedStage
      else if !Text.isIdentifier technique then malformed .badTechniqueName
      else activeMask draft.space args >>= openBlock draft site technique stage

/-- Close the open block, if it is the one of the given technique and stage. -/
def closeBlock (draft : Draft) (technique : String) (stage : Stage) : Meaning :=
  match draft.openBlock with
  | none => .error (.block .endWithoutStart)
  | some block =>
    if block.technique = technique ∧ block.stage = stage then .ok [.closeBlock]
    else .error (.block .endMismatch)

/-- `technique_end STAGE [NAME]` closes the block of that stage and name. -/
def techniqueEnd (draft : Draft) (args : List String) : Meaning :=
  match Text.beforeComment args with
  | [] => malformed .missingEndStage
  | token :: args =>
    match Stage.ofToken? token with
    | none => malformed .unknownStage
    | some stage =>
      match args with
      | [] => closeBlock draft unnamedTechnique stage
      | [technique] => closeBlock draft technique stage
      | _ => malformed .tooManyEndArguments

/-- `library NAME` names the library that the program belongs to, once. -/
def library (draft : Draft) (args : List String) : Meaning :=
  match Text.beforeComment args with
  | [name] =>
    if draft.library.isSome then malformed .repeatedLibrary else .ok [.setLibrary name]
  | _ => malformed .libraryArguments

/-- `ray_type N` sets the ray type, once. -/
def rayType (draft : Draft) (args : List String) : Meaning :=
  match Text.beforeComment args with
  | [token] =>
    match Text.uint32? token with
    | none => malformed .rayTypeNotInteger
    | some value =>
      if draft.rayType.isSome then malformed .repeatedRayType
      else if maxRayType < value then malformed .largeRayType
      else .ok [.setRayType value]
  | _ => malformed .rayTypeArguments

/-- `struct NAME` opens a struct. -/
def structStart (site : Location) (args : List String) : Meaning :=
  match Text.beforeComment args with
  | [name] =>
    if Text.isIdentifier name then
      .ok [.openStruct name site, .append (.expansion (PackedStruct.openingLine ⟨name, []⟩))]
    else malformed .structName
  | _ => malformed .structName

def addMember (struct : PackedStruct) (typeToken name : String) : Meaning :=
  match MemberType.ofToken? typeToken with
  | none => malformed .unknownMemberType
  | some type =>
    if !Text.isIdentifier name then malformed .badMemberName
    else if struct.hasMember name then malformed .repeatedMember
    else
      let member := struct.nextMember name type
      .ok (.addMember member ::
        (struct.memberLines member typeToken).map fun text => .append (.expansion text))

/-- `member TYPE NAME` adds a member to the open struct. -/
def member (draft : Draft) (args : List String) : Meaning :=
  match draft.openStruct with
  | none => .error (.struct .memberOutside)
  | some struct =>
    match Text.beforeComment args with
    | [typeToken, name] => addMember struct.struct typeToken name
    | _ => malformed .memberArguments

/-- `struct_end` closes the open struct. -/
def structEnd (draft : Draft) (args : List String) : Meaning :=
  match draft.openStruct with
  | none => .error (.struct .endWithoutStart)
  | some struct =>
    if Text.beforeComment args ≠ [] then malformed .structEndArguments
    else if struct.struct.members = [] then malformed .emptyStruct
    else
      .ok (.closeStruct ::
        struct.struct.closingLines.map fun text => .append (.expansion text))

/-- `16bit` declares that the program uses 16-bit types. -/
def sixteenBit (args : List String) : Meaning :=
  if Text.beforeComment args ≠ [] then malformed .sixteenBitArguments
  else .ok [.allowSixteenBit]

def named (settings : Settings) (draft : Draft) (site : Location) (args : List String)
    (name : String) : Meaning :=
  if name = "mutator" then
    outsideStruct draft ((draft.space.mutatorOf args).map fun mutator => [.addMutator mutator])
  else if name = "technique_start" then
    outsideStruct draft (techniqueStart settings draft site args)
  else if name = "technique_end" then
    outsideStruct draft (techniqueEnd draft args)
  else if name = "skip_mutation" then
    outsideStruct draft ((draft.space.skipRuleOf args).map fun rule => [.addSkip rule])
  else if name = "rewrite_mutation" then
    outsideStruct draft
      ((draft.space.replacementOf args).map fun rule => [.addReplacement rule])
  else if name = "library" then outsideStruct draft (library draft args)
  else if name = "ray_type" then outsideStruct draft (rayType draft args)
  else if name = "struct" then outsideStruct draft (structStart site args)
  else if name = "member" then member draft args
  else if name = "struct_end" then structEnd draft args
  else if name = "16bit" then sixteenBit args
  else malformed .unknownCommand

/-- The meaning of a command, given by its name and arguments. -/
def meaning (settings : Settings) (draft : Draft) (site : Location) : List String → Meaning
  | [] => malformed .missingCommand
  | name :: args => named settings draft site args name

end Command

end Ubershader
