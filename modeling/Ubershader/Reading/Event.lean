import Ubershader.Draft.Basic
import Ubershader.Provider.Basic

/-!
# Events

The journal of a reading is the list of everything that happened, in order: each question to the
provider with its answer, each file that was left out because it is included once only and is
already there, each command that was met, and each edit of the draft. The log and the draft can
both be had from the journal.
-/

namespace Ubershader

inductive Call (κ : Type)
  | resolve (path : String) (context : κ)
  | fetch (path : String)
deriving DecidableEq, Repr

/-- Something that happens while a program is read. The reading itself never looks back at events;
they are there for the log, and for saying what a reading did. -/
inductive Event (κ : Type)
  /-- The provider was asked to resolve a path. -/
  | resolve (path : String) (context : κ) (answer : Except String (Target κ))
  /-- The provider was asked for the text of a file, which is included at a depth. -/
  | fetch (path : String) (depth : Nat) (answer : Except String String)
  /-- A file was left out because it is included once only. -/
  | leaveOut (path : String)
  /-- A command with a given name was met. -/
  | command (site : Location) (name : String)
  /-- The draft was edited. -/
  | edit (change : Edit)
deriving Repr

namespace Event

variable {κ : Type}

def edit? : Event κ → Option Edit
  | edit change => some change
  | _ => none

def call? : Event κ → Option (Call κ)
  | resolve path context _ => some (.resolve path context)
  | fetch path _ _ => some (.fetch path)
  | _ => none

def logEntry? : Event κ → Option String
  | fetch path depth (.ok _) =>
    some ("DEBUG parsing " ++ Text.quoted path ++ " at include depth " ++ depth.repr)
  | leaveOut path => some ("DEBUG " ++ Text.quoted path ++ " already included once, skipping")
  | command site name =>
    some ("TRACE " ++ site.shown ++ "#pragma anki " ++ name)
  | _ => none

end Event

end Ubershader
