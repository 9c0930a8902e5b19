import Ubershader.Program.Fingerprint
import Ubershader.Reading.Walk

/-!
# Reading a program

Reading a program walks its files from the entry file and then takes the program from the draft.
The report has the program or the fault, and in either case everything that happened on the way.
-/

namespace Ubershader

/-- What reading a program comes to. The session is there for a fault as well, with all that was
done before it. -/
structure Report (σ κ : Type) where
  outcome : Except Fault Program
  session : Session σ κ

namespace Report

variable {σ κ : Type}

def calls (report : Report σ κ) : List (Call κ) :=
  report.session.journal.toList.filterMap Event.call?

/-- The last entry of the log of a program that was read. -/
def summary (entry : String) (program : Program) : String :=
  "DEBUG parsed " ++ Text.quoted entry ++ ": " ++
    program.techniques.length.repr ++ " techniques, " ++
    program.space.mutators.length.repr ++ " mutators, " ++
    program.space.skips.length.repr ++ " skip rules, " ++
    program.space.replacements.length.repr ++ " rewrite rules, hash " ++
    Text.hex64 program.fingerprint

def log (report : Report σ κ) (entry : String) : List String :=
  report.session.journal.toList.filterMap Event.logEntry? ++
    match report.outcome with
    | .ok program => [summary entry program]
    | .error _ => []

end Report

/-- Read the program with a given entry file, whose path is resolved in a given context. -/
def read {σ κ : Type} (settings : Settings) (provider : Provider σ κ) (entry : String)
    (context : κ) (world : σ) : Report σ κ :=
  let walk := Walk.visit settings provider (settings.maxIncludeDepth.toNat + 1)
    ⟨entry, 0, ""⟩ entry context
  match walk.run { world := world } with
  | .ok _ session => ⟨Program.ofDraft settings entry session.draft, session⟩
  | .error fault session => ⟨.error fault, session⟩

end Ubershader
