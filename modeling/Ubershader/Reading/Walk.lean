import Ubershader.Directive
import Ubershader.Draft.Command
import Ubershader.Reading.Event

/-!
# Walking the files of a program

A program is read from its entry file, line by line, and an included file is read in the place of
the line that includes it. The walk is a computation on a `Session` that may end in a fault; the
session is there in both cases.

A file is visited with the *room* that is left for including: the number of files that may be
nested from there on, itself counted. Visiting needs room, and the files that a file includes have
one less, so the walk ends whatever the provider answers.
-/

namespace Ubershader

/-- The state of a walk. The journal is only ever written to, so what a walk does depends on the
world and on the draft. -/
structure Session (σ κ : Type) where
  world : σ
  draft : Draft := {}
  journal : Array (Event κ) := #[]

/-- A computation on a session that may end in a fault. The session is not lost then: its journal
says how far the walk has come. -/
abbrev Walk (σ κ α : Type) := EStateM Fault (Session σ κ) α

namespace Walk

variable {σ κ : Type}

def record (event : Event κ) : Walk σ κ Unit :=
  modify fun session => { session with journal := session.journal.push event }

def perform (edit : Edit) : Walk σ κ Unit :=
  modify fun session =>
    { session with
      draft := session.draft.apply edit
      journal := session.journal.push (.edit edit) }

@[simp] theorem run_record (event : Event κ) (session : Session σ κ) :
    (record event).run session =
      .ok () { session with journal := session.journal.push event } := rfl

@[simp] theorem run_perform (edit : Edit) (session : Session σ κ) :
    (perform edit).run session =
      .ok () { session with
        draft := session.draft.apply edit
        journal := session.journal.push (.edit edit) } := rfl

def performAll : List Edit → Walk σ κ Unit
  | [] => pure ()
  | edit :: edits => do
    perform edit
    performAll edits

theorem run_performAll (edits : List Edit) (session : Session σ κ) :
    (performAll edits).run session =
      .ok () { session with
        draft := session.draft.applyAll edits
        journal := session.journal ++ (edits.map Event.edit).toArray } := by
  induction edits generalizing session with
  | nil => simp [performAll]
  | cons edit edits ih =>
    rw [performAll, EStateM.run_bind, run_perform]
    simp [ih]

/-- Ask the provider a question about a path. The answer is written into the journal, and a
refusal ends the walk. -/
def ask {α : Type} (path : String) (question : σ → Except String α × σ)
    (event : Except String α → Event κ) : Walk σ κ α := fun session =>
  let (answer, world) := question session.world
  let last := { session with world := world, journal := session.journal.push (event answer) }
  match answer with
  | .ok a => .ok a last
  | .error cause => .error (.provider path cause) last

def resolve (provider : Provider σ κ) (path : String) (context : κ) : Walk σ κ (Target κ) :=
  ask path (provider.resolve path context) (.resolve path context)

def fetch (provider : Provider σ κ) (path : String) (depth : Nat) : Walk σ κ String :=
  ask path (provider.fetch path) (.fetch path depth)

/-- Mark where the next line comes from, if markers are wanted. -/
def mark (settings : Settings) (number : Nat) (file : String) : Walk σ κ Unit :=
  if settings.lineMarkers then perform (.append (.marker number file)) else pure ()

def carryOut (settings : Settings) (site : Location) (args : List String) : Walk σ κ Unit := do
  let session ← get
  match Command.meaning settings session.draft site args with
  | .ok edits => performAll edits
  | .error complaint => throw (.directive site complaint)

/-- Carry out a command. A command that has a name is written into the journal first. -/
def runCommand (settings : Settings) (site : Location) : (args : List String) → Walk σ κ Unit
  | [] => carryOut settings site []
  | name :: args => do
    record (.command site name)
    carryOut settings site (name :: args)

/-- Open the include guard of a file, which may be done once. -/
def runOnce (file : String) (site : Location) (seen alone : Bool) : Walk σ κ Unit :=
  if seen then throw (.directive site (.malformed .repeatedOnce))
  else if !alone then throw (.directive site (.malformed .onceArguments))
  else performAll [.append (.guardOpen file), .append (.guardDefine file), .guard file]

/-- How a line reads an included file: from the line that includes it, and by its path as
written and the context of the including file. -/
abbrev Visitor (σ κ : Type) :=
  (site : Location) → (path : String) → (context : κ) → Walk σ κ Unit

def copyLine (once : Bool) (site : Location) : Walk σ κ Bool := do
  perform (.append (.copied site.file site.line site.text))
  return once

/-- Do what the directive on a line asks for. Whether the file is included once only is known from
the lines before, and is passed on to the lines behind. -/
def obey (settings : Settings) (visit : Visitor σ κ) (file : Target κ) (once : Bool)
    (site : Location) : Directive → Walk σ κ Bool
  | .plain => copyLine once site
  | .inclusion none => throw (.directive site (.malformed .inclusionPath))
  | .inclusion (some path) => do
    visit site path file.context
    mark settings (site.line + 1) site.file
    return once
  | .once alone => do
    runOnce file.path site once alone
    mark settings (site.line + 1) site.file
    return true
  | .command args => do
    runCommand settings site args
    mark settings (site.line + 1) site.file
    return once

/-- Read one line, as the directive says that is recognised in its text. -/
def readLine (settings : Settings) (visit : Visitor σ κ) (file : Target κ) (once : Bool)
    (site : Location) : Walk σ κ Bool :=
  obey settings visit file once site (Directive.ofLine site.text)

/-- Read lines, the first of which has a given number. -/
def readLines (settings : Settings) (visit : Visitor σ κ) (file : Target κ) :
    (number : Nat) → (once : Bool) → List String → Walk σ κ Bool
  | _, once, [] => return once
  | number, once, line :: lines => do
    let once ← readLine settings visit file once ⟨file.path, number, line⟩
    readLines settings visit file (number + 1) once lines

/-- Read the text of a file. A guard that its lines have opened is closed at its end. -/
def readFile (settings : Settings) (visit : Visitor σ κ) (file : Target κ) (text : String) :
    Walk σ κ Unit := do
  mark settings 1 file.path
  let once ← readLines settings visit file 1 false (Text.lines text)
  if once then perform (.append .guardClose) else pure ()

/-- Visit a file by its path as written, from a line that includes it, with the given room. A file
that is included once only and is already in the current buffer is left out. -/
def visit (settings : Settings) (provider : Provider σ κ) : (room : Nat) → Visitor σ κ
  | 0, site, path, _ =>
    throw (.tooDeep path site.file site.line (settings.maxIncludeDepth.toNat + 1))
  | room + 1, _, path, context => do
    let file ← resolve provider path context
    let session ← get
    if session.draft.current.holdsOnce file.path then
      record (.leaveOut file.path)
    else
      let text ← fetch provider file.path (settings.maxIncludeDepth.toNat - room)
      readFile settings (visit settings provider room) file text

end Walk

end Ubershader
