import Ubershader.Proofs.Machine.Command
import Ubershader.Proofs.Reading.IncludeOnce

/-!
# A machine that reads programs

The machine reads line by line, with a stack of the files that it is in the middle of, a roster,
and the world of the provider. Nothing bounds it: a file that is included is pushed onto the stack
with a depth that is counted up in 32 bits, and the machine goes on for as long as there are lines.
Each step is made of checked operations and may crash.

What is left to do on a stack is a walk, `Walk.resume`. It is how the machine is compared with the
reading of a program, which recurses into the files instead.
-/

namespace Ubershader

structure Frame (κ : Type) where
  file : Target κ
  depth : Nat
  /-- The number of the next line. -/
  number : Nat
  /-- Whether the file has opened its include guard. -/
  once : Bool
  /-- The lines that are left. -/
  lines : List String

structure Machine (σ κ : Type) where
  world : σ
  roster : Roster := {}
  /-- The files that are being read, the innermost one first. -/
  stack : List (Frame κ) := []

inductive Status (σ κ : Type)
  | going (machine : Machine σ κ)
  | ended (outcome : Except Fault Program)

namespace Machine

variable {σ κ : Type}

def proceed (machine : Machine σ κ) (edits : List Edit) : Checked (Status σ κ) := do
  let roster ← machine.roster.applyAll edits
  return .going { machine with roster := roster }

/-- End with a fault. The include guards of the files on the stack are closed on the way out. -/
def fail (machine : Machine σ κ) (fault : Fault) : Checked (Status σ κ) := do
  let _ ← machine.roster.applyAll
    ((machine.stack.filter Frame.once).map fun _ => .append .guardClose)
  return .ended (.error fault)

/-- The edits that are made when an included file is done and the one below it is gone on with. -/
def returning (settings : Settings) : List (Frame κ) → List Edit
  | [] => []
  | frame :: _ => Walk.markers settings frame.number frame.file.path

/-- Start to read a file that was found, unless the current buffer has it and it is included once
only. -/
def openFile (settings : Settings) (provider : Provider σ κ) (machine : Machine σ κ)
    (file : Target κ) (depth : Nat) : Checked (Status σ κ) := do
  let current ← machine.roster.current
  if current.holdsOnce file.path then machine.proceed (returning settings machine.stack)
  else
    match provider.fetch file.path machine.world with
    | (.error cause, world) => fail { machine with world := world } (.provider file.path cause)
    | (.ok text, world) =>
      let frame : Frame κ := ⟨file, depth, 1, false, Text.lines text⟩
      proceed { machine with world := world, stack := frame :: machine.stack }
        (Walk.markers settings 1 file.path)

/-- Look for a file that is included from a line, and start to read it at a depth. -/
def enter (settings : Settings) (provider : Provider σ κ) (machine : Machine σ κ) (site : Location)
    (path : String) (context : κ) (depth : Nat) : Checked (Status σ κ) :=
  if settings.maxIncludeDepth.toNat < depth then
    machine.fail (.tooDeep path site.file site.line depth)
  else
    match provider.resolve path context machine.world with
    | (.error cause, world) => fail { machine with world := world } (.provider path cause)
    | (.ok file, world) => openFile settings provider { machine with world := world } file depth

def openGuard (settings : Settings) (machine : Machine σ κ) (frame : Frame κ)
    (stack : List (Frame κ)) (site : Location) (alone : Bool) : Checked (Status σ κ) :=
  if frame.once then machine.fail (.directive site (.malformed .repeatedOnce))
  else if !alone then machine.fail (.directive site (.malformed .onceArguments))
  else
    proceed { machine with stack := { frame with once := true } :: stack }
      (Walk.guardOpening frame.file.path ++ Walk.markers settings (site.line + 1) site.file)

def carryOut (settings : Settings) (machine : Machine σ κ) (site : Location)
    (args : List String) : Checked (Status σ κ) := do
  match ← (machine.roster.attempt settings site args).run with
  | .ok edits => machine.proceed (edits ++ Walk.markers settings (site.line + 1) site.file)
  | .error complaint => machine.fail (.directive site complaint)

/-- Read a line of the innermost file, which is given without that line. -/
def readLine (settings : Settings) (provider : Provider σ κ) (machine : Machine σ κ)
    (frame : Frame κ) (stack : List (Frame κ)) (site : Location) : Checked (Status σ κ) := do
  let machine := { machine with stack := frame :: stack }
  match ← Checked.directive site.text with
  | .plain => machine.proceed [.append (.copied site.file site.line site.text)]
  | .inclusion none => machine.fail (.directive site (.malformed .inclusionPath))
  | .inclusion (some path) => do
    let depth ← Checked.add frame.depth 1
    machine.enter settings provider site path frame.file.context depth
  | .once alone => machine.openGuard settings frame stack site alone
  | .command args => machine.carryOut settings site args

/-- One step: read a line, leave a file that has no more lines, or finish. -/
def step (settings : Settings) (provider : Provider σ κ) (entry : String)
    (machine : Machine σ κ) : Checked (Status σ κ) :=
  match machine.stack with
  | [] => return .ended (machine.roster.finish settings entry)
  | frame :: stack =>
    match frame.lines with
    | [] =>
      proceed { machine with stack := stack }
        (Walk.guardClosing frame.once ++ returning settings stack)
    | text :: lines =>
      machine.readLine settings provider { frame with number := frame.number + 1, lines := lines }
        stack ⟨frame.file.path, frame.number, text⟩

def run (settings : Settings) (provider : Provider σ κ) (entry : String) :
    (steps : Nat) → Status σ κ → Checked (Status σ κ)
  | 0, status => .ok status
  | _ + 1, .ended outcome => .ok (.ended outcome)
  | steps + 1, .going machine => do
    let status ← machine.step settings provider entry
    run settings provider entry steps status

/-- Start with the entry file, and make a number of steps. -/
def execute (settings : Settings) (provider : Provider σ κ) (entry : String) (context : κ)
    (world : σ) (steps : Nat) : Checked (Status σ κ) := do
  let status ← ({ world := world } : Machine σ κ).enter settings provider ⟨entry, 0, ""⟩ entry
    context 0
  run settings provider entry steps status

end Machine

/-! ## What is left to do -/

namespace Walk

variable {σ κ : Type}

theorem performAll_append (front back : List Edit) :
    (performAll (front ++ back) : Walk σ κ Unit) =
      performAll front >>= fun _ => performAll back := by
  induction front with
  | nil => simp [performAll]
  | cons edit front ih => simp [performAll, ih]

theorem mark_eq (settings : Settings) (number : Nat) (file : String) :
    (mark settings number file : Walk σ κ Unit) =
      performAll (markers settings number file) := by
  rw [mark, markers]
  split <;> simp [performAll]

/-- Read the files of a stack to their ends, from the innermost one outwards. -/
def resume (settings : Settings) (provider : Provider σ κ) : List (Frame κ) → Walk σ κ Unit
  | [] => pure ()
  | frame :: stack => do
    let once ← readLines settings
      (visit settings provider (settings.maxIncludeDepth.toNat - frame.depth)) frame.file
      frame.number frame.once frame.lines
    performAll (guardClosing once ++ Machine.returning settings stack)
    resume settings provider stack

variable {settings : Settings} {provider : Provider σ κ}

theorem resume_line {frame : Frame κ} {text : String} {lines : List String}
    (hlines : frame.lines = text :: lines) (stack : List (Frame κ)) :
    resume settings provider (frame :: stack) =
      readLine settings (visit settings provider (settings.maxIncludeDepth.toNat - frame.depth))
          frame.file frame.once ⟨frame.file.path, frame.number, text⟩ >>= fun once =>
        resume settings provider
          ({ frame with number := frame.number + 1, once := once, lines := lines } :: stack) := by
  simp [resume, readLines, hlines]

/-- Reading a file in the midst of a stack is what is left to do with that file on top. -/
theorem readFile_resume (file : Target κ) (depth : Nat) (text : String)
    (stack : List (Frame κ)) :
    (do
      readFile settings (visit settings provider (settings.maxIncludeDepth.toNat - depth)) file text
      performAll (Machine.returning settings stack)
      resume settings provider stack) =
    (do
      performAll (markers settings 1 file.path)
      resume settings provider (⟨file, depth, 1, false, Text.lines text⟩ :: stack)) := by
  have hclose : ∀ once : Bool, (if once then perform (.append .guardClose) else pure () :
      Walk σ κ Unit) = performAll (guardClosing once) := by
    intro once
    cases once <;> simp [guardClosing, performAll]
  simp only [readFile, resume, mark_eq, hclose, performAll_append, bind_assoc]

/-- Nothing is taken out of the journal by what is left to do. -/
theorem isPrefix_resume (stack : List (Frame κ)) (session : Session σ κ) :
    session.journal.toList <+:
      ((resume settings provider stack).endSession session).journal.toList := by
  have hgrows := stepRelation_isPrefix settings provider
  suffices hrespects : Respects
      (fun earlier later => earlier.journal.toList <+: later.journal.toList)
      (resume settings provider stack) from hrespects session
  induction stack with
  | nil => exact hgrows.respects_pure ()
  | cons frame stack ih =>
    refine hgrows.respects_bind
      (hgrows.respects_readLines (hgrows.respects_visit _) _ _ _ _) fun once => ?_
    refine hgrows.respects_bind (fun session => ?_) fun _ => ih
    simp

end Walk

end Ubershader
