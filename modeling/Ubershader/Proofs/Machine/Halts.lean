import Mathlib.Logic.Hydra
import Ubershader.Proofs.Machine.Basic

/-!
# The machine halts

The machine follows the reading of a program: at every moment it has the world of a session and a
roster of its edits, and what is left to do on its stack takes that session to the end of the
reading. A step keeps this up without a crash. So if the machine halts, then with the outcome of the
reading.

It halts whatever the provider answers. A line that is read may push a file with any number of
lines, but with less room for including others than the file it is included by. In the multiset of
the rooms and remaining lines of all files on the stack, a step takes out one pair and puts in
smaller ones, and that cannot go on forever.
-/

namespace Ubershader

namespace Walk

variable {σ κ α β : Type}

theorem perform_eq (edit : Edit) : (perform edit : Walk σ κ Unit) = performAll [edit] := by
  simp [performAll]

end Walk

/-- Lines may be appended at any time. -/
theorem Session.Traced.append {σ κ : Type} {settings : Settings} {session : Session σ κ}
    (traced : session.Traced settings) {edits : List Edit}
    (hlines : ∀ edit ∈ edits, edit.line?.isSome = true) :
    ((Walk.performAll edits).endSession session).Traced settings := by
  have hedits : ∃ lines : List Line, edits = lines.map Edit.append := by
    induction edits with
    | nil => exact ⟨[], rfl⟩
    | cons edit edits ih =>
      obtain ⟨hedit, hrest⟩ := List.forall_mem_cons.mp hlines
      obtain ⟨lines, rfl⟩ := ih hrest
      obtain ⟨line, hline⟩ := Option.isSome_iff_exists.mp hedit
      cases edit <;> cases hline
      exact ⟨line :: lines, rfl⟩
  obtain ⟨lines, rfl⟩ := hedits
  exact traced_performAll traced (traced.trace.append_lines lines)

theorem Walk.isSome_line?_markers {settings : Settings} {number : Nat} {file : String} :
    ∀ edit ∈ markers settings number file, edit.line?.isSome = true := by
  rw [markers]
  split <;> simp [Edit.line?]

theorem Walk.isSome_line?_guardClosing {once : Bool} :
    ∀ edit ∈ guardClosing once, edit.line?.isSome = true := by
  cases once <;> simp [guardClosing, Edit.line?]

/-- What a reading comes to that starts with a walk of a given result. -/
def outcomeOf {σ κ : Type} (settings : Settings) (entry : String) :
    EStateM.Result Fault (Session σ κ) Unit → Except Fault Program
  | .ok _ session => Program.ofDraft settings entry session.draft
  | .error fault _ => .error fault

namespace Machine

variable {σ κ : Type} {settings : Settings} {provider : Provider σ κ} {entry : String}

theorem isSome_line?_returning (stack : List (Frame κ)) :
    ∀ edit ∈ returning settings stack, edit.line?.isSome = true := by
  cases stack with
  | nil => simp [returning]
  | cons frame stack => exact Walk.isSome_line?_markers

/-! ## Following a session -/

/-- No file of a stack is deeper than allowed. -/
def Nested (settings : Settings) (stack : List (Frame κ)) : Prop :=
  ∀ frame ∈ stack, frame.depth ≤ settings.maxIncludeDepth.toNat

theorem nested_cons {frame : Frame κ} {stack : List (Frame κ)} :
    Nested settings (frame :: stack) ↔
      frame.depth ≤ settings.maxIncludeDepth.toNat ∧ Nested settings stack :=
  List.forall_mem_cons

/-- The machine has the world of a session and a roster of its edits, and its files are nested as
deeply as allowed at most. -/
structure Follows (settings : Settings) (machine : Machine σ κ) (session : Session σ κ) :
    Prop where
  world : machine.world = session.world
  roster : Roster.applyAll {} session.edits = .ok machine.roster
  traced : session.Traced settings
  nested : Nested settings machine.stack

variable {machine : Machine σ κ} {session : Session σ κ}

theorem Follows.represents (hfollows : machine.Follows settings session) :
    machine.roster.Represents session.draft := by
  obtain ⟨roster, hroster, hrepresents⟩ :=
    Roster.exists_applyAll_of_trace hfollows.traced.trace
  cases hfollows.roster.symm.trans hroster
  rw [hfollows.traced.draft]
  exact hrepresents

theorem Follows.wellFormed (hfollows : machine.Follows settings session) :
    session.draft.WellFormed := by
  rw [hfollows.traced.draft]
  exact Draft.wellFormed_of_trace hfollows.traced.trace

/-- A question to the provider changes nothing but the world. -/
theorem Follows.ask (hfollows : machine.Follows settings session) {α : Type} (path : String)
    (question : σ → Except String α × σ) {event : Except String α → Event κ}
    (hevent : ∀ answer, (event answer).edit? = none) :
    Follows settings { machine with world := (question session.world).2 }
      ((Walk.ask path question event).endSession session) := by
  have hedits : ((Walk.ask path question event).endSession session).edits = session.edits := by
    simp [Session.edits, hevent]
  constructor
  · simp
  · rw [hedits]
    exact hfollows.roster
  · exact ⟨by rw [hedits]; simpa using hfollows.traced.draft, hedits ▸ hfollows.traced.trace⟩
  · exact hfollows.nested

theorem Follows.record (hfollows : machine.Follows settings session) {event : Event κ}
    (hevent : event.edit? = none) :
    machine.Follows settings ((Walk.record event).endSession session) := by
  have hedits : ((Walk.record event).endSession session).edits = session.edits := by
    simp [Session.edits, hevent]
  constructor
  · simpa using hfollows.world
  · rw [hedits]
    exact hfollows.roster
  · exact ⟨by rw [hedits]; exact hfollows.traced.draft, hedits ▸ hfollows.traced.trace⟩
  · exact hfollows.nested

theorem Follows.setStack (hfollows : machine.Follows settings session) {stack : List (Frame κ)}
    (hnested : Nested settings stack) :
    Follows settings { machine with stack := stack } session :=
  { hfollows with nested := hnested }

/-- Edits that the session goes on with can be made on the roster. -/
theorem Follows.exists_proceed (hfollows : machine.Follows settings session)
    {next : Session σ κ} {edits : List Edit} (hworld : next.world = session.world)
    (hedits : next.edits = session.edits ++ edits) (htraced : next.Traced settings) :
    ∃ roster, machine.proceed edits = .ok (.going { machine with roster := roster }) ∧
      Follows settings { machine with roster := roster } next := by
  obtain ⟨roster, hroster, -⟩ := Roster.exists_applyAll_of_trace htraced.trace
  refine ⟨roster, ?_, ⟨hfollows.world.trans hworld.symm, hroster, htraced, hfollows.nested⟩⟩
  rw [hedits, Roster.applyAll_append, hfollows.roster, Checked.ok_bind] at hroster
  simp [proceed, hroster]

/-- The guards that are open can always be closed. -/
theorem Follows.fail_eq (hfollows : machine.Follows settings session) (fault : Fault) :
    machine.fail fault = .ok (.ended (.error fault)) := by
  have trace := hfollows.traced.trace.append_lines
    ((machine.stack.filter Frame.once).map fun _ => .guardClose)
  obtain ⟨roster, hroster, -⟩ := Roster.exists_applyAll_of_trace trace
  rw [Roster.applyAll_append, hfollows.roster, Checked.ok_bind, List.map_map,
    Function.comp_def] at hroster
  rw [fail, hroster]
  rfl

theorem Follows.noted (hfollows : machine.Follows settings session) (site : Location)
    (args : List String) : machine.Follows settings (Walk.noted site args session) := by
  cases args with
  | nil => exact hfollows
  | cons name args => exact hfollows.record rfl

/-! ## On the way to a result -/

/-- The machine is on its way to the given result of a walk. -/
def Agrees (settings : Settings) (provider : Provider σ κ)
    (result : EStateM.Result Fault (Session σ κ) Unit) (machine : Machine σ κ) : Prop :=
  ∃ session, machine.Follows settings session ∧
    (Walk.resume settings provider machine.stack).run session = result

/-- The room and the number of lines that are left, for each file of a stack. -/
def load (settings : Settings) (stack : List (Frame κ)) : List (Nat × Nat) :=
  stack.map fun frame => (settings.maxIncludeDepth.toNat - frame.depth, frame.lines.length)

theorem load_cons (frame : Frame κ) (stack : List (Frame κ)) :
    load settings (frame :: stack) =
      (settings.maxIncludeDepth.toNat - frame.depth, frame.lines.length) ::
        load settings stack := rfl

/-- A stack bears a load and, on top of it, files with less than a given room. -/
def Bears (settings : Settings) (room : Nat) (base : List (Nat × Nat)) (stack : List (Frame κ)) :
    Prop :=
  ∃ front, load settings stack = front ++ base ∧ ∀ pair ∈ front, pair.1 < room

theorem bears_load (room : Nat) (stack : List (Frame κ)) :
    Bears settings room (load settings stack) stack :=
  ⟨[], rfl, by simp⟩

/-- A step goes through. The machine ends with the outcome of a result, or it is still on its way to
that result and the stack bears a given load and files with less than a given room. -/
inductive Advances (settings : Settings) (provider : Provider σ κ) (entry : String)
    (result : EStateM.Result Fault (Session σ κ) Unit) (room : Nat) (base : List (Nat × Nat)) :
    Checked (Status σ κ) → Prop
  | going {machine : Machine σ κ} (agrees : machine.Agrees settings provider result)
      (bears : Bears settings room base machine.stack) :
      Advances settings provider entry result room base (.ok (.going machine))
  | ended : Advances settings provider entry result room base
      (.ok (.ended ((outcomeOf settings entry result).map Program.inPipelineOrder)))

variable {result : EStateM.Result Fault (Session σ κ) Unit} {room : Nat} {base : List (Nat × Nat)}

theorem Follows.advances_fail (hfollows : machine.Follows settings session) {fault : Fault}
    {last : Session σ κ} (hresult : .error fault last = result) :
    Advances settings provider entry result room base (machine.fail fault) := by
  rw [hfollows.fail_eq, ← hresult]
  exact .ended

theorem Follows.advances_proceed (hfollows : machine.Follows settings session)
    (hbears : Bears settings room base machine.stack) {next : Session σ κ} {edits : List Edit}
    (hworld : next.world = session.world) (hedits : next.edits = session.edits ++ edits)
    (htraced : next.Traced settings)
    (hrun : (Walk.resume settings provider machine.stack).run next = result) :
    Advances settings provider entry result room base (machine.proceed edits) := by
  obtain ⟨roster, hproceed, hnext⟩ := hfollows.exists_proceed hworld hedits htraced
  rw [hproceed]
  exact .going ⟨next, hnext, hrun⟩ hbears

theorem Follows.advances_proceed_lines (hfollows : machine.Follows settings session)
    (hbears : Bears settings room base machine.stack) {edits : List Edit}
    (hlines : ∀ edit ∈ edits, edit.line?.isSome = true)
    (hrun : (Walk.resume settings provider machine.stack).run
      ((Walk.performAll edits).endSession session) = result) :
    Advances settings provider entry result room base (machine.proceed edits) :=
  hfollows.advances_proceed hbears (by simp) (Session.edits_performAll edits session)
    (hfollows.traced.append hlines) hrun

/-- Edits that can be made, and a marker after them. -/
theorem Follows.advances_proceed_markers (hfollows : machine.Follows settings session)
    (hbears : Bears settings room base machine.stack) {edits : List Edit} {number : Nat}
    {file : String} (htraced : ((Walk.performAll edits).endSession session).Traced settings)
    (hrun : (Walk.resume settings provider machine.stack).run
      ((Walk.performAll (Walk.markers settings number file)).endSession
        ((Walk.performAll edits).endSession session)) = result) :
    Advances settings provider entry result room base
      (machine.proceed (edits ++ Walk.markers settings number file)) := by
  refine hfollows.advances_proceed hbears (by simp) ?_
    (htraced.append Walk.isSome_line?_markers) hrun
  rw [Session.edits_performAll, Session.edits_performAll, List.append_assoc]

/-! ## Files -/

/-- A file that was found is left out, or cannot be had, or is put on the stack with its lines. -/
theorem Follows.advances_openFile (hfollows : machine.Follows settings session)
    {file : Target κ} {depth shown : Nat} (hdepth : depth ≤ settings.maxIncludeDepth.toNat)
    (hrun : ((if session.draft.current.holdsOnce file.path then
          Walk.record (.leaveOut file.path)
        else
          Walk.fetch provider file.path shown >>= fun text => Walk.readFile settings
            (Walk.visit settings provider (settings.maxIncludeDepth.toNat - depth)) file text) >>=
        fun _ => Walk.performAll (returning settings machine.stack) >>=
          fun _ => Walk.resume settings provider machine.stack).run session = result) :
    Advances settings provider entry result (settings.maxIncludeDepth.toNat + 1 - depth)
      (load settings machine.stack) (machine.openFile settings provider file depth) := by
  rw [openFile, hfollows.represents.current_eq_ok, Checked.ok_bind]
  split
  · next hheld =>
    rw [if_pos hheld, Walk.run_bind_of_ok (Walk.run_record _ _),
      Walk.run_bind_of_ok (Walk.run_performAll_eq _ _)] at hrun
    have hnoted := hfollows.record (rfl : (Event.leaveOut file.path : Event κ).edit? = none)
    exact hnoted.advances_proceed_lines (bears_load _ _)
      (isSome_line?_returning machine.stack) hrun
  · next hheld =>
    rw [if_neg hheld, bind_assoc, Walk.fetch] at hrun
    have hevent : ∀ answer, (Event.fetch file.path shown answer : Event κ).edit? = none :=
      fun _ => rfl
    have hasked := hfollows.ask file.path (provider.fetch file.path) hevent
    rw [hfollows.world]
    rcases hanswer : provider.fetch file.path session.world with ⟨cause | text, world⟩
    · rw [hanswer] at hasked
      rw [Walk.run_bind_of_error (Walk.run_ask_of_error (by rw [hanswer]))] at hrun
      exact hasked.advances_fail hrun
    · rw [hanswer] at hasked
      rw [Walk.run_bind_of_ok (Walk.run_ask_of_ok (by rw [hanswer])), Walk.readFile_resume,
        Walk.run_bind_of_ok (Walk.run_performAll_eq _ _)] at hrun
      have hnested : Nested settings (⟨file, depth, 1, false, Text.lines text⟩ :: machine.stack) :=
        nested_cons.mpr ⟨hdepth, hfollows.nested⟩
      refine (hasked.setStack hnested).advances_proceed_lines ?_ Walk.isSome_line?_markers hrun
      refine ⟨[(settings.maxIncludeDepth.toNat - depth, (Text.lines text).length)], rfl, ?_⟩
      intro pair hpair
      obtain rfl := List.mem_singleton.mp hpair
      exact (Nat.succ_sub hdepth).symm ▸ Nat.lt_succ_self _

/-- A file is entered as it is visited. -/
theorem Follows.advances_enter (hfollows : machine.Follows settings session)
    {site : Location} {path : String} {context : κ} {depth : Nat}
    (hdepth : depth ≤ settings.maxIncludeDepth.toNat + 1)
    (hrun : (Walk.visit settings provider (settings.maxIncludeDepth.toNat + 1 - depth) site path
        context >>= fun _ => Walk.performAll (returning settings machine.stack) >>=
          fun _ => Walk.resume settings provider machine.stack).run session = result) :
    Advances settings provider entry result (settings.maxIncludeDepth.toNat + 1 - depth)
      (load settings machine.stack) (machine.enter settings provider site path context depth) := by
  rw [enter]
  by_cases hdeep : settings.maxIncludeDepth.toNat < depth
  · have hroom : settings.maxIncludeDepth.toNat + 1 - depth = 0 := by omega
    have hlast : settings.maxIncludeDepth.toNat + 1 = depth := by omega
    rw [hroom, Walk.visit, hlast] at hrun
    rw [if_pos hdeep]
    exact hfollows.advances_fail hrun
  · have hroom : settings.maxIncludeDepth.toNat + 1 - depth =
        settings.maxIncludeDepth.toNat - depth + 1 := by omega
    rw [hroom, Walk.visit, bind_assoc, Walk.resolve] at hrun
    rw [if_neg hdeep, hfollows.world]
    have hevent : ∀ answer, (Event.resolve path context answer : Event κ).edit? = none :=
      fun _ => rfl
    have hasked := hfollows.ask path (provider.resolve path context) hevent
    rcases hanswer : provider.resolve path context session.world with ⟨cause | file, world⟩
    · rw [hanswer] at hasked
      rw [Walk.run_bind_of_error (Walk.run_ask_of_error (by rw [hanswer]))] at hrun
      exact hasked.advances_fail hrun
    · rw [hanswer] at hasked
      rw [Walk.run_bind_of_ok (Walk.run_ask_of_ok (by rw [hanswer])), bind_assoc,
        Walk.run_bind_of_ok (EStateM.run_get _)] at hrun
      exact hasked.advances_openFile (Nat.le_of_not_lt hdeep) hrun

/-! ## Lines -/

variable {frame : Frame κ} {stack : List (Frame κ)} {site : Location}

theorem Follows.advances_openGuard (hfollows : machine.Follows settings session)
    (hnested : Nested settings (frame :: stack))
    {alone : Bool}
    (hrun : (Walk.runOnce frame.file.path site frame.once alone >>= fun _ =>
      Walk.performAll (Walk.markers settings (site.line + 1) site.file) >>= fun _ =>
        Walk.resume settings provider ({ frame with once := true } :: stack)).run session =
      result) :
    Advances settings provider entry result room (load settings (frame :: stack))
      (machine.openGuard settings frame stack site alone) := by
  rw [openGuard]
  rw [Walk.runOnce] at hrun
  by_cases hseen : frame.once = true
  · rw [if_pos hseen] at hrun ⊢
    exact hfollows.advances_fail hrun
  · rw [if_neg hseen] at hrun ⊢
    by_cases halone : (!alone) = true
    · rw [if_pos halone] at hrun ⊢
      exact hfollows.advances_fail hrun
    · rw [if_neg halone] at hrun ⊢
      rw [Walk.run_bind_of_ok (Walk.run_performAll_eq _ _),
        Walk.run_bind_of_ok (Walk.run_performAll_eq _ _)] at hrun
      have htraced := (Session.stepRelation_traced settings provider).guard frame.file.path
        session hfollows.traced
      obtain ⟨hdepth, hbelow⟩ := nested_cons.mp hnested
      have hopened : Nested settings ({ frame with once := true } :: stack) :=
        nested_cons.mpr ⟨hdepth, hbelow⟩
      exact (hfollows.setStack hopened).advances_proceed_markers (bears_load _ _) htraced hrun

/-- A command is carried out without a crash, and means what it means on the draft. -/
theorem Follows.advances_carryOut (hfollows : machine.Follows settings session)
    (hsize : session.draft.Addressable)
    {args : List String} (hline : Directive.ofLine site.text = .command args)
    (hrun : (Walk.runCommand settings site args >>= fun _ =>
      Walk.performAll (Walk.markers settings (site.line + 1) site.file) >>= fun _ =>
        Walk.resume settings provider machine.stack).run session = result) :
    Advances settings provider entry result room (load settings machine.stack)
      (machine.carryOut settings site args) := by
  have hattempt : (machine.roster.attempt settings site args).run =
      .ok (Command.meaning settings session.draft site args) :=
    hfollows.represents.gives_attempt hfollows.wellFormed hsize site args
  have hdraft := Walk.draft_noted site args session
  rw [carryOut, hattempt, Checked.ok_bind]
  cases hmeaning : Command.meaning settings session.draft site args with
  | error complaint =>
    rw [Walk.run_bind_of_error ((Walk.run_runCommand ..).trans
      (Walk.run_carryOut_of_error (hdraft ▸ hmeaning)))] at hrun
    exact hfollows.advances_fail hrun
  | ok edits =>
    rw [Walk.run_bind_of_ok ((Walk.run_runCommand ..).trans
      (Walk.run_carryOut_of_ok (hdraft ▸ hmeaning))),
      Walk.run_bind_of_ok (Walk.run_performAll_eq _ _)] at hrun
    have hnoted := hfollows.noted site args
    have htraced := (Session.stepRelation_traced settings provider).command _ site args edits hline
      (hdraft ▸ hmeaning) hnoted.traced
    exact hnoted.advances_proceed_markers (bears_load _ _) htraced hrun

/-- A line is read without a crash, and as it is read by the walk. What it puts on the stack has
less room than the file that it stands in. -/
theorem Follows.advances_readLine (hfollows : machine.Follows settings session)
    (hmax : settings.maxIncludeDepth.toNat < 2 ^ 32 - 1) (hsize : session.draft.Addressable)
    (hnested : Nested settings (frame :: stack))
    {number : Nat} {text : String} (hnumber : frame.number = number + 1)
    (hrun : (Walk.readLine settings
        (Walk.visit settings provider (settings.maxIncludeDepth.toNat - frame.depth)) frame.file
        frame.once ⟨frame.file.path, number, text⟩ >>= fun once =>
          Walk.resume settings provider ({ frame with once := once } :: stack)).run session =
        result) :
    Advances settings provider entry result (settings.maxIncludeDepth.toNat - frame.depth)
      (load settings (frame :: stack))
      (machine.readLine settings provider frame stack ⟨frame.file.path, number, text⟩) := by
  have hstart := hfollows.setStack hnested
  rw [readLine, Checked.directive_eq_ok, Checked.ok_bind]
  rw [Walk.readLine] at hrun
  dsimp only at hrun ⊢
  cases hline : Directive.ofLine text with
  | plain =>
    rw [hline, Walk.obey, Walk.copyLine, Walk.perform_eq, bind_assoc, pure_bind,
      Walk.run_bind_of_ok (Walk.run_performAll_eq _ _)] at hrun
    exact hstart.advances_proceed_lines (bears_load _ _) (by simp [Edit.line?]) hrun
  | inclusion path =>
    cases path with
    | none =>
      rw [hline, Walk.obey] at hrun
      exact hstart.advances_fail hrun
    | some path =>
      obtain ⟨hdepth, -⟩ := nested_cons.mp hnested
      have hroom : settings.maxIncludeDepth.toNat - frame.depth =
          settings.maxIncludeDepth.toNat + 1 - (frame.depth + 1) := by omega
      rw [hline, Walk.obey] at hrun
      simp only [bind_assoc, pure_bind, Walk.mark_eq, ← hnumber] at hrun
      rw [hroom] at hrun ⊢
      dsimp only
      rw [Checked.add_eq_ok (by omega), Checked.ok_bind]
      exact hstart.advances_enter (Nat.add_le_add_right hdepth 1) hrun
  | once alone =>
    rw [hline, Walk.obey] at hrun
    simp only [bind_assoc, pure_bind, Walk.mark_eq] at hrun
    exact hstart.advances_openGuard hnested hrun
  | command args =>
    rw [hline, Walk.obey] at hrun
    simp only [bind_assoc, pure_bind, Walk.mark_eq] at hrun
    exact hstart.advances_carryOut hsize hline hrun

/-! ## The whole run -/

/-- Some pair is taken out, and pairs are put in that have less room, or the same room and fewer
lines. Every step of the machine makes its load lighter in this sense, and that cannot go on
forever. -/
def Lighter : Multiset (Nat × Nat) → Multiset (Nat × Nat) → Prop :=
  Relation.CutExpand (Prod.Lex (· < ·) (· < ·))

theorem wellFounded_lighter : WellFounded Lighter :=
  (WellFounded.prod_lex wellFounded_lt wellFounded_lt).cutExpand

theorem lighter_of_forall {front rest : List (Nat × Nat)} {pair : Nat × Nat}
    (hfront : ∀ other ∈ front, Prod.Lex (· < ·) (· < ·) other pair) :
    Lighter ((front ++ rest : List (Nat × Nat)) : Multiset (Nat × Nat))
      ((pair :: rest : List (Nat × Nat)) : Multiset (Nat × Nat)) := by
  refine ⟨front, pair, by simpa using hfront, ?_⟩
  rw [← Multiset.coe_add, ← Multiset.cons_coe, ← Multiset.singleton_add]
  ac_rfl

def lastSession : EStateM.Result Fault (Session σ κ) Unit → Session σ κ
  | .ok _ session => session
  | .error _ session => session

theorem isPrefix_edits_lastSession
    (hrun : (Walk.resume settings provider stack).run session = result) :
    session.edits <+: (lastSession result).edits := by
  have hjournal : session.journal.toList <+:
      ((Walk.resume settings provider stack).endSession session).journal.toList :=
    Walk.isPrefix_resume stack session
  have hlast : (Walk.resume settings provider stack).endSession session = lastSession result := by
    rw [← hrun, Walk.endSession]
    cases (Walk.resume settings provider stack).run session <;> rfl
  rw [hlast] at hjournal
  exact hjournal.filterMap _

/-- A step that goes through ends the run or makes the load lighter, if files with less room than
the given one do so on top of the given load. -/
theorem Advances.ended_or_lighter {checked : Checked (Status σ κ)}
    (hadvances : Advances settings provider entry result room base checked)
    {total : Multiset (Nat × Nat)}
    (hlighter : ∀ front : List (Nat × Nat), (∀ pair ∈ front, pair.1 < room) →
      Lighter ((front ++ base : List (Nat × Nat)) : Multiset (Nat × Nat)) total) :
    checked = .ok (.ended ((outcomeOf settings entry result).map Program.inPipelineOrder)) ∨
      ∃ next : Machine σ κ, checked = .ok (.going next) ∧
        next.Agrees settings provider result ∧ Lighter (load settings next.stack) total := by
  cases hadvances with
  | ended => exact .inl rfl
  | going hagrees hbears =>
    obtain ⟨front, hload, hfront⟩ := hbears
    exact .inr ⟨_, rfl, hagrees, hload ▸ hlighter front hfront⟩

/-- One step does not crash. It ends with the outcome, or makes the load lighter. -/
theorem Agrees.ended_or_lighter (hagrees : machine.Agrees settings provider result)
    (entry : String) (hmax : settings.maxIncludeDepth.toNat < 2 ^ 32 - 1)
    (hsize : ∀ edits, edits <+: (lastSession result).edits →
      (({} : Draft).applyAll edits).Addressable) :
    machine.step settings provider entry =
        .ok (.ended ((outcomeOf settings entry result).map Program.inPipelineOrder)) ∨
      ∃ next : Machine σ κ, machine.step settings provider entry = .ok (.going next) ∧
        next.Agrees settings provider result ∧
        Lighter (load settings next.stack) (load settings machine.stack) := by
  obtain ⟨session, hfollows, hrun⟩ := hagrees
  have haddressable : session.draft.Addressable := by
    rw [hfollows.traced.draft]
    exact hsize session.edits (isPrefix_edits_lastSession hrun)
  rw [step]
  cases hstack : machine.stack with
  | nil =>
    rw [hstack] at hrun
    left
    dsimp only
    rw [hfollows.represents.finish_eq hfollows.wellFormed, ← hrun]
    rfl
  | cons frame stack =>
    have hnested := hfollows.nested
    rw [hstack] at hrun hnested
    obtain ⟨hdepth, hbelow⟩ := nested_cons.mp hnested
    dsimp only
    cases hlines : frame.lines with
    | nil =>
      -- The file is taken off the stack, and nothing is put there.
      rw [Walk.resume, hlines, Walk.readLines, pure_bind,
        Walk.run_bind_of_ok (Walk.run_performAll_eq _ _)] at hrun
      have hedits : ∀ edit ∈ Walk.guardClosing frame.once ++ returning settings stack,
          edit.line?.isSome = true := by
        intro edit hedit
        obtain hclose | hreturn := List.mem_append.mp hedit
        · exact Walk.isSome_line?_guardClosing edit hclose
        · exact isSome_line?_returning stack edit hreturn
      refine Advances.ended_or_lighter ((hfollows.setStack hbelow).advances_proceed_lines
        (bears_load (settings.maxIncludeDepth.toNat - frame.depth) stack) hedits hrun)
        fun front hfront => ?_
      rw [load_cons, hlines]
      exact lighter_of_forall fun pair hpair => .left _ _ (hfront pair hpair)
    | cons text lines =>
      -- The file stays with one line less, and files with less room may come on top of it.
      rw [Walk.resume_line hlines] at hrun
      have hrest : Nested settings
          ({ frame with number := frame.number + 1, lines := lines } :: stack) :=
        nested_cons.mpr ⟨hdepth, hbelow⟩
      refine Advances.ended_or_lighter
        (hfollows.advances_readLine hmax haddressable hrest rfl hrun) fun front hfront => ?_
      rw [load_cons, load_cons, List.append_cons, hlines]
      refine lighter_of_forall fun pair hpair => ?_
      obtain hpushed | hlast := List.mem_append.mp hpair
      · exact .left _ _ (hfront pair hpushed)
      · rw [List.mem_singleton.mp hlast]
        exact .right _ (Nat.lt_succ_self _)

/-- The machine halts with the outcome of the result that it is on its way to. -/
theorem Agrees.exists_run_eq (hagrees : machine.Agrees settings provider result)
    (entry : String) (hmax : settings.maxIncludeDepth.toNat < 2 ^ 32 - 1)
    (hsize : ∀ edits, edits <+: (lastSession result).edits →
      (({} : Draft).applyAll edits).Addressable) :
    ∃ steps, run settings provider entry steps (.going machine) =
      .ok (.ended ((outcomeOf settings entry result).map Program.inPipelineOrder)) := by
  have hwf := InvImage.wf (fun machine : Machine σ κ =>
    (load settings machine.stack : Multiset (Nat × Nat))) wellFounded_lighter
  induction machine using hwf.induction with
  | _ machine ih =>
    obtain hended | ⟨next, hstep, hnext, hlighter⟩ := hagrees.ended_or_lighter entry hmax hsize
    · refine ⟨1, ?_⟩
      rw [run, hended]
      rfl
    · obtain ⟨steps, hsteps⟩ := ih next hlighter hnext
      refine ⟨steps + 1, ?_⟩
      rw [run, hstep, Checked.ok_bind]
      exact hsteps

end Machine

section

variable {σ κ : Type} (settings : Settings) (provider : Provider σ κ) (entry : String)
  (context : κ) (world : σ)

theorem read_eq_of_run {result : EStateM.Result Fault (Session σ κ) Unit}
    (hrun : (Walk.visit settings provider (settings.maxIncludeDepth.toNat + 1) ⟨entry, 0, ""⟩ entry
      context).run { world := world } = result) :
    read settings provider entry context world =
      ⟨outcomeOf settings entry result, Machine.lastSession result⟩ := by
  rw [read, hrun]
  cases result <;> rfl

/-- The machine halts on every entry file and every provider, without a crash and with the outcome
of the reading, if files cannot be nested so deeply that their depth is no number of 32 bits, and if
no struct of the program becomes so large that its size is none. -/
theorem exists_execute_eq_outcome_read (hmax : settings.maxIncludeDepth.toNat < 2 ^ 32 - 1)
    (hsize : ∀ edits, edits <+: (read settings provider entry context world).session.edits →
      (({} : Draft).applyAll edits).Addressable) :
    ∃ steps, Machine.execute settings provider entry context world steps =
      .ok (.ended ((read settings provider entry context world).outcome.map
        Program.inPipelineOrder)) := by
  obtain ⟨result, hresult⟩ : ∃ result, (Walk.visit settings provider
      (settings.maxIncludeDepth.toNat + 1) ⟨entry, 0, ""⟩ entry context).run { world := world } =
        result := ⟨_, rfl⟩
  rw [read_eq_of_run settings provider entry context world hresult] at hsize ⊢
  have hstart : Machine.Follows settings { world := world } ({ world := world } : Session σ κ) :=
    ⟨rfl, rfl, ⟨rfl, .nil⟩, by simp [Machine.Nested]⟩
  have hrun : (Walk.visit settings provider (settings.maxIncludeDepth.toNat + 1 - 0) ⟨entry, 0, ""⟩
      entry context >>= fun _ => Walk.performAll (Machine.returning settings ([] : List (Frame κ)))
        >>= fun _ => Walk.resume settings provider []).run { world := world } = result := by
    simpa [Machine.returning, Walk.performAll, Walk.resume] using hresult
  have hadvances : Machine.Advances settings provider entry result _ _ _ :=
    hstart.advances_enter (Nat.zero_le _) hrun
  simp only [Machine.execute]
  generalize Machine.enter settings provider { world := world } ⟨entry, 0, ""⟩ entry context 0 =
    status at hadvances ⊢
  cases hadvances with
  | ended => exact ⟨0, rfl⟩
  | going hagrees _ =>
    obtain ⟨steps, hsteps⟩ := hagrees.exists_run_eq entry hmax hsize
    exact ⟨steps, hsteps⟩

end

/-- A mutator, a rule and a struct in an included file, and a block that sees the mutator. -/
def ruledProgram : Catalog where
  files :=
    [("main", "#include <lib>\n#pragma anki technique_start vert uses_mutators B\n" ++
        "#pragma anki technique_end vert\n"),
     ("lib", "#pragma anki mutator B 0 1\n#pragma anki rewrite_mutation B 1 to B 0\n" ++
        "#pragma anki struct S\n#pragma anki member Vec3 a\n#pragma anki member U32 b\n" ++
        "#pragma anki struct_end\n")]

/-- A provider that makes up a new file at every call, each of which includes another one. -/
def freshFiles : Provider Nat Unit where
  resolve path _ count := (.ok ⟨path ++ "+", ()⟩, count + 1)
  fetch path count :=
    (.ok (String.ofList (List.replicate count 'x') ++ "\n#include <" ++ path ++ ">\n"), count)

theorem exists_execute_eq_outcome_read_ruledProgram_and_freshFiles :
    (∃ program steps, (read {} ruledProgram.provider "main" "" ()).outcome = .ok program ∧
      Machine.execute {} ruledProgram.provider "main" "" () steps =
        .ok (.ended (.ok program.inPipelineOrder))) ∧
    ∃ steps, Machine.execute {} freshFiles "f" () 0 steps =
      .ok (.ended (.error (.tooDeep "f+++++++++" "f+++++++++" 2 9))) := by
  have hmax : ({} : Settings).maxIncludeDepth.toNat < 2 ^ 32 - 1 := by decide
  constructor
  · have hsize : ∀ edits ∈ (read {} ruledProgram.provider "main" "" ()).session.edits.inits,
        (({} : Draft).applyAll edits).Addressable := by
      decide +kernel
    have hread : (read {} ruledProgram.provider "main" "" ()).outcome.toOption.isSome = true := by
      decide +kernel
    obtain ⟨program, hprogram⟩ := Option.isSome_iff_exists.mp hread
    have houtcome := eq_ok_of_toOption hprogram
    obtain ⟨steps, hsteps⟩ := exists_execute_eq_outcome_read {} ruledProgram.provider "main" "" ()
      hmax fun edits hprefix => hsize edits ((List.mem_inits _ _).mpr hprefix)
    rw [houtcome] at hsteps
    exact ⟨program, steps, houtcome, hsteps⟩
  · have hsize : ∀ edits ∈ (read {} freshFiles "f" () 0).session.edits.inits,
        (({} : Draft).applyAll edits).Addressable := by
      decide +kernel
    have houtcome : (read {} freshFiles "f" () 0).outcome =
        .error (.tooDeep "f+++++++++" "f+++++++++" 2 9) := by
      decide +kernel
    obtain ⟨steps, hsteps⟩ := exists_execute_eq_outcome_read {} freshFiles "f" () 0 hmax
      fun edits hprefix => hsize edits ((List.mem_inits _ _).mpr hprefix)
    rw [houtcome] at hsteps
    exact ⟨steps, hsteps⟩

end Ubershader
