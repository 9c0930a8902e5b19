import Ubershader.Proofs.Reading.Outcome

/-!
# The course of a reading

A reading that goes through takes its draft from line to line, and into each included file and out
of it again. `Course` says what happens to the draft on the way, with one rule for each thing that
a line can be, and says nothing about sessions, worlds or journals. What a proof needs to know
about the answers of the provider it gets from a *promise*: a property that all events in the
journal of the reading have.

Every walk that goes through has a course (`Walk.course_of_readLines`, `course_of_read`), so a fact
about all readings that go through is one induction on courses. In the other direction, lines that
include nothing are read without a fault if they have a course.
-/

namespace Ubershader

namespace Walk

def markers (settings : Settings) (number : Nat) (file : String) : List Edit :=
  if settings.lineMarkers then [.append (.marker number file)] else []

theorem markers_eq_nil {settings : Settings} (hmarkers : settings.lineMarkers = false)
    (number : Nat) (file : String) : markers settings number file = [] := by
  rw [markers, hmarkers]
  rfl

def guardOpening (path : String) : List Edit :=
  [.append (.guardOpen path), .append (.guardDefine path), .guard path]

def guardClosing (once : Bool) : List Edit :=
  if once then [.append .guardClose] else []

end Walk

open Walk in
/-- Lines of a file, from one with a given number on, take one draft to another. There is `room` for
the files that they include, and the flag says whether the file has opened its include guard. -/
inductive Course {κ : Type} (settings : Settings) (promise : Event κ → Prop) :
    (room : Nat) → (file : Target κ) → (number : Nat) → (once : Bool) → List String → Draft →
      Bool → Draft → Prop
  /-- No line is left. -/
  | done {room : Nat} {file : Target κ} {number : Nat} {once : Bool} {draft : Draft} :
      Course settings promise room file number once [] draft once draft
  /-- A line is copied. -/
  | plain {room : Nat} {file : Target κ} {number : Nat} {once after : Bool} {line : String}
      {lines : List String} {draft last : Draft} (isPlain : Directive.ofLine line = .plain)
      (rest : Course settings promise room file (number + 1) once lines
        (draft.apply (.append (.copied file.path number line))) after last) :
      Course settings promise room file number once (line :: lines) draft after last
  /-- The include guard of the file is opened, for the first time. -/
  | once {room : Nat} {file : Target κ} {number : Nat} {after : Bool} {line : String}
      {lines : List String} {draft last : Draft} (isOnce : Directive.ofLine line = .once true)
      (rest : Course settings promise room file (number + 1) true lines
        (draft.applyAll (guardOpening file.path ++ markers settings (number + 1) file.path))
        after last) :
      Course settings promise room file number false (line :: lines) draft after last
  /-- A command is carried out. -/
  | command {room : Nat} {file : Target κ} {number : Nat} {once after : Bool} {line : String}
      {lines args : List String} {edits : List Edit} {draft last : Draft}
      (isCommand : Directive.ofLine line = .command args)
      (meaning : Command.meaning settings draft ⟨file.path, number, line⟩ args = .ok edits)
      (rest : Course settings promise room file (number + 1) once lines
        (draft.applyAll (edits ++ markers settings (number + 1) file.path)) after last) :
      Course settings promise room file number once (line :: lines) draft after last
  /-- A file that is already there is left out. -/
  | leftOut {room : Nat} {file target : Target κ} {number : Nat} {once after : Bool}
      {line path : String} {lines : List String} {draft last : Draft}
      (isInclusion : Directive.ofLine line = .inclusion (some path))
      (resolved : promise (.resolve path file.context (.ok target)))
      (held : draft.current.holdsOnce target.path = true)
      (rest : Course settings promise (room + 1) file (number + 1) once lines
        (draft.applyAll (markers settings (number + 1) file.path)) after last) :
      Course settings promise (room + 1) file number once (line :: lines) draft after last
  /-- A file takes the place of the line that includes it. -/
  | included {room : Nat} {file target : Target κ} {number : Nat} {once guarded after : Bool}
      {line path text : String} {lines : List String} {draft middle last : Draft}
      (isInclusion : Directive.ofLine line = .inclusion (some path))
      (resolved : promise (.resolve path file.context (.ok target)))
      (fresh : draft.current.holdsOnce target.path = false)
      (fetched : promise
        (.fetch target.path (settings.maxIncludeDepth.toNat - room) (.ok text)))
      (inner : Course settings promise room target 1 false (Text.lines text)
        (draft.applyAll (markers settings 1 target.path)) guarded middle)
      (rest : Course settings promise (room + 1) file (number + 1) once lines
        (middle.applyAll (guardClosing guarded ++ markers settings (number + 1) file.path))
        after last) :
      Course settings promise (room + 1) file number once (line :: lines) draft after last

/-- A provider finds the file that a path stands for, and then gives its text. -/
structure Provider.Gives {σ κ : Type} (provider : Provider σ κ) (path : String) (context : κ)
    (world : σ) (target : Target κ) (text : String) : Prop where
  resolve : (provider.resolve path context world).1 = .ok target
  fetch : (provider.fetch target.path (provider.resolve path context world).2).1 = .ok text

theorem Provider.Gives.unique {σ κ : Type} {provider : Provider σ κ} {path : String} {context : κ}
    {world : σ} {target other : Target κ} {text otherText : String}
    (first : provider.Gives path context world target text)
    (second : provider.Gives path context world other otherText) :
    target = other ∧ text = otherText := by
  have htarget : target = other := Except.ok.inj (first.resolve.symm.trans second.resolve)
  subst htarget
  exact ⟨rfl, Except.ok.inj (first.fetch.symm.trans second.fetch)⟩

/-! ## Answers in a journal -/

namespace Event

variable {κ : Type} {journal : Array (Event κ)}

def target? : Event κ → Option (Target κ)
  | resolve _ _ answer => answer.toOption
  | _ => none

def text? : Event κ → Option String
  | fetch _ _ answer => answer.toOption
  | _ => none

theorem of_all_target? {check : Target κ → Bool}
    (hall : journal.all (fun event => event.target?.all check) = true) {path : String}
    {context : κ} {target : Target κ}
    (hevent : .resolve path context (.ok target) ∈ journal) : check target = true :=
  Array.all_eq_true_iff_forall_mem.mp hall _ hevent

theorem of_all_text? {check : String → Bool}
    (hall : journal.all (fun event => event.text?.all check) = true) {path text : String}
    {depth : Nat} (hevent : .fetch path depth (.ok text) ∈ journal) : check text = true :=
  Array.all_eq_true_iff_forall_mem.mp hall _ hevent

end Event

/-! ## Walks that go through -/

namespace Walk

variable {σ κ α β : Type} {settings : Settings} {provider : Provider σ κ}

theorem exists_of_run_bind {first : Walk σ κ α} {next : α → Walk σ κ β} {session last : Session σ κ}
    {b : β} (hrun : (first >>= next).run session = .ok b last) :
    ∃ a middle, first.run session = .ok a middle ∧ (next a).run middle = .ok b last := by
  rw [EStateM.run_bind] at hrun
  cases hfirst : first.run session with
  | ok a middle =>
    rw [hfirst] at hrun
    exact ⟨a, middle, rfl, hrun⟩
  | error fault stop =>
    rw [hfirst] at hrun
    cases hrun

theorem run_bind_of_ok {first : Walk σ κ α} {session middle : Session σ κ} {a : α}
    (hfirst : first.run session = .ok a middle) (next : α → Walk σ κ β) :
    (first >>= next).run session = (next a).run middle := by
  rw [EStateM.run_bind, hfirst]

theorem endSession_of_run {walk : Walk σ κ α} {session last : Session σ κ} {a : α}
    (hrun : walk.run session = .ok a last) : walk.endSession session = last := by
  rw [endSession, hrun]

theorem run_mark (number : Nat) (file : String) (session : Session σ κ) :
    (mark settings number file).run session =
      .ok () ((performAll (markers settings number file)).endSession session) := by
  rw [mark, markers]
  split
  · simp
  · rfl

/-- The journal only ever grows. -/
theorem stepRelation_journal (settings : Settings) (provider : Provider σ κ) :
    StepRelation settings provider
      fun earlier later => ∀ event ∈ earlier.journal, event ∈ later.journal where
  refl _ _ hevent := hevent
  trans hfirst hsecond event hevent := hsecond event (hfirst event hevent)
  record event _ _ session other hother := by simp [hother]
  append line session other hother := by simp [perform, endSession, modify, hother]
  guard path session other hother := by simp [hother]
  command session site args edits _ _ other hother := by simp [hother]
  resolve path context session other hother := by simp [resolve, hother]
  fetch path depth session other hother := by simp [fetch, hother]

/-- A question that was answered has left its answer in the journal. -/
theorem of_run_ask {path : String} {question : σ → Except String α × σ}
    {event : Except String α → Event κ} {session last : Session σ κ} {a : α}
    (hrun : (ask path question event).run session = .ok a last) :
    (question session.world).1 = .ok a ∧ last.world = (question session.world).2 ∧
      last.draft = session.draft ∧ event (.ok a) ∈ last.journal := by
  simp only [ask, EStateM.run] at hrun
  rcases hquestion : question session.world with ⟨answer | answer, world⟩
  · simp [hquestion] at hrun
  · simp only [hquestion, EStateM.Result.ok.injEq] at hrun
    obtain ⟨rfl, rfl⟩ := hrun
    simp

/-- A visit that goes through leaves the file out, or reads all of its lines. -/
theorem of_run_visit {room : Nat} {site : Location} {path : String} {context : κ}
    {session last : Session σ κ}
    (hrun : (visit settings provider (room + 1) site path context).run session = .ok () last) :
    ∃ target, (provider.resolve path context session.world).1 = .ok target ∧
      .resolve path context (.ok target) ∈ last.journal ∧
      ((session.draft.current.holdsOnce target.path = true ∧ last.draft = session.draft) ∨
        session.draft.current.holdsOnce target.path = false ∧
          ∃ text once start middle, provider.Gives path context session.world target text ∧
            .fetch target.path (settings.maxIncludeDepth.toNat - room) (.ok text) ∈ last.journal ∧
            start.draft = session.draft.applyAll (markers settings 1 target.path) ∧
            (readLines settings (visit settings provider room) target 1 false
              (Text.lines text)).run start = .ok once middle ∧
            (∀ event ∈ middle.journal, event ∈ last.journal) ∧
            last.draft = middle.draft.applyAll (guardClosing once)) := by
  have hgrows := stepRelation_journal settings provider
  rw [visit] at hrun
  obtain ⟨target, resolved, hresolve, hrun⟩ := exists_of_run_bind hrun
  obtain ⟨hanswer, hworld, hdraft, hresolved⟩ := of_run_ask hresolve
  rw [EStateM.run_bind, EStateM.run_get] at hrun
  dsimp only at hrun
  split at hrun
  · next hheld =>
    cases hrun
    exact ⟨target, hanswer, by simp [hresolved], .inl ⟨hdraft ▸ hheld, hdraft⟩⟩
  · next hheld =>
    obtain ⟨text, fetched, hfetch, hrun⟩ := exists_of_run_bind hrun
    obtain ⟨htext, -, hsame, hfetched⟩ := of_run_ask hfetch
    have hkept := hgrows.respects_readFile (hgrows.respects_visit room) target text fetched
    rw [endSession_of_run hrun] at hkept
    have hresolvedLast := hgrows.fetch target.path (settings.maxIncludeDepth.toNat - room) resolved
    rw [endSession_of_run hfetch] at hresolvedLast
    refine ⟨target, hanswer, hkept _ (hresolvedLast _ hresolved),
      .inr ⟨by simpa [hdraft] using hheld, ?_⟩⟩
    rw [readFile, run_bind_of_ok (run_mark 1 target.path fetched)] at hrun
    obtain ⟨once, middle, hlines, hclose⟩ := exists_of_run_bind hrun
    refine ⟨text, once, _, middle, ⟨hanswer, hworld ▸ htext⟩, hkept _ hfetched, ?_, hlines, ?_, ?_⟩
    · simp [hsame, hdraft]
    · cases once <;> cases hclose <;> simp +contextual
    · cases once <;> cases hclose <;> simp [guardClosing]

/-- A command that is carried out makes the edits that it means. -/
theorem of_run_runCommand {site : Location} {args : List String} {session last : Session σ κ}
    (hrun : (runCommand settings site args).run session = .ok () last) :
    ∃ edits, Command.meaning settings session.draft site args = .ok edits ∧
      last.draft = session.draft.applyAll edits := by
  have hcarryOut : ∀ {start : Session σ κ},
      (carryOut settings site args).run start = .ok () last →
        ∃ edits, Command.meaning settings start.draft site args = .ok edits ∧
          last.draft = start.draft.applyAll edits := by
    intro start hrun
    rw [carryOut, EStateM.run_bind, EStateM.run_get] at hrun
    dsimp only at hrun
    cases hmeaning : Command.meaning settings start.draft site args with
    | error complaint =>
      rw [hmeaning] at hrun
      cases hrun
    | ok edits =>
      rw [hmeaning] at hrun
      refine ⟨edits, rfl, ?_⟩
      rw [← endSession_of_run hrun, endSession_performAll]
  cases args with
  | nil => exact hcarryOut hrun
  | cons name args =>
    obtain ⟨_, noted, hrecord, hrun⟩ := exists_of_run_bind hrun
    cases hrecord
    obtain ⟨edits, hmeaning, hdraft⟩ := hcarryOut hrun
    exact ⟨edits, hmeaning, hdraft⟩

/-- One line that is read without a fault comes first in a course, if the files that it may include
have courses of their own. -/
theorem course_of_readLine {promise : Event κ → Prop} {room : Nat} {file : Target κ} {number : Nat}
    {once next after : Bool} {line : String} {lines : List String} {session middle : Session σ κ}
    {last : Draft}
    (hinner : ∀ {inner : Nat} {target : Target κ} {text : String} {guarded : Bool}
      {start stop : Session σ κ}, room = inner + 1 →
        (readLines settings (visit settings provider inner) target 1 false (Text.lines text)).run
          start = .ok guarded stop → (∀ event ∈ stop.journal, promise event) →
            Course settings promise inner target 1 false (Text.lines text) start.draft guarded
              stop.draft)
    (hrun : (readLine settings (visit settings provider room) file once
      ⟨file.path, number, line⟩).run session = .ok next middle)
    (hpromise : ∀ event ∈ middle.journal, promise event)
    (rest : Course settings promise room file (number + 1) next lines middle.draft after last) :
    Course settings promise room file number once (line :: lines) session.draft after last := by
  unfold readLine obey at hrun
  dsimp only at hrun
  split at hrun
  · next hline =>
    cases hrun
    exact .plain hline rest
  · cases hrun
  · next path hline =>
    obtain ⟨_, visited, hvisit, hrun⟩ := exists_of_run_bind hrun
    rw [run_bind_of_ok (run_mark _ _ _)] at hrun
    cases hrun
    have hvisited : ∀ event ∈ visited.journal, promise event :=
      fun event hevent => hpromise event (by simp [hevent])
    rw [endSession_performAll] at rest
    cases room with
    | zero => cases hvisit
    | succ room =>
      obtain ⟨target, -, hresolved, ⟨hheld, hdraft⟩ | ⟨hfresh, text, guarded, start, stop, -,
        hfetched, hstart, hlines, hkept, hdraft⟩⟩ := of_run_visit hvisit
      · exact .leftOut hline (hvisited _ hresolved) hheld (hdraft ▸ rest)
      · have inner := hinner rfl hlines fun event hevent => hvisited event (hkept event hevent)
        rw [hstart] at inner
        rw [hdraft, ← Draft.applyAll_append] at rest
        exact .included hline (hvisited _ hresolved) hfresh (hvisited _ hfetched) inner rest
  · next alone hline =>
    obtain ⟨_, opened, honce, hrun⟩ := exists_of_run_bind hrun
    rw [run_bind_of_ok (run_mark _ _ _)] at hrun
    cases hrun
    cases once with
    | true => cases honce
    | false =>
      cases alone with
      | false => cases honce
      | true =>
        refine .once hline ?_
        have hopened : (performAll (guardOpening file.path)).endSession session = opened :=
          endSession_of_run honce
        rw [endSession_performAll, ← hopened, endSession_performAll] at rest
        rw [Draft.applyAll_append]
        exact rest
  · next args hline =>
    obtain ⟨_, done, hcommand, hrun⟩ := exists_of_run_bind hrun
    rw [run_bind_of_ok (run_mark _ _ _)] at hrun
    cases hrun
    obtain ⟨edits, hmeaning, hdraft⟩ := of_run_runCommand hcommand
    refine .command hline hmeaning ?_
    rw [endSession_performAll, hdraft] at rest
    rw [Draft.applyAll_append]
    exact rest

/-- Lines that are read without a fault have a course. -/
theorem course_of_readLines {promise : Event κ → Prop} {room : Nat} {file : Target κ}
    {number : Nat} {once after : Bool} {lines : List String} {session last : Session σ κ}
    (hrun : (readLines settings (visit settings provider room) file number once lines).run session =
      .ok after last) (hpromise : ∀ event ∈ last.journal, promise event) :
    Course settings promise room file number once lines session.draft after last.draft := by
  -- An included file has less room, and the lines of one file are read in order.
  induction room using Nat.strongRecOn generalizing file number once lines session after last with
  | ind room ih =>
    induction lines generalizing number once session with
    | nil =>
      cases hrun
      exact .done
    | cons line lines ihLines =>
      obtain ⟨next, middle, hline, hlines⟩ := exists_of_run_bind hrun
      have hgrows := stepRelation_journal settings provider
      have hkept := hgrows.respects_readLines (hgrows.respects_visit room) file (number + 1) next
        lines middle
      rw [endSession_of_run hlines] at hkept
      refine course_of_readLine ?_ hline (fun event hevent => hpromise event (hkept event hevent))
        (ihLines hlines)
      rintro inner target text guarded start stop rfl hinner
      exact ih inner (Nat.lt_succ_self inner) hinner

end Walk

/-- A reading that gives a program has a course, from the first line of its entry file to the draft
that the program is made from. -/
theorem course_of_read {σ κ : Type} {settings : Settings} {provider : Provider σ κ}
    {entry : String} {context : κ} {world : σ} {program : Program} {promise : Event κ → Prop}
    (hread : (read settings provider entry context world).outcome = .ok program)
    (hpromise : ∀ event ∈ (read settings provider entry context world).session.journal,
      promise event) :
    ∃ target text guarded last, provider.Gives entry context world target text ∧
      promise (.resolve entry context (.ok target)) ∧ promise (.fetch target.path 0 (.ok text)) ∧
      Course settings promise settings.maxIncludeDepth.toNat target 1 false (Text.lines text)
        (({} : Draft).applyAll (Walk.markers settings 1 target.path)) guarded last ∧
      Program.ofDraft settings entry (last.applyAll (Walk.guardClosing guarded)) = .ok program := by
  obtain ⟨hrun, hprogram⟩ := walk_of_read hread
  obtain ⟨target, -, hresolved, ⟨hheld, -⟩ | ⟨-, text, guarded, start, stop, hgives, hfetched,
    hstart, hlines, hkept, hdraft⟩⟩ := Walk.of_run_visit hrun
  · -- Nothing is held at the start, so the entry file is not left out.
    cases hheld
  · have course := Walk.course_of_readLines hlines
      fun event hevent => hpromise event (hkept event hevent)
    rw [hstart] at course
    rw [Nat.sub_self] at hfetched
    rw [hdraft] at hprogram
    exact ⟨target, text, guarded, stop.draft, hgives, hpromise _ hresolved, hpromise _ hfetched,
      course, hprogram⟩

/-! ## Lines that include nothing -/

namespace Walk

variable {σ κ α β : Type} {settings : Settings}

theorem run_performAll_eq (edits : List Edit) (session : Session σ κ) :
    (performAll edits).run session = .ok () ((performAll edits).endSession session) := by
  rw [endSession_performAll, run_performAll]

theorem run_ask_of_ok {path : String} {question : σ → Except String α × σ}
    {event : Except String α → Event κ} {session : Session σ κ} {a : α}
    (hanswer : (question session.world).1 = .ok a) :
    (ask path question event).run session =
      .ok a ((ask path question event).endSession session) := by
  rw [endSession_ask]
  simp only [ask, EStateM.run]
  rcases hquestion : question session.world with ⟨answer, world⟩
  rw [hquestion] at hanswer
  dsimp only at hanswer
  subst hanswer
  rfl

theorem run_bind_of_error {first : Walk σ κ α} {session last : Session σ κ} {fault : Fault}
    (hfirst : first.run session = .error fault last) (next : α → Walk σ κ β) :
    (first >>= next).run session = .error fault last := by
  rw [EStateM.run_bind, hfirst]

theorem run_ask_of_error {path cause : String} {question : σ → Except String α × σ}
    {event : Except String α → Event κ} {session : Session σ κ}
    (hanswer : (question session.world).1 = .error cause) :
    (ask path question event).run session =
      .error (.provider path cause) ((ask path question event).endSession session) := by
  rw [endSession_ask]
  simp only [ask, EStateM.run]
  rcases hquestion : question session.world with ⟨answer, world⟩
  rw [hquestion] at hanswer
  dsimp only at hanswer
  subst hanswer
  rfl

theorem run_carryOut_of_ok {site : Location} {args : List String}
    {session : Session σ κ} {edits : List Edit}
    (hmeaning : Command.meaning settings session.draft site args = .ok edits) :
    (carryOut settings site args).run session = .ok () ((performAll edits).endSession session) := by
  rw [carryOut, run_bind_of_ok (EStateM.run_get session), hmeaning]
  exact run_performAll_eq edits session

theorem run_carryOut_of_error {site : Location} {args : List String}
    {session : Session σ κ} {complaint : Complaint}
    (hmeaning : Command.meaning settings session.draft site args = .error complaint) :
    (carryOut settings site args).run session = .error (.directive site complaint) session := by
  rw [carryOut, run_bind_of_ok (EStateM.run_get session), hmeaning]
  rfl

/-- The session in which a command is carried out: its name, if it has one, has been noted. -/
def noted (site : Location) (args : List String) (session : Session σ κ) : Session σ κ :=
  match args with
  | [] => session
  | name :: _ => (record (.command site name)).endSession session

theorem draft_noted (site : Location) (args : List String) (session : Session σ κ) :
    (noted site args session).draft = session.draft := by
  cases args <;> rfl

theorem run_runCommand (settings : Settings) (site : Location) (args : List String)
    (session : Session σ κ) :
    (runCommand settings site args).run session =
      (carryOut settings site args).run (noted site args session) := by
  cases args with
  | nil => rfl
  | cons name args => exact run_bind_of_ok (run_record _ _) _

/-- A command whose edits can be made makes them. -/
theorem exists_run_runCommand {site : Location} {args : List String} {session : Session σ κ}
    {edits : List Edit} (hmeaning : Command.meaning settings session.draft site args = .ok edits) :
    ∃ done, (runCommand settings site args).run session = .ok () done ∧
      done.draft = session.draft.applyAll edits := by
  have hnoted : Command.meaning settings (noted site args session).draft site args = .ok edits := by
    rw [draft_noted, hmeaning]
  rw [run_runCommand]
  exact ⟨_, run_carryOut_of_ok hnoted, by simp [draft_noted]⟩

end Walk

/-- Lines that have a course without room for other files are read without a fault, whatever the
session and whatever would be done for an included file. -/
theorem Course.exists_run {σ κ : Type} {settings : Settings} {promise : Event κ → Prop}
    {file : Target κ} {number : Nat} {once after : Bool} {lines : List String} {draft last : Draft}
    (course : Course settings promise 0 file number once lines draft after last)
    (visit : Walk.Visitor σ κ) {session : Session σ κ} (hdraft : session.draft = draft) :
    ∃ final, (Walk.readLines settings visit file number once lines).run session =
      .ok after final ∧ final.draft = last := by
  generalize hroom : 0 = room at course
  induction course generalizing session with
  | done => exact ⟨session, rfl, hdraft⟩
  | @plain room file number once after line lines draft last hline rest ih =>
    have hrun : (Walk.readLine settings visit file once ⟨file.path, number, line⟩).run session =
        .ok once ((Walk.perform (.append (.copied file.path number line))).endSession session) := by
      simp only [Walk.readLine, hline, Walk.obey]
      rfl
    rw [Walk.readLines, Walk.run_bind_of_ok hrun]
    exact ih (by rw [← hdraft]; rfl) hroom
  | @once room file number after line lines draft last hline rest ih =>
    have hrun : (Walk.readLine settings visit file false ⟨file.path, number, line⟩).run session =
        .ok true ((Walk.performAll (Walk.markers settings (number + 1) file.path)).endSession
          ((Walk.performAll (Walk.guardOpening file.path)).endSession session)) := by
      have honce : (Walk.runOnce file.path ⟨file.path, number, line⟩ false true).run session =
          .ok () ((Walk.performAll (Walk.guardOpening file.path)).endSession session) :=
        Walk.run_performAll_eq (Walk.guardOpening file.path) session
      simp only [Walk.readLine, hline, Walk.obey]
      rw [Walk.run_bind_of_ok honce, Walk.run_bind_of_ok (Walk.run_mark _ _ _)]
      rfl
    rw [Walk.readLines, Walk.run_bind_of_ok hrun]
    exact ih (by simp [hdraft]) hroom
  | @command room file number once after line lines args edits draft last hline hmeaning rest ih =>
    subst hdraft
    obtain ⟨done, hcommand, hdone⟩ := Walk.exists_run_runCommand hmeaning
    have hrun : (Walk.readLine settings visit file once ⟨file.path, number, line⟩).run session =
        .ok once ((Walk.performAll (Walk.markers settings (number + 1) file.path)).endSession
          done) := by
      simp only [Walk.readLine, hline, Walk.obey]
      rw [Walk.run_bind_of_ok hcommand, Walk.run_bind_of_ok (Walk.run_mark _ _ _)]
      rfl
    rw [Walk.readLines, Walk.run_bind_of_ok hrun]
    exact ih (by simp [hdone]) hroom
  | leftOut => cases hroom
  | included => cases hroom

/-- A file whose lines have a course without room for other files is read, and gives the program
that the last draft of the course gives. -/
theorem read_of_course {σ κ : Type} {settings : Settings} {provider : Provider σ κ}
    {entry : String} {context : κ} {world : σ} {target : Target κ} {text : String}
    {promise : Event κ → Prop} {guarded : Bool} {last : Draft}
    (hgives : provider.Gives entry context world target text)
    (course : Course settings promise 0 target 1 false (Text.lines text)
      (({} : Draft).applyAll (Walk.markers settings 1 target.path)) guarded last) :
    (read settings provider entry context world).outcome =
      Program.ofDraft settings entry (last.applyAll (Walk.guardClosing guarded)) := by
  let room := settings.maxIncludeDepth.toNat
  let resolved := (Walk.resolve provider entry context).endSession { world := world }
  let fetched := (Walk.fetch provider target.path (room - room)).endSession resolved
  have hresolve : (Walk.resolve provider entry context).run { world := world } =
      .ok target resolved := Walk.run_ask_of_ok hgives.resolve
  have hfetch : (Walk.fetch provider target.path (room - room)).run resolved =
      .ok text fetched := by
    refine Walk.run_ask_of_ok ?_
    simpa [resolved, Walk.resolve] using hgives.fetch
  have hdraft : fetched.draft = {} := by
    simp [fetched, resolved, Walk.fetch, Walk.resolve]
  have hmarked :
      ((Walk.performAll (Walk.markers settings 1 target.path)).endSession fetched).draft =
        ({} : Draft).applyAll (Walk.markers settings 1 target.path) := by
    simp [hdraft]
  obtain ⟨final, hlines, hfinal⟩ :=
    course.exists_run (Walk.visit settings provider room) hmarked
  have hfile : ∃ closed, (Walk.readFile settings (Walk.visit settings provider room) target
      text).run fetched = .ok () closed ∧
        closed.draft = last.applyAll (Walk.guardClosing guarded) := by
    rw [Walk.readFile, Walk.run_bind_of_ok (Walk.run_mark 1 target.path fetched),
      Walk.run_bind_of_ok hlines]
    cases guarded with
    | true => exact ⟨_, Walk.run_perform _ _, by simp [hfinal, Walk.guardClosing]⟩
    | false => exact ⟨final, rfl, by simp [hfinal, Walk.guardClosing]⟩
  obtain ⟨closed, hclosed, hlast⟩ := hfile
  have hvisit : (Walk.visit settings provider (room + 1) ⟨entry, 0, ""⟩ entry context).run
      { world := world } = .ok () closed := by
    rw [Walk.visit, Walk.run_bind_of_ok hresolve, EStateM.run_bind, EStateM.run_get]
    have hfresh : resolved.draft.current.holdsOnce target.path = false := by
      simp [resolved, Walk.resolve, Draft.current, Buffer.holdsOnce]
    dsimp only
    rw [hfresh, if_neg (by decide), Walk.run_bind_of_ok hfetch, hclosed]
  rw [read, hvisit, ← hlast]

end Ubershader
