import Ubershader.Proofs.Buffers
import Ubershader.Proofs.Reading.Course
import Ubershader.Proofs.Reading.Routing
import Ubershader.Provider.Catalog

/-!
# Files that are included once only

A file that asks to be included once only is noted in the buffer that is current when it asks. From
then on, an include of that file does nothing while that buffer is current, and nothing at all if
the buffer is the common one, because every block that is opened later starts with a copy of what
is noted there.

The first part is about single visits of files, in readings that may also end in a fault. `Visited`
says which visits a reading is made of, and from which sessions they start. The second part follows
for readings that give a program: if files ask before they include others, no block has the include
guard of a file twice.
-/

namespace Ubershader

/-! ## What is noted in buffers -/

@[simp] theorem Buffer.holdsOnce_iff {buffer : Buffer} {path : String} :
    buffer.holdsOnce path = true ↔ path ∈ buffer.once := by
  simp [holdsOnce]

namespace Draft

/-- What is noted in the common buffer is also noted in the open block. -/
def Inherits (draft : Draft) : Prop :=
  ∀ block, draft.openBlock = some block → ∀ path ∈ draft.common.once, path ∈ block.buffer.once

variable {settings : Settings} {draft : Draft}

theorem inherits_empty : ({} : Draft).Inherits := by
  simp [Inherits]

theorem Inherits.modifyCurrent (hdraft : draft.Inherits) (change : Buffer → Buffer)
    (hchange : ∀ buffer : Buffer, ∀ path ∈ buffer.once, path ∈ (change buffer).once) :
    (draft.modifyCurrent change).Inherits := by
  rw [Draft.modifyCurrent]
  split
  · next hopen =>
    intro block hblock
    rw [hopen] at hblock
    cases hblock
  · next block hopen =>
    rintro _ ⟨⟩ path hpath
    exact hchange block.buffer path (hdraft block hopen path hpath)

/-- The common buffer does not change while a block is open. -/
theorem Inherits.apply (hdraft : draft.Inherits) (edit : Edit) : (draft.apply edit).Inherits := by
  cases edit with
  | append line => exact hdraft.modifyCurrent (·.push line) fun buffer path hpath => hpath
  | guard path =>
    exact hdraft.modifyCurrent (·.guard path) fun buffer other hother =>
      List.mem_cons_of_mem _ hother
  | openBlock technique stage active site =>
    rintro _ ⟨⟩ path hpath
    exact hpath
  | closeBlock =>
    rw [Draft.apply]
    split
    · exact hdraft
    · rintro _ ⟨⟩
  | _ => exact hdraft

theorem Inherits.applyAll (hdraft : draft.Inherits) (edits : List Edit) :
    (draft.applyAll edits).Inherits := by
  induction edits generalizing draft with
  | nil => exact hdraft
  | cons edit edits ih => exact ih (hdraft.apply edit)

theorem Inherits.mem_current (hdraft : draft.Inherits) {path : String}
    (hpath : path ∈ draft.common.once) : path ∈ draft.current.once := by
  rw [Draft.current]
  split
  · exact hpath
  · next block hopen => exact hdraft block hopen path hpath

/-- A file is noted for good: in the common buffer, or in a block that is open or finished. -/
def Keeps (draft : Draft) (path : String) : Option BlockKey → Prop
  | none => path ∈ draft.common.once
  | some key =>
    key ∈ draft.blocks.map Block.key ∨
      ∃ block, draft.openBlock = some block ∧ block.key = key ∧ path ∈ block.buffer.once

theorem keeps_modifyCurrent {path : String} {place : Option BlockKey}
    (hkeeps : draft.Keeps path place) (change : Buffer → Buffer)
    (hchange : ∀ buffer : Buffer, path ∈ buffer.once → path ∈ (change buffer).once) :
    (draft.modifyCurrent change).Keeps path place := by
  cases hopen : draft.openBlock with
  | none =>
    rw [modifyCurrent, hopen]
    cases place with
    | none => exact hchange draft.common hkeeps
    | some key =>
      obtain hfinished | ⟨block, hblock, -⟩ := hkeeps
      · exact .inl hfinished
      · rw [hopen] at hblock
        cases hblock
  | some block =>
    rw [modifyCurrent, hopen]
    cases place with
    | none => exact hkeeps
    | some key =>
      obtain hfinished | ⟨same, hsame, hkey, hpath⟩ := hkeeps
      · exact .inl hfinished
      · rw [hopen] at hsame
        cases hsame
        exact .inr ⟨_, rfl, hkey, hchange block.buffer hpath⟩

theorem Keeps.apply {path : String} {place : Option BlockKey} (hkeeps : draft.Keeps path place)
    {edit : Edit} (hallows : draft.Allows settings edit) :
    (draft.apply edit).Keeps path place := by
  cases hallows with
  | append line => exact keeps_modifyCurrent hkeeps (·.push line) fun buffer hpath => hpath
  | guard other =>
    exact keeps_modifyCurrent hkeeps (·.guard other) fun buffer hpath =>
      List.mem_cons_of_mem _ hpath
  | openBlock _ hnone =>
    cases place with
    | none => exact hkeeps
    | some key =>
      obtain hfinished | ⟨block, hblock, -⟩ := hkeeps
      · exact .inl hfinished
      · rw [hnone] at hblock
        cases hblock
  | @closeBlock block _ hopen =>
    rw [Draft.apply, hopen]
    cases place with
    | none => exact hkeeps
    | some key =>
      refine .inl ?_
      rw [List.map_append, List.mem_append]
      obtain hfinished | ⟨same, hsame, hkey, -⟩ := hkeeps
      · exact .inl hfinished
      · rw [hopen] at hsame
        cases hsame
        exact .inr (by simp [← hkey])
  | _ => cases place <;> exact hkeeps

/-- A file is noted where it asks. -/
theorem keeps_guard (draft : Draft) (path : String) :
    (draft.apply (.guard path)).Keeps path (draft.openBlock.map OpenBlock.key) := by
  cases hopen : draft.openBlock with
  | none => simp [Keeps, apply, modifyCurrent, hopen, Buffer.guard]
  | some block =>
    refine .inr ⟨{ block with buffer := block.buffer.guard path }, ?_, rfl, ?_⟩
    · rw [apply, modifyCurrent, hopen]
    · exact List.mem_cons_self

/-- A finished block stays finished. -/
theorem mem_finished_apply (draft : Draft) (edit : Edit) {key : BlockKey}
    (hkey : key ∈ draft.blocks.map Block.key) : key ∈ (draft.apply edit).blocks.map Block.key := by
  cases edit with
  | append | guard =>
    rw [apply, modifyCurrent]
    split <;> exact hkey
  | closeBlock =>
    rw [apply]
    split
    · exact hkey
    · rw [List.map_append]
      exact List.mem_append_left _ hkey
  | _ => exact hkey

/-- A file that is noted where lines go is left out. -/
theorem Keeps.holdsOnce (hinherits : draft.Inherits) {path : String} {place : Option BlockKey}
    (hkeeps : draft.Keeps path place)
    (hplace : ∀ key, place = some key → key ∉ draft.blocks.map Block.key) :
    draft.current.holdsOnce path = true := by
  rw [Buffer.holdsOnce_iff]
  cases place with
  | none => exact hinherits.mem_current hkeeps
  | some key =>
    obtain hfinished | ⟨block, hblock, -, hpath⟩ := hkeeps
    · exact absurd hfinished (hplace key rfl)
    · rw [current, hblock]
      exact hpath

end Draft

namespace Trace

variable {settings : Settings}

theorem of_concat {edits : List Edit} {edit : Edit} (trace : Trace settings (edits ++ [edit])) :
    Trace settings edits ∧ (({} : Draft).applyAll edits).Allows settings edit := by
  generalize hwhole : edits ++ [edit] = whole at trace
  cases trace with
  | nil => simp at hwhole
  | snoc trace hallows =>
    obtain ⟨rfl, hedit⟩ := List.append_inj' hwhole rfl
    cases hedit
    exact ⟨trace, hallows⟩

theorem of_append {front back : List Edit} (trace : Trace settings (front ++ back)) :
    Trace settings front := by
  induction back using List.reverseRec with
  | nil => exact List.append_nil front ▸ trace
  | append_singleton back edit ih =>
    rw [← List.append_assoc] at trace
    exact ih trace.of_concat.1

/-- A property of drafts that holds at some moment and is kept by every edit that is allowed holds
from then on. -/
theorem invariant_from {front back : List Edit} (trace : Trace settings (front ++ back))
    (property : Draft → Prop) (start : property (({} : Draft).applyAll front))
    (step : ∀ draft edit, draft.Allows settings edit → property draft →
      property (draft.apply edit)) : property (({} : Draft).applyAll (front ++ back)) := by
  induction back using List.reverseRec with
  | nil =>
    rw [List.append_nil]
    exact start
  | append_singleton back edit ih =>
    rw [← List.append_assoc] at trace ⊢
    obtain ⟨htrace, hallows⟩ := trace.of_concat
    rw [Draft.applyAll_append]
    exact step _ _ hallows (ih htrace)

theorem openAfter_eq {edits : List Edit} (trace : Trace settings edits) :
    openAfter edits = (({} : Draft).applyAll edits).openBlock.map OpenBlock.key := by
  rw [trace.routed.openAfter_eq, Draft.router, Option.map_map]
  rfl

/-- A file that has asked to be included once only stays noted where it has asked. -/
theorem keeps {front back : List Edit} {path : String}
    (trace : Trace settings (front ++ .guard path :: back)) :
    (({} : Draft).applyAll (front ++ .guard path :: back)).Keeps path (openAfter front) := by
  rw [List.append_cons] at trace ⊢
  refine trace.invariant_from (Draft.Keeps · path (openAfter front)) ?_
    fun draft edit hallows hkeeps => hkeeps.apply hallows
  rw [Draft.applyAll_append, trace.of_append.of_append.openAfter_eq]
  exact Draft.keeps_guard _ path

/-- A block that is finished is not opened again. -/
theorem openAfter_ne_of_mem {front back : List Edit} (trace : Trace settings (front ++ back))
    {key : BlockKey} (hkey : key ∈ (({} : Draft).applyAll front).blocks.map Block.key) :
    openAfter (front ++ back) ≠ some key := by
  have hfinished : key ∈ (({} : Draft).applyAll (front ++ back)).blocks.map Block.key := by
    refine trace.invariant_from (key ∈ ·.blocks.map Block.key) hkey ?_
    exact fun draft edit _ hmem => draft.mem_finished_apply edit hmem
  rw [trace.openAfter_eq]
  intro hopen
  obtain ⟨block, hblock, rfl⟩ := Option.map_eq_some_iff.mp hopen
  exact (Draft.wellFormed_of_trace trace).openKey block hblock hfinished

end Trace

/-! ## The visits of a reading -/

/-- The visits of files that a reading is made of, each with the session that it starts from. The
entry file is visited first, and a file that is read visits another one for each of its lines that
includes one. -/
inductive Visited {σ κ : Type} (settings : Settings) (provider : Provider σ κ) (entry : String)
    (context : κ) (world : σ) : (room : Nat) → (site : Location) → (path : String) →
      (place : κ) → Session σ κ → Prop
  | entry : Visited settings provider entry context world (settings.maxIncludeDepth.toNat + 1)
      ⟨entry, 0, ""⟩ entry context { world := world }
  | inner {room : Nat} {site : Location} {path : String} {place : κ}
      {session resolved fetched reached : Session σ κ} {target : Target κ}
      {text line inner : String} {front back : List String} {once : Bool}
      (outer : Visited settings provider entry context world (room + 1) site path place session)
      (resolves : (Walk.resolve provider path place).run session = .ok target resolved)
      (fresh : resolved.draft.current.holdsOnce target.path = false)
      (fetches : (Walk.fetch provider target.path (settings.maxIncludeDepth.toNat - room)).run
        resolved = .ok text fetched)
      (lines : Text.lines text = front ++ line :: back)
      (reaches : (Walk.mark settings 1 target.path >>= fun _ => Walk.readLines settings
        (Walk.visit settings provider room) target 1 false front).run fetched = .ok once reached)
      (isInclusion : Directive.ofLine line = .inclusion (some inner)) :
      Visited settings provider entry context world room
        ⟨target.path, 1 + front.length, line⟩ inner target.context reached

namespace Walk

variable {σ κ α β : Type} {settings : Settings} {provider : Provider σ κ}

/-- Nothing is ever taken out of a journal. -/
theorem stepRelation_isPrefix (settings : Settings) (provider : Provider σ κ) :
    StepRelation settings provider
      fun earlier later => earlier.journal.toList <+: later.journal.toList where
  refl session := List.prefix_refl _
  trans hfirst hsecond := hfirst.trans hsecond
  record event _ _ session := by simp
  append line session := by simp [endSession]
  guard path session := by simp
  command session _ _ edits _ _ := by simp
  resolve path context session := by simp [resolve]
  fetch path depth session := by simp [fetch]

theorem endSession_bind_of_ok {first : Walk σ κ α} {session middle : Session σ κ} {a : α}
    (hfirst : first.run session = .ok a middle) (next : α → Walk σ κ β) :
    (first >>= next).endSession session = (next a).endSession middle := by
  rw [endSession, run_bind_of_ok hfirst, endSession]

/-- What happens first in a walk stands in its journal. -/
theorem isPrefix_bind (first : Walk σ κ α) {next : α → Walk σ κ β}
    (hnext : ∀ a, Respects (fun earlier later => earlier.journal.toList <+: later.journal.toList)
      (next a)) (session : Session σ κ) :
    (first.endSession session).journal.toList <+:
      ((first >>= next).endSession session).journal.toList := by
  cases hrun : first.run session with
  | ok a middle =>
    rw [endSession_bind_of_ok hrun, endSession_of_run hrun]
    exact hnext a middle
  | error fault last =>
    have hstop : (first >>= next).endSession session = first.endSession session := by
      simp only [endSession, EStateM.run_bind, hrun]
    exact hstop ▸ List.prefix_rfl

theorem readLines_append (visit : Visitor σ κ) (file : Target κ) (number : Nat) (once : Bool)
    (front back : List String) :
    readLines settings visit file number once (front ++ back) =
      readLines settings visit file number once front >>= fun once =>
        readLines settings visit file (number + front.length) once back := by
  induction front generalizing number once with
  | nil => simp [readLines]
  | cons line front ih =>
    have hnumber : number + 1 + front.length = number + (line :: front).length := by
      rw [List.length_cons]
      omega
    simp only [List.cons_append, readLines, ih, bind_assoc, hnumber]

/-- What a file visits takes place while the file is visited. -/
theorem isPrefix_visit {room : Nat} {site : Location} {path : String} {place : κ}
    {session resolved fetched reached : Session σ κ} {target : Target κ}
    {text line inner : String} {front back : List String} {once : Bool}
    (hresolve : (resolve provider path place).run session = .ok target resolved)
    (hfresh : resolved.draft.current.holdsOnce target.path = false)
    (hfetch : (fetch provider target.path (settings.maxIncludeDepth.toNat - room)).run resolved =
      .ok text fetched)
    (hlines : Text.lines text = front ++ line :: back)
    (hreach : (mark settings 1 target.path >>= fun _ => readLines settings
      (visit settings provider room) target 1 false front).run fetched = .ok once reached)
    (hline : Directive.ofLine line = .inclusion (some inner)) :
    ((visit settings provider room ⟨target.path, 1 + front.length, line⟩ inner
      target.context).endSession reached).journal.toList <+:
        ((visit settings provider (room + 1) site path place).endSession
          session).journal.toList := by
  have steps := stepRelation_isPrefix settings provider
  have hvisit : (visit settings provider (room + 1) site path place).endSession session =
      (readFile settings (visit settings provider room) target text).endSession fetched := by
    rw [visit, endSession_bind_of_ok hresolve, endSession, EStateM.run_bind, EStateM.run_get]
    dsimp only
    rw [hfresh, if_neg (by decide), ← endSession, endSession_bind_of_ok hfetch]
  have hfile : (readFile settings (visit settings provider room) target text) =
      (mark settings 1 target.path >>= fun _ => readLines settings (visit settings provider room)
        target 1 false front) >>= fun once =>
          readLines settings (visit settings provider room) target (1 + front.length) once
            (line :: back) >>= fun once =>
              if once then perform (.append .guardClose) else pure () := by
    rw [readFile, hlines, readLines_append]
    simp only [bind_assoc]
  have hread : readLine settings (visit settings provider room) target once
      ⟨target.path, 1 + front.length, line⟩ =
        visit settings provider room ⟨target.path, 1 + front.length, line⟩ inner target.context >>=
          fun _ => mark settings (1 + front.length + 1) target.path >>= fun _ => pure once := by
    simp only [readLine, hline, obey]
  rw [hvisit, hfile, endSession_bind_of_ok hreach]
  refine (?_ : _ <+: _).trans (isPrefix_bind _ (fun once => ?_) reached)
  · rw [readLines, hread]
    refine (isPrefix_bind _ (fun _ => ?_) reached).trans (isPrefix_bind _ (fun once => ?_) reached)
    · exact steps.respects_bind (steps.respects_mark _ _) fun _ => steps.respects_pure _
    · exact steps.respects_readLines (steps.respects_visit room) _ _ _ _
  · cases once with
    | true => exact steps.append _
    | false => exact steps.respects_pure ()

end Walk

namespace Visited

variable {σ κ : Type} {settings : Settings} {provider : Provider σ κ} {entry : String}
  {context : κ} {world : σ} {room : Nat} {site : Location} {path : String} {place : κ}
  {session : Session σ κ}

/-- Everything that happens in a visit stands in the journal of the reading. -/
theorem isPrefix (visited : Visited settings provider entry context world room site path place
    session) :
    ((Walk.visit settings provider room site path place).endSession session).journal.toList <+:
      (read settings provider entry context world).session.journal.toList := by
  induction visited with
  | entry => exact session_read settings provider entry context world ▸ List.prefix_rfl
  | inner _ hresolve hfresh hfetch hlines hreach hline ih =>
    exact (Walk.isPrefix_visit hresolve hfresh hfetch hlines hreach hline).trans ih

theorem traced (visited : Visited settings provider entry context world room site path place
    session) : session.Traced settings := by
  have steps := Session.stepRelation_traced settings provider
  induction visited with
  | entry => exact ⟨rfl, .nil⟩
  | @inner room site path place session resolved fetched reached target text line inner front back
      once _ hresolve _ hfetch _ hreach _ ih =>
    have hresolved := steps.resolve path place session ih
    rw [Walk.endSession_of_run hresolve] at hresolved
    have hfetched := steps.fetch target.path (settings.maxIncludeDepth.toNat - room) resolved
      hresolved
    rw [Walk.endSession_of_run hfetch] at hfetched
    have hreached := steps.respects_bind (steps.respects_mark 1 target.path)
      (fun _ => steps.respects_readLines (steps.respects_visit room) target 1 false front) fetched
      hfetched
    rw [Walk.endSession_of_run hreach] at hreached
    exact hreached

end Visited

/-! ## Visits that bring nothing -/

namespace Event

variable {κ : Type}

/-- Whether an event asks for the text of a file, or appends a line that is no marker. -/
def bringsText : Event κ → Bool
  | fetch _ _ _ => true
  | edit (.append (.marker _ _)) => false
  | edit (.append _) => true
  | _ => false

/-- The block that is open when the event at a position of a journal takes place. -/
def openAt (journal : List (Event κ)) (position : Nat) : Option BlockKey :=
  openAfter ((journal.take position).filterMap edit?)

end Event

/-- A file that is noted in the current buffer is asked for and left out. -/
theorem Walk.journal_visit_of_holdsOnce {σ κ : Type} {settings : Settings}
    {provider : Provider σ κ} {session : Session σ κ} {path : String} {place : κ}
    {target : Target κ} (hresolve : (provider.resolve path place session.world).1 = .ok target)
    (hheld : session.draft.current.holdsOnce target.path = true) (room : Nat) (site : Location) :
    ((visit settings provider (room + 1) site path place).endSession session).journal.toList =
      session.journal.toList ++ [.resolve path place (.ok target), .leaveOut target.path] := by
  have hrun : (resolve provider path place).run session =
      .ok target ((resolve provider path place).endSession session) := run_ask_of_ok hresolve
  have hdraft : ((resolve provider path place).endSession session).draft = session.draft := by
    simp [resolve]
  rw [visit, endSession_bind_of_ok hrun, endSession, EStateM.run_bind, EStateM.run_get]
  dsimp only
  rw [hdraft, if_pos hheld, run_record]
  simp [resolve, hresolve]

namespace Session.Traced

variable {σ κ : Type} {settings : Settings} {session : Session σ κ}

/-- A file that has asked to be included once only is noted in the buffer that was current. -/
theorem keeps (traced : session.Traced settings) {asked : Nat} {path : String}
    (hasked : session.journal.toList[asked]? = some (.edit (.guard path))) :
    session.draft.Keeps path (Event.openAt session.journal.toList asked) := by
  obtain ⟨hlt, hevent⟩ := List.getElem?_eq_some_iff.mp hasked
  have hsplit : session.edits = (session.journal.toList.take asked).filterMap Event.edit? ++
      .guard path :: (session.journal.toList.drop (asked + 1)).filterMap Event.edit? := by
    calc session.edits
      _ = (session.journal.toList.take asked ++ session.journal.toList.drop asked).filterMap
            Event.edit? := by rw [List.take_append_drop, Session.edits]
      _ = _ := by
        rw [List.filterMap_append, List.drop_eq_getElem_cons hlt, hevent]
        rfl
  have hkeeps := (hsplit ▸ traced.trace).keeps
  rw [← hsplit, ← traced.draft] at hkeeps
  exact hkeeps

/-- A block that is finished is not open at any later moment. -/
theorem openAt_ne (traced : session.Traced settings) {last : Session σ κ}
    (hlast : last.Traced settings) (hgrows : session.journal.toList <+: last.journal.toList)
    {key : BlockKey} (hkey : key ∈ session.draft.blocks.map Block.key) {position : Nat}
    (hlater : session.journal.size ≤ position) :
    Event.openAt last.journal.toList position ≠ some key := by
  obtain ⟨more, hmore⟩ := hgrows
  have htake : last.journal.toList.take position =
      session.journal.toList ++ more.take (position - session.journal.size) := by
    rw [← hmore, List.take_append, List.take_of_length_le (by simpa using hlater)]
    rfl
  have hwhole : last.edits = (last.journal.toList.take position).filterMap Event.edit? ++
      (last.journal.toList.drop position).filterMap Event.edit? := by
    rw [← List.filterMap_append, List.take_append_drop, Session.edits]
  have htrace := (hwhole ▸ hlast.trace).of_append
  rw [htake, List.filterMap_append] at htrace
  rw [Event.openAt, htake, List.filterMap_append]
  refine htrace.openAfter_ne_of_mem ?_
  rw [← Session.edits, ← traced.draft]
  exact hkey

end Session.Traced

/-- Once a file has asked to be included once only, no later include of it asks for a text or
appends a line other than a marker while the buffer is current in which it has asked. If that is
the common buffer, no later include of it does so at all. -/
theorem Visited.quiet {σ κ : Type} {settings : Settings} {provider : Provider σ κ}
    {entry : String} {context : κ} {world : σ} {room : Nat} {site : Location} {path : String}
    {place : κ} {session : Session σ κ}
    (visited : Visited settings provider entry context world room site path place session)
    {target : Target κ} (hresolve : (provider.resolve path place session.world).1 = .ok target)
    {asked : Nat} (hasked : session.journal.toList[asked]? = some (.edit (.guard target.path)))
    {position : Nat} (hlater : session.journal.size ≤ position) {event : Event κ}
    (hevent : ((Walk.visit settings provider room site path place).endSession
      session).journal.toList[position]? = some event) (hbrings : event.bringsText = true) :
    Event.openAt session.journal.toList asked ≠ none ∧
      Event.openAt ((Walk.visit settings provider room site path place).endSession
        session).journal.toList position ≠ Event.openAt session.journal.toList asked := by
  have traced := visited.traced
  have hkeeps := traced.keeps hasked
  have hinherits : session.draft.Inherits := by
    rw [traced.draft]
    exact Draft.inherits_empty.applyAll _
  cases room with
  | zero =>
    -- There is no room, and nothing happens.
    have hsame : (Walk.visit settings provider 0 site path place).endSession session = session :=
      rfl
    rw [hsame, List.getElem?_eq_none (by simpa using hlater)] at hevent
    cases hevent
  | succ room =>
    by_cases hheld : session.draft.current.holdsOnce target.path = true
    · -- The file is left out, which brings nothing.
      rw [Walk.journal_visit_of_holdsOnce hresolve hheld,
        List.getElem?_append_right (by simpa using hlater)] at hevent
      have hmem := List.mem_of_getElem? hevent
      simp only [List.mem_cons, List.not_mem_nil, or_false] at hmem
      obtain rfl | rfl := hmem <;> cases hbrings
    · -- The file is noted in a block that is finished, and will not be current again.
      obtain ⟨key, hplace, hkey⟩ : ∃ key, Event.openAt session.journal.toList asked = some key ∧
          key ∈ session.draft.blocks.map Block.key := by
        by_contra hnone
        refine hheld (hkeeps.holdsOnce hinherits ?_)
        exact fun key hplace hkey => hnone ⟨key, hplace, hkey⟩
      rw [hplace]
      refine ⟨by simp, traced.openAt_ne ?_ ?_ hkey hlater⟩
      · exact (Session.stepRelation_traced settings provider).respects_visit _ _ _ _ _ traced
      · exact (Walk.stepRelation_isPrefix settings provider).respects_visit _ _ _ _ _

/-! ## One include guard for each file -/

namespace Directive

def isInclusion : Directive → Bool
  | inclusion _ => true
  | _ => false

def isOnce : Directive → Bool
  | once _ => true
  | _ => false

/-- Lines that ask to be included once only, if they do, before they include anything. Otherwise an
included file could bring the same file back before it is noted. -/
def AsksFirst (lines : List String) : Prop :=
  lines.Pairwise fun earlier later =>
    ¬((ofLine earlier).isInclusion = true ∧ (ofLine later).isOnce = true)

instance : DecidablePred AsksFirst :=
  fun lines => inferInstanceAs (Decidable (lines.Pairwise _))

end Directive

namespace Edit

def LeaveGuards (edits : List Edit) : Prop :=
  ∀ path, .append (.guardOpen path) ∉ edits ∧ .guard path ∉ edits

theorem LeaveGuards.append {front back : List Edit} (hfront : LeaveGuards front)
    (hback : LeaveGuards back) : LeaveGuards (front ++ back) := by
  intro path
  simp only [List.mem_append, not_or]
  exact ⟨⟨(hfront path).1, (hback path).1⟩, (hfront path).2, (hback path).2⟩

theorem leaveGuards_copied (file : String) (number : Nat) (text : String) :
    LeaveGuards [.append (.copied file number text)] := by
  simp [LeaveGuards]

theorem leaveGuards_markers (settings : Settings) (number : Nat) (file : String) :
    LeaveGuards (Walk.markers settings number file) := by
  rw [Walk.markers]
  split <;> simp [LeaveGuards]

theorem leaveGuards_guardClosing (once : Bool) : LeaveGuards (Walk.guardClosing once) := by
  cases once <;> simp [LeaveGuards, Walk.guardClosing]

theorem leaveGuards_of_meaning {settings : Settings} {draft : Draft} {site : Location}
    {args : List String} {edits : List Edit}
    (hmeaning : Command.meaning settings draft site args = .ok edits) : LeaveGuards edits := by
  intro path
  refine ⟨?_, Command.guard_notMem_of_meaning hmeaning path⟩
  intro hline
  obtain ⟨text, htext⟩ := Command.exists_expansion_of_meaning hmeaning hline
  cases htext

end Edit

namespace Buffer

/-- The include guard of a file is opened once at most, and only if the file is noted. -/
def Single (buffer : Buffer) : Prop :=
  ∀ path, buffer.lines.toList.count (.guardOpen path) ≤ if path ∈ buffer.once then 1 else 0

variable {buffer : Buffer}

theorem single_empty : Single {} := by
  simp [Single]

theorem Single.push (hbuffer : buffer.Single) {line : Line}
    (hline : ∀ path, line ≠ .guardOpen path) : (buffer.push line).Single := by
  intro path
  have hnone : [line].count (.guardOpen path) = 0 :=
    List.count_eq_zero.mpr (by simpa [eq_comm] using hline path)
  rw [toList_lines_push, List.count_append, hnone]
  exact hbuffer path

/-- The lines that open an include guard, and the note. -/
def openGuard (path : String) (buffer : Buffer) : Buffer :=
  ((buffer.push (.guardOpen path)).push (.guardDefine path)).guard path

theorem Single.openGuard (hbuffer : buffer.Single) {path : String} (hfresh : path ∉ buffer.once) :
    (openGuard path buffer).Single := by
  intro other
  have hlines : (Buffer.openGuard path buffer).lines.toList =
      buffer.lines.toList ++ [.guardOpen path, .guardDefine path] := by
    simp [Buffer.openGuard]
  have honce : (Buffer.openGuard path buffer).once = path :: buffer.once := rfl
  have hcount := hbuffer other
  rw [hlines, honce, List.count_append]
  by_cases hsame : other = path
  · subst hsame
    rw [if_neg hfresh] at hcount
    rw [if_pos List.mem_cons_self]
    have hnew : [Line.guardOpen other, .guardDefine other].count (.guardOpen other) = 1 := by
      simp
    omega
  · have hnew : [Line.guardOpen path, .guardDefine path].count (.guardOpen other) = 0 := by
      simp [List.count_eq_zero, hsame]
    rw [hnew]
    simpa [hsame] using hcount

end Buffer

namespace Draft

variable {settings : Settings} {draft : Draft}

theorem modifyCurrent_modifyCurrent (draft : Draft) (first second : Buffer → Buffer) :
    (draft.modifyCurrent first).modifyCurrent second =
      draft.modifyCurrent fun buffer => second (first buffer) := by
  unfold modifyCurrent
  cases draft.openBlock <;> rfl

theorem applyAll_guardOpening (draft : Draft) (path : String) :
    draft.applyAll (Walk.guardOpening path) = draft.modifyCurrent (Buffer.openGuard path) := by
  rw [Walk.guardOpening]
  simp only [applyAll_cons, applyAll_nil, apply, modifyCurrent_modifyCurrent]
  rfl

/-- No buffer has opened an include guard twice, and blocks inherit what is noted. -/
structure Single (draft : Draft) : Prop where
  buffers : draft.Holds Buffer.Single
  inherits : draft.Inherits

theorem single_empty : ({} : Draft).Single :=
  ⟨.empty Buffer.single_empty, inherits_empty⟩

def Lacks (draft : Draft) (path : String) : Prop :=
  draft.Holds fun buffer => path ∉ buffer.once

/-- A file that is not noted where lines go is noted nowhere. -/
theorem Inherits.lacks (hdraft : draft.Inherits) {path : String}
    (hfresh : draft.current.holdsOnce path = false) : draft.Lacks path := by
  have hcurrent : path ∉ draft.current.once := by
    rw [← Buffer.holdsOnce_iff, hfresh]
    decide
  refine ⟨fun hcommon => hcurrent (hdraft.mem_current hcommon), ?_, ?_⟩
  · intro block hopen
    rw [current, hopen] at hcurrent
    exact hcurrent
  · exact fun block _ => ⟨⟨block.lines, []⟩, by simp, rfl⟩

/-- Edits that open no include guard keep what holds of guards. -/
theorem Single.applyAll (hdraft : draft.Single) {edits : List Edit}
    (hedits : Edit.LeaveGuards edits) : (draft.applyAll edits).Single := by
  refine ⟨hdraft.buffers.applyAll ?_ fun path => (hedits path).2, hdraft.inherits.applyAll edits⟩
  intro line hline buffer hbuffer
  refine hbuffer.push ?_
  rintro path rfl
  exact (hedits path).1 hline

theorem Lacks.applyAll {path : String} (hdraft : draft.Lacks path) {edits : List Edit}
    (hedits : Edit.LeaveGuards edits) : (draft.applyAll edits).Lacks path :=
  Holds.applyAll hdraft (fun _ _ _ hbuffer => hbuffer) fun path => (hedits path).2

theorem Single.guardOpening (hdraft : draft.Single) {path : String} (hlacks : draft.Lacks path) :
    (draft.applyAll (Walk.guardOpening path)).Single := by
  refine ⟨?_, hdraft.inherits.applyAll _⟩
  rw [applyAll_guardOpening]
  exact hdraft.buffers.modifyCurrent _ (hdraft.buffers.current.openGuard hlacks.current)

end Draft

section

variable {κ : Type} {settings : Settings} {promise : Event κ → Prop}

/-- A file that asks to be included once only is noted nowhere when it is fetched, and stays so
until it asks, because only an included file could note it. -/
theorem Course.single (hasks : ∀ path depth text, promise (.fetch path depth (.ok text)) →
      Directive.AsksFirst (Text.lines text)) {room : Nat} {file : Target κ} {number : Nat}
    {once after : Bool} {lines : List String} {draft last : Draft}
    (course : Course settings promise room file number once lines draft after last)
    (hfirst : Directive.AsksFirst lines)
    (hlacks : once = false → (∃ line ∈ lines, (Directive.ofLine line).isOnce = true) →
      draft.Lacks file.path)
    (hdraft : draft.Single) : last.Single := by
  -- A line that neither asks nor includes leaves the rest of the file as it was.
  have hkept : ∀ {draft : Draft} {edits : List Edit} {once : Bool} {path line : String}
      {lines : List String}, Edit.LeaveGuards edits →
      (once = false → (∃ other ∈ line :: lines, (Directive.ofLine other).isOnce = true) →
        draft.Lacks path) →
      once = false → (∃ other ∈ lines, (Directive.ofLine other).isOnce = true) →
        (draft.applyAll edits).Lacks path := by
    rintro draft edits once path line lines hedits hlacks honce ⟨other, hother, hasksLater⟩
    exact (hlacks honce ⟨other, List.mem_cons_of_mem _ hother, hasksLater⟩).applyAll hedits
  -- After a line that includes a file, no line asks any more.
  have hnone : ∀ {line path : String} {lines : List String} {property : Prop},
      Directive.ofLine line = .inclusion (some path) → Directive.AsksFirst (line :: lines) →
      (∃ other ∈ lines, (Directive.ofLine other).isOnce = true) → property := by
    rintro line path lines property hline hfirst ⟨other, hother, hasksLater⟩
    refine absurd ⟨?_, hasksLater⟩ ((List.pairwise_cons.mp hfirst).1 other hother)
    rw [hline]
    rfl
  induction course with
  | done => exact hdraft
  | @plain room file number once after line lines draft last hline _ ih =>
    have hedits := Edit.leaveGuards_copied file.path number line
    exact ih (List.pairwise_cons.mp hfirst).2 (hkept hedits hlacks) (hdraft.applyAll hedits)
  | @once room file number after line lines draft last hline _ ih =>
    rw [Draft.applyAll_append] at ih
    have hasksNow : (Directive.ofLine line).isOnce = true := by
      rw [hline]
      rfl
    have hopened := hdraft.guardOpening (hlacks rfl ⟨line, List.mem_cons_self, hasksNow⟩)
    refine ih (List.pairwise_cons.mp hfirst).2 (by simp) (hopened.applyAll ?_)
    exact Edit.leaveGuards_markers settings _ _
  | @command room file number once after line lines args edits draft last hline hmeaning _ ih =>
    have hedits := (Edit.leaveGuards_of_meaning hmeaning).append
      (Edit.leaveGuards_markers settings (number + 1) file.path)
    exact ih (List.pairwise_cons.mp hfirst).2 (hkept hedits hlacks) (hdraft.applyAll hedits)
  | leftOut hline _ _ _ ih =>
    exact ih (List.pairwise_cons.mp hfirst).2 (fun _ => hnone hline hfirst)
      (hdraft.applyAll (Edit.leaveGuards_markers settings _ _))
  | @included room file target number once guarded after line path text lines draft middle last
      hline _ hfresh hfetched _ _ ihInner ihRest =>
    have hstart := Edit.leaveGuards_markers settings 1 target.path
    have hinner : middle.Single := ihInner (hasks _ _ _ hfetched)
      (fun _ _ => (hdraft.inherits.lacks hfresh).applyAll hstart) (hdraft.applyAll hstart)
    exact ihRest (List.pairwise_cons.mp hfirst).2 (fun _ => hnone hline hfirst)
      (hinner.applyAll ((Edit.leaveGuards_guardClosing guarded).append
        (Edit.leaveGuards_markers settings _ _)))

end

/-- If every file asks to be included once only, if it does, before it includes anything, then no
block has the include guard of a file twice. -/
theorem count_guardOpen_le_one {σ κ : Type} {settings : Settings} {provider : Provider σ κ}
    {entry : String} {context : κ} {world : σ} {program : Program}
    (hread : (read settings provider entry context world).outcome = .ok program)
    (hasks : ∀ path depth text, .fetch path depth (.ok text) ∈
      (read settings provider entry context world).session.journal →
        Directive.AsksFirst (Text.lines text))
    {technique : Technique} (htechnique : technique ∈ program.techniques) {stage : Stage}
    {block : Block} (hblock : technique.block? stage = some block) (path : String) :
    block.lines.toList.count (.guardOpen path) ≤ 1 := by
  obtain ⟨target, text, guarded, last, -, -, hfetched, course, hprogram⟩ :=
    course_of_read hread fun event hevent => hevent
  have hstart := Edit.leaveGuards_markers settings 1 target.path
  have hlacks : ({} : Draft).Lacks target.path := .empty (by simp)
  have hlast := (course.single hasks (hasks _ _ _ hfetched) (fun _ _ => hlacks.applyAll hstart)
    (Draft.single_empty.applyAll hstart)).applyAll (Edit.leaveGuards_guardClosing guarded)
  obtain ⟨buffer, hbuffer, hlines⟩ :=
    Program.exists_buffer_of_block? hprogram hlast.buffers htechnique hblock
  rw [← hlines]
  calc buffer.lines.toList.count (.guardOpen path)
    _ ≤ if path ∈ buffer.once then 1 else 0 := hbuffer path
    _ ≤ 1 := by split <;> decide

/-- Files are included once only where they ask for it. In every reading, once a file has asked, no
later visit that resolves to it asks for a text or appends a line other than a marker while the
buffer is current in which the file has asked, and none does so at all if that is the common buffer.
If moreover every file asks before it includes anything, then in a program that was read no block
has the include guard of a file twice. -/
theorem quiet_and_count_guardOpen_le_one {σ κ : Type} (settings : Settings)
    (provider : Provider σ κ) (entry : String) (context : κ) (world : σ) :
    (∀ room site path place (session : Session σ κ) target asked,
      Visited settings provider entry context world room site path place session →
      (provider.resolve path place session.world).1 = .ok target →
      session.journal.toList[asked]? = some (.edit (.guard target.path)) →
        ((Walk.visit settings provider room site path place).endSession
          session).journal.toList <+:
            (read settings provider entry context world).session.journal.toList ∧
        ∀ position event, session.journal.size ≤ position →
          ((Walk.visit settings provider room site path place).endSession
            session).journal.toList[position]? = some event →
          event.bringsText = true →
            Event.openAt session.journal.toList asked ≠ none ∧
            Event.openAt ((Walk.visit settings provider room site path place).endSession
              session).journal.toList position ≠ Event.openAt session.journal.toList asked) ∧
    ∀ program, (read settings provider entry context world).outcome = .ok program →
      (∀ path depth text, .fetch path depth (.ok text) ∈
        (read settings provider entry context world).session.journal →
          Directive.AsksFirst (Text.lines text)) →
      ∀ technique ∈ program.techniques, ∀ stage block, technique.block? stage = some block →
        ∀ path, block.lines.toList.count (.guardOpen path) ≤ 1 := by
  constructor
  · intro room site path place session target asked visited hresolve hasked
    refine ⟨visited.isPrefix, ?_⟩
    intro position event hlater hevent hbrings
    exact visited.quiet hresolve hasked hlater hevent hbrings
  · intro program hread hasks technique htechnique stage block hblock path
    exact count_guardOpen_le_one hread hasks htechnique hblock path

/-- A file that asks to be included once only, and is included twice. -/
def sharedFile : Catalog where
  files :=
    [("main", "#include \"lib\"\n#include \"lib\"\n" ++
        "#pragma anki technique_start comp\n#pragma anki technique_end comp\n"),
     ("lib", "#pragma once\nint l;\n")]

theorem quiet_and_count_guardOpen_le_one_sharedFile :
    (∃ (site : Location) (session : Session Unit String),
      Visited {} sharedFile.provider "main" "" () 8 site "lib" "" session ∧
      session.journal.toList[6]? = some (Event.edit (.guard "lib")) ∧
      ∀ position event, session.journal.size ≤ position →
        ((Walk.visit {} sharedFile.provider 8 site "lib" "").endSession
          session).journal.toList[position]? = some event → event.bringsText = false) ∧
    ∃ program technique block,
      (read {} sharedFile.provider "main" "" ()).outcome = .ok program ∧
      technique ∈ program.techniques ∧ technique.block? .compute = some block ∧
      block.lines.toList.count (.guardOpen "lib") ≤ 1 := by
  obtain ⟨hquiet, hcount⟩ := quiet_and_count_guardOpen_le_one {} sharedFile.provider "main" "" ()
  constructor
  · -- The second line of the entry file, after the first one has been read.
    have hcheck : (match (Walk.mark {} 1 "main" >>= fun _ => Walk.readLines {}
        (Walk.visit {} sharedFile.provider 8) (⟨"main", ""⟩ : Target String) 1 false
        ["#include \"lib\""]).run ((Walk.fetch sharedFile.provider "main" 0).endSession
          ((Walk.resolve sharedFile.provider "main" "").endSession { world := () })) with
        | .ok _ reached =>
          decide (reached.journal.toList[6]?.bind Event.edit? = some (.guard "lib")) &&
            decide (Event.openAt reached.journal.toList 6 = none)
        | .error _ _ => false) = true := by
      decide +kernel
    split at hcheck
    · next once reached hreach =>
      obtain ⟨hguard, hcommon⟩ := Bool.and_eq_true_iff.mp hcheck
      have outer : Visited {} sharedFile.provider "main" "" () (8 + 1) ⟨"main", 0, ""⟩ "main" ""
          { world := () } := .entry
      have hlines : Text.lines ("#include \"lib\"\n#include \"lib\"\n" ++
          "#pragma anki technique_start comp\n#pragma anki technique_end comp\n") =
          ["#include \"lib\""] ++ "#include \"lib\"" ::
            ["#pragma anki technique_start comp", "#pragma anki technique_end comp"] := by
        decide +kernel
      have hline : Directive.ofLine "#include \"lib\"" = .inclusion (some "lib") := by
        decide +kernel
      have visited : Visited {} sharedFile.provider "main" "" () 8
          ⟨"main", 2, "#include \"lib\""⟩ "lib" "" reached :=
        outer.inner rfl rfl rfl hlines hreach hline
      have hasked : reached.journal.toList[6]? = some (Event.edit (.guard "lib")) := by
        obtain ⟨event, hevent, hedit⟩ := Option.bind_eq_some_iff.mp (of_decide_eq_true hguard)
        cases event <;> cases hedit
        exact hevent
      refine ⟨_, reached, visited, hasked, ?_⟩
      intro position event hlater hevent
      by_contra hbrings
      have hplace := (hquiet _ _ _ _ _ ⟨"lib", ""⟩ 6 visited rfl hasked).2 position event hlater
        hevent (by simpa using hbrings)
      exact hplace.1 (of_decide_eq_true hcommon)
    · cases hcheck
  · have hcheck : ((read {} sharedFile.provider "main" "" ()).outcome.toOption.any fun program =>
        program.techniques.any fun technique => (technique.block? .compute).isSome) = true := by
      decide +kernel
    obtain ⟨program, hprogram, htechniques⟩ := (Option.any_eq_true ..).mp hcheck
    obtain ⟨technique, htechnique, hsome⟩ := List.any_eq_true.mp htechniques
    obtain ⟨block, hblock⟩ := Option.isSome_iff_exists.mp hsome
    have hread := eq_ok_of_toOption hprogram
    have hjournal : ((read {} sharedFile.provider "main" "" ()).session.journal.all fun event =>
        event.text?.all fun text => decide (Directive.AsksFirst (Text.lines text))) = true := by
      decide +kernel
    have hasks : ∀ path depth text, .fetch path depth (.ok text) ∈
        (read {} sharedFile.provider "main" "" ()).session.journal →
          Directive.AsksFirst (Text.lines text) := fun path depth text hevent =>
      of_decide_eq_true (Event.of_all_text? hjournal hevent)
    exact ⟨program, technique, block, hread, htechnique, hblock,
      hcount program hread hasks technique htechnique .compute block hblock "lib"⟩

end Ubershader
