import Ubershader.Proofs.Reading.Blame
import Ubershader.Proofs.Reading.IncludeOnce

/-!
# The moments of a reading

`Visited` says which visits of files a reading is made of. `Reached` says the same of the lines of
the files that are read: from which session a line is read, and which lines of its file have been
read before. With the two of them, an invariant of a reading can be checked for the steps that the
reading really makes, and each step knows where it is made: a text is fetched in a visit, a command
stands on a line that the journal shows, and a file that is nested too deeply is included by a file
that has no room left (`ReadingInvariant`).

A reading that gives a program has come through all of its visits (`Visited.exists_run`).
-/

namespace Ubershader

section

variable {σ κ : Type} (settings : Settings) (provider : Provider σ κ) (entry : String)
  (context : κ) (world : σ)

/-- The moments at which a reading is between two lines of a file, with the lines before and the
lines after. -/
inductive Reached : (room : Nat) → (file : Target κ) → (front back : List String) → (once : Bool) →
    Session σ κ → Prop
  | intro {room : Nat} {site : Location} {path : String} {place : κ}
      {session resolved fetched reached : Session σ κ} {target : Target κ} {text : String}
      {front back : List String} {once : Bool}
      (visited : Visited settings provider entry context world (room + 1) site path place session)
      (resolves : (Walk.resolve provider path place).run session = .ok target resolved)
      (fresh : resolved.draft.current.holdsOnce target.path = false)
      (fetches : (Walk.fetch provider target.path (settings.maxIncludeDepth.toNat - room)).run
        resolved = .ok text fetched)
      (lines : Text.lines text = front ++ back)
      (reaches : (Walk.mark settings 1 target.path >>= fun _ => Walk.readLines settings
        (Walk.visit settings provider room) target 1 false front).run fetched = .ok once reached) :
      Reached room target front back once reached

/-- A fault of nesting comes from a visit for which there is no room, and tells the depth that this
visit would have had. -/
def Fault.IsMet : Fault → Prop
  | .tooDeep file includer line depth => depth = settings.maxIncludeDepth.toNat + 1 ∧
      ∃ text place session,
        Visited settings provider entry context world 0 ⟨includer, line, text⟩ file place session
  | _ => True

/-- A property of sessions that a reading starts with and that each of its steps keeps. A step may
use what is known at its moment, such as the visit that asks for a text. -/
structure ReadingInvariant (property : Session σ κ → Prop) : Prop where
  start : property { world := world }
  resolve : ∀ {path : String} {place : κ} {session : Session σ κ}, property session →
    property ((Walk.resolve provider path place).endSession session)
  fetch : ∀ {room : Nat} {site : Location} {path : String} {place : κ} {target : Target κ}
      {session resolved : Session σ κ},
    Visited settings provider entry context world (room + 1) site path place session →
      (Walk.resolve provider path place).run session = .ok target resolved →
        resolved.draft.current.holdsOnce target.path = false → property resolved →
          property ((Walk.fetch provider target.path
            (settings.maxIncludeDepth.toNat - room)).endSession resolved)
  record : ∀ {event : Event κ} {session : Session σ κ}, event.call? = none → event.edit? = none →
    property session → property ((Walk.record event).endSession session)
  append : ∀ {line : Line} {session : Session σ κ}, property session →
    property ((Walk.perform (.append line)).endSession session)
  guard : ∀ {site : Location} {session : Session σ κ}, site.IsShown session.journal →
    Directive.ofLine site.text = .once true → property session →
      property ((Walk.performAll (Walk.guardOpening site.file)).endSession session)
  command : ∀ {site : Location} {args : List String} {edits : List Edit} {session : Session σ κ},
    site.IsShown session.journal → Directive.ofLine site.text = .command args →
      Command.meaning settings session.draft site args = .ok edits → property session →
        property ((Walk.performAll edits).endSession session)

end

section

variable {σ κ : Type} {settings : Settings} {provider : Provider σ κ} {entry : String}
  {context : κ} {world : σ}

/-! ## Lines that are reached -/

namespace Walk

/-- The visit of a file goes on with the lines that are left. -/
theorem run_visit_of_reaches {room : Nat} {site : Location} {path : String} {place : κ}
    {session resolved fetched reached : Session σ κ} {target : Target κ} {text : String}
    {front back : List String} {once : Bool}
    (hresolve : (resolve provider path place).run session = .ok target resolved)
    (hfresh : resolved.draft.current.holdsOnce target.path = false)
    (hfetch : (fetch provider target.path (settings.maxIncludeDepth.toNat - room)).run resolved =
      .ok text fetched)
    (hlines : Text.lines text = front ++ back)
    (hreach : (mark settings 1 target.path >>= fun _ => readLines settings
      (visit settings provider room) target 1 false front).run fetched = .ok once reached) :
    (visit settings provider (room + 1) site path place).run session =
      (readLines settings (visit settings provider room) target (1 + front.length) once back >>=
        fun once => if once then perform (.append .guardClose) else pure ()).run reached := by
  have hfile : readFile settings (visit settings provider room) target text =
      (mark settings 1 target.path >>= fun _ => readLines settings (visit settings provider room)
        target 1 false front) >>= fun once =>
          readLines settings (visit settings provider room) target (1 + front.length) once back >>=
            fun once => if once then perform (.append .guardClose) else pure () := by
    rw [readFile, hlines, readLines_append]
    simp only [bind_assoc]
  rw [visit, run_bind_of_ok hresolve, EStateM.run_bind, EStateM.run_get]
  dsimp only
  rw [hfresh, if_neg (by decide), run_bind_of_ok hfetch, hfile, run_bind_of_ok hreach]

end Walk

namespace Reached

variable {room : Nat} {file : Target κ} {front back : List String} {line : String} {once : Bool}
  {session : Session σ κ}

/-- The first line of a file that is fetched is reached. -/
theorem first {site : Location} {path text : String} {place : κ}
    {resolved fetched marked : Session σ κ}
    (visited : Visited settings provider entry context world (room + 1) site path place session)
    (hresolve : (Walk.resolve provider path place).run session = .ok file resolved)
    (hfresh : resolved.draft.current.holdsOnce file.path = false)
    (hfetch : (Walk.fetch provider file.path (settings.maxIncludeDepth.toNat - room)).run resolved =
      .ok text fetched)
    (hmark : (Walk.mark settings 1 file.path).run fetched = .ok () marked) :
    Reached settings provider entry context world room file [] (Text.lines text) false marked :=
  .intro visited hresolve hfresh hfetch rfl (Walk.run_bind_of_ok hmark _)

/-- The files that a line includes are visited. -/
theorem visited
    (reached : Reached settings provider entry context world room file front (line :: back) once
      session) {path : String} (hline : Directive.ofLine line = .inclusion (some path)) :
    Visited settings provider entry context world room ⟨file.path, 1 + front.length, line⟩ path
      file.context session := by
  cases reached with
  | intro visited hresolve hfresh hfetch hlines hreach =>
    exact .inner visited hresolve hfresh hfetch hlines hreach hline

/-- The next line is shown by the journal. -/
theorem isShown
    (reached : Reached settings provider entry context world room file front (line :: back) once
      session) : Location.IsShown session.journal ⟨file.path, 1 + front.length, line⟩ := by
  cases reached with
  | intro _ _ _ hfetch hlines hreach =>
    obtain ⟨-, -, -, hevent⟩ := Walk.of_run_ask hfetch
    have steps := Walk.stepRelation_journal settings provider
    have hgrows := steps.respects_bind (steps.respects_mark 1 file.path) fun _ =>
      steps.respects_readLines (steps.respects_visit room) file 1 false front
    have hkept := hgrows _ _ hevent
    rw [Walk.endSession_of_run hreach] at hkept
    refine ⟨_, hkept, _, _, rfl, by show 0 < 1 + front.length; omega, ?_⟩
    simp [hlines]

/-- From one line to the next. -/
theorem next
    (reached : Reached settings provider entry context world room file front (line :: back) once
      session) {after : Bool} {middle : Session σ κ}
    (hrun : (Walk.readLine settings (Walk.visit settings provider room) file once
      ⟨file.path, 1 + front.length, line⟩).run session = .ok after middle) :
    Reached settings provider entry context world room file (front ++ [line]) back after
      middle := by
  cases reached with
  | intro visited hresolve hfresh hfetch hlines hreach =>
    refine .intro visited hresolve hfresh hfetch (by simpa using hlines) ?_
    have hfront : (Walk.mark settings 1 file.path >>= fun _ => Walk.readLines settings
        (Walk.visit settings provider room) file 1 false (front ++ [line])) =
          (Walk.mark settings 1 file.path >>= fun _ => Walk.readLines settings
            (Walk.visit settings provider room) file 1 false front) >>= fun once =>
              Walk.readLines settings (Walk.visit settings provider room) file (1 + front.length)
                once [line] := by
      simp only [Walk.readLines_append, bind_assoc]
    rw [hfront, Walk.run_bind_of_ok hreach, Walk.readLines, Walk.run_bind_of_ok hrun]
    rfl

end Reached

/-! ## Readings that come through -/

/-- In a reading that gives a program every visit ends without a fault. -/
theorem Visited.exists_run {room : Nat} {site : Location} {path : String} {place : κ}
    {session : Session σ κ} {program : Program}
    (visited : Visited settings provider entry context world room site path place session)
    (hread : (read settings provider entry context world).outcome = .ok program) :
    ∃ last, (Walk.visit settings provider room site path place).run session = .ok () last := by
  induction visited with
  | entry => exact ⟨_, (walk_of_read hread).1⟩
  | inner _ hresolve hfresh hfetch hlines hreach hline ih =>
    obtain ⟨last, hlast⟩ := ih
    rw [Walk.run_visit_of_reaches hresolve hfresh hfetch hlines hreach] at hlast
    obtain ⟨_, _, hrest, -⟩ := Walk.exists_of_run_bind hlast
    obtain ⟨_, _, hfirst, -⟩ := Walk.exists_of_run_bind hrest
    simp only [Walk.readLine, hline, Walk.obey] at hfirst
    obtain ⟨_, inside, hvisit, -⟩ := Walk.exists_of_run_bind hfirst
    exact ⟨inside, hvisit⟩

/-- A visit that goes through leaves its file out, or gets to each of the file's lines. -/
theorem Visited.exists_reached {room : Nat} {site : Location} {path : String} {place : κ}
    {session last : Session σ κ}
    (visited : Visited settings provider entry context world (room + 1) site path place session)
    (hrun : (Walk.visit settings provider (room + 1) site path place).run session = .ok () last) :
    ∃ target, (provider.resolve path place session.world).1 = .ok target ∧
      (session.draft.current.holdsOnce target.path = true ∨
        ∃ text, provider.Gives path place session.world target text ∧
          ∀ front back, Text.lines text = front ++ back → ∃ once reached,
            Reached settings provider entry context world room target front back once reached) := by
  obtain ⟨target, resolved, hresolve, hrest⟩ := Walk.exists_of_run_bind hrun
  obtain ⟨hanswer, hworld, hdraft, -⟩ := Walk.of_run_ask hresolve
  refine ⟨target, hanswer, ?_⟩
  rw [EStateM.run_bind, EStateM.run_get] at hrest
  dsimp only at hrest
  split at hrest
  · next hheld => exact .inl (hdraft ▸ hheld)
  · next hheld =>
    obtain ⟨text, fetched, hfetch, hfile⟩ := Walk.exists_of_run_bind hrest
    obtain ⟨htext, -⟩ := Walk.of_run_ask hfetch
    refine .inr ⟨text, ⟨hanswer, hworld ▸ htext⟩, fun front back hlines => ?_⟩
    obtain ⟨_, marked, hmark, hafter⟩ := Walk.exists_of_run_bind hfile
    obtain ⟨_, _, hall, -⟩ := Walk.exists_of_run_bind hafter
    rw [hlines, Walk.readLines_append] at hall
    obtain ⟨once, reached, hfront, -⟩ := Walk.exists_of_run_bind hall
    exact ⟨once, reached, .intro visited hresolve (Bool.eq_false_iff.mpr hheld) hfetch hlines
      ((Walk.run_bind_of_ok hmark _).trans hfront)⟩

/-! ## Invariants -/

namespace ReadingInvariant

variable {α β : Type} {property : Session σ κ → Prop}

/-- What a walk comes to that is part of a reading: the invariant holds at its end, and a fault of
nesting comes from a visit of the reading. -/
def Ends (_ : ReadingInvariant settings provider entry context world property) :
    EStateM.Result Fault (Session σ κ) α → Prop
  | .ok _ last => property last
  | .error fault last => property last ∧ fault.IsMet settings provider entry context world

variable (invariant : ReadingInvariant settings provider entry context world property)
include invariant

theorem of_ends {walk : Walk σ κ α} {session last : Session σ κ} {a : α}
    (hends : invariant.Ends (walk.run session)) (hrun : walk.run session = .ok a last) :
    property last := by
  rw [hrun] at hends
  exact hends

theorem ends_bind {first : Walk σ κ α} {next : α → Walk σ κ β} {session : Session σ κ}
    (hfirst : invariant.Ends (first.run session))
    (hnext : ∀ a middle, first.run session = .ok a middle → property middle →
      invariant.Ends ((next a).run middle)) : invariant.Ends ((first >>= next).run session) := by
  rw [EStateM.run_bind]
  cases hrun : first.run session with
  | ok a middle => exact hnext a middle hrun (invariant.of_ends hfirst hrun)
  | error fault last =>
    rw [hrun] at hfirst
    exact hfirst

theorem ends_ask {path : String} {question : σ → Except String α × σ}
    {event : Except String α → Event κ} {session : Session σ κ}
    (hproperty : property ((Walk.ask path question event).endSession session)) :
    invariant.Ends ((Walk.ask path question event).run session) := by
  rw [Walk.endSession_ask] at hproperty
  simp only [Walk.ask, EStateM.run]
  rcases hquestion : question session.world with ⟨cause | a, world⟩ <;> rw [hquestion] at hproperty
  · exact ⟨hproperty, trivial⟩
  · exact hproperty

theorem ends_mark {session : Session σ κ} (hproperty : property session) (number : Nat)
    (file : String) : invariant.Ends ((Walk.mark settings number file).run session) := by
  rw [Walk.mark]
  split
  · exact invariant.append hproperty
  · exact hproperty

theorem ends_runOnce {site : Location} {session : Session σ κ}
    (hshown : site.IsShown session.journal) {alone : Bool}
    (hline : Directive.ofLine site.text = .once alone) (hproperty : property session)
    (seen : Bool) : invariant.Ends ((Walk.runOnce site.file site seen alone).run session) := by
  rw [Walk.runOnce]
  split
  · exact ⟨hproperty, trivial⟩
  · cases alone with
    | false => exact ⟨hproperty, trivial⟩
    | true => exact invariant.guard hshown hline hproperty

theorem ends_carryOut {site : Location} {args : List String} {session : Session σ κ}
    (hshown : site.IsShown session.journal) (hline : Directive.ofLine site.text = .command args)
    (hproperty : property session) :
    invariant.Ends ((Walk.carryOut settings site args).run session) := by
  rw [Walk.carryOut, EStateM.run_bind, EStateM.run_get]
  dsimp only
  split
  · next edits hmeaning =>
    rw [Walk.run_performAll_eq]
    exact invariant.command hshown hline hmeaning hproperty
  · exact ⟨hproperty, trivial⟩

theorem ends_runCommand {site : Location} {args : List String} {session : Session σ κ}
    (hshown : site.IsShown session.journal) (hline : Directive.ofLine site.text = .command args)
    (hproperty : property session) :
    invariant.Ends ((Walk.runCommand settings site args).run session) := by
  cases args with
  | nil => exact invariant.ends_carryOut hshown hline hproperty
  | cons name args =>
    refine invariant.ends_bind (invariant.record rfl rfl hproperty) ?_
    rintro _ _ ⟨⟩ hnoted
    exact invariant.ends_carryOut (hshown.mono (by simp +contextual)) hline hnoted

theorem ends_readLine {visit : Walk.Visitor σ κ} {file : Target κ} {site : Location}
    {session : Session σ κ} (hfile : site.file = file.path) (hshown : site.IsShown session.journal)
    (hvisit : ∀ path, Directive.ofLine site.text = .inclusion (some path) →
      invariant.Ends ((visit site path file.context).run session))
    (hproperty : property session) (once : Bool) :
    invariant.Ends ((Walk.readLine settings visit file once site).run session) := by
  have hmark : ∀ middle number next, property middle → invariant.Ends
      ((Walk.mark settings number site.file >>= fun _ => pure next : Walk σ κ Bool).run middle) :=
    fun middle number next hmiddle =>
      invariant.ends_bind (invariant.ends_mark hmiddle number site.file) fun _ _ _ hlast => hlast
  unfold Walk.readLine Walk.obey
  split
  · exact invariant.ends_bind (invariant.append hproperty) fun _ _ _ hlast => hlast
  · exact ⟨hproperty, trivial⟩
  · next path hline =>
    exact invariant.ends_bind (hvisit path hline) fun _ middle _ hmiddle => hmark middle _ _ hmiddle
  · next alone hline =>
    rw [← hfile]
    exact invariant.ends_bind (invariant.ends_runOnce hshown hline hproperty once)
      fun _ middle _ hmiddle => hmark middle _ _ hmiddle
  · next args hline =>
    exact invariant.ends_bind (invariant.ends_runCommand hshown hline hproperty)
      fun _ middle _ hmiddle => hmark middle _ _ hmiddle

theorem ends_readLines {room : Nat} {file : Target κ} {front lines back : List String}
    {once : Bool} {session : Session σ κ}
    (hvisit : ∀ {site path place session},
      Visited settings provider entry context world room site path place session →
        property session →
          invariant.Ends ((Walk.visit settings provider room site path place).run session))
    (reached : Reached settings provider entry context world room file front (lines ++ back) once
      session)
    (hproperty : property session) :
    invariant.Ends ((Walk.readLines settings (Walk.visit settings provider room) file
      (1 + front.length) once lines).run session) := by
  induction lines generalizing front once session with
  | nil => exact hproperty
  | cons line lines ih =>
    refine invariant.ends_bind (invariant.ends_readLine rfl reached.isShown
      (fun path hline => hvisit (reached.visited hline) hproperty) hproperty once) ?_
    intro after middle hrun hmiddle
    simpa [Nat.add_assoc] using ih (reached.next hrun) hmiddle

/-- The invariant is kept by every visit of the reading. -/
theorem ends_visit {room : Nat} {site : Location} {path : String} {place : κ}
    {session : Session σ κ}
    (visited : Visited settings provider entry context world room site path place session)
    (hproperty : property session) :
    invariant.Ends ((Walk.visit settings provider room site path place).run session) := by
  induction room generalizing site path place session with
  | zero => exact ⟨hproperty, rfl, site.text, place, session, visited⟩
  | succ room ih =>
    refine invariant.ends_bind (invariant.ends_ask (invariant.resolve hproperty)) ?_
    intro target resolved hresolve hresolved
    rw [EStateM.run_bind, EStateM.run_get]
    dsimp only
    split
    · exact invariant.record rfl rfl hresolved
    · next hheld =>
      have hfresh : resolved.draft.current.holdsOnce target.path = false :=
        Bool.eq_false_iff.mpr hheld
      refine invariant.ends_bind
        (invariant.ends_ask (invariant.fetch visited hresolve hfresh hresolved)) ?_
      intro text fetched hfetch hfetched
      refine invariant.ends_bind (invariant.ends_mark hfetched 1 target.path) ?_
      intro _ marked hmark hmarked
      have reached := Reached.first visited hresolve hfresh hfetch hmark
      rw [← List.append_nil (Text.lines text)] at reached
      refine invariant.ends_bind (invariant.ends_readLines ih reached hmarked) ?_
      intro once last _ hlast
      cases once with
      | true => exact invariant.append hlast
      | false => exact hlast

/-- An invariant of a reading holds at the start of each of its visits. -/
theorem visited {room : Nat} {site : Location} {path : String} {place : κ} {session : Session σ κ}
    (visited : Visited settings provider entry context world room site path place session) :
    property session := by
  induction visited with
  | entry => exact invariant.start
  | inner outer hresolve hfresh hfetch hlines hreach _ ih =>
    have hresolved := invariant.of_ends (invariant.ends_ask (invariant.resolve ih)) hresolve
    have hfetched := invariant.of_ends
      (invariant.ends_ask (invariant.fetch outer hresolve hfresh hresolved)) hfetch
    obtain ⟨_, marked, hmark, hfront⟩ := Walk.exists_of_run_bind hreach
    have hmarked := invariant.of_ends (invariant.ends_mark hfetched 1 _) hmark
    have reached := Reached.first outer hresolve hfresh hfetch hmark
    rw [hlines] at reached
    exact invariant.of_ends (invariant.ends_readLines invariant.ends_visit reached hmarked) hfront

/-- An invariant of a reading holds at its end. -/
theorem read : property (read settings provider entry context world).session := by
  have hends := invariant.ends_visit .entry invariant.start
  rw [session_read, Walk.endSession]
  split
  · next hrun => exact invariant.of_ends hends hrun
  · next hrun =>
    rw [hrun] at hends
    exact hends.1

end ReadingInvariant

/-- A reading ends in a fault of nesting only where one of its visits has no room. -/
theorem isMet_of_read {fault : Fault}
    (hfault : (read settings provider entry context world).outcome = .error fault) :
    fault.IsMet settings provider entry context world := by
  have invariant : ReadingInvariant settings provider entry context world fun _ => True :=
    ⟨trivial, fun _ => trivial, fun _ _ _ _ => trivial, fun _ _ _ => trivial, fun _ => trivial,
      fun _ _ _ => trivial, fun _ _ _ _ => trivial⟩
  have hends := invariant.ends_visit .entry trivial
  rw [read] at hfault
  split at hfault
  · next session hrun =>
    rw [Program.ofDraft] at hfault
    split at hfault <;> cases hfault <;> trivial
  · next stop session hrun =>
    rw [hrun] at hends
    cases hfault
    exact hends.2

end

end Ubershader
