import Mathlib.Logic.Relation
import Ubershader.Proofs.Reading.Substitution
import Ubershader.Proofs.Reading.Visits

/-!
# How deep files are nested

The limit on nesting is exact: a text is asked for at a depth up to the limit and never beyond, and
a reading that fails because of nesting fails at the depth after the limit. A depth is not just a
number in the journal here, it is the number of includes that lead from the entry file to the file
that is asked for (`NestedAt`).

The limit stops every circle of files that include each other, unless one of them asks to be
included once only. The argument follows such a circle: no file of it is ever left out, so each
visit of one leads to a visit of the next one with less room, and in the end there is none.
-/

namespace Ubershader

/-! ## Files that include files -/

section

variable {κ : Type} (resolve : String → κ → Except String (Target κ))
  (fetch : String → Except String String)

def Includes (file inner : Target κ) : Prop :=
  ∃ text line path, fetch file.path = .ok text ∧ line ∈ Text.lines text ∧
    Directive.ofLine line = .inclusion (some path) ∧ resolve path file.context = .ok inner

def AsksOnce (path : String) : Prop :=
  ∃ text line, fetch path = .ok text ∧ line ∈ Text.lines text ∧ Directive.ofLine line = .once true

def IncludesFreely (file inner : Target κ) : Prop :=
  ¬ AsksOnce fetch file.path ∧ Includes resolve fetch file inner

/-- A file is nested in a first one at a depth. -/
inductive NestedAt (first : Target κ) : Nat → Target κ → Prop
  | first : NestedAt first 0 first
  | inner {depth : Nat} {outer file : Target κ} (nested : NestedAt first depth outer)
      (includes : Includes resolve fetch outer file) : NestedAt first (depth + 1) file

end

/-- The event at a position of a journal finds a file, and the next one asks for its text at a
depth. -/
def Event.Fetches {κ : Type} (journal : Array (Event κ)) (position : Nat) (file : Target κ)
    (depth : Nat) : Prop :=
  (∃ written place, journal[position]? = some (.resolve written place (.ok file))) ∧
    ∃ answer, journal[position + 1]? = some (.fetch file.path depth answer)

/-- What a limit on nesting means for a reading. Depth is counted in includes and not in the files
that are open, so it can be said without the walk. -/
structure Report.NestsWithin {σ κ : Type} (report : Report σ κ) (limit : Nat)
    (resolve : String → κ → Except String (Target κ)) (fetch : String → Except String String)
    (entry : String) (context : κ) : Prop where
  /-- A text is asked for right after its file was found. -/
  found : ∀ position path depth answer,
    report.session.journal[position]? = some (.fetch path depth answer) →
      ∃ earlier file, position = earlier + 1 ∧ file.path = path ∧
        Event.Fetches report.session.journal earlier file depth
  /-- The depth is the number of includes that lead to the file, and is within the limit. -/
  nested : ∀ position file depth, Event.Fetches report.session.journal position file depth →
    depth ≤ limit ∧ ∃ first, resolve entry context = .ok first ∧
      NestedAt resolve fetch first depth file
  /-- A reading fails because of nesting at a line that includes something, in a file that is
  nested as deeply as the limit allows. -/
  tooDeep : ∀ file includer line depth,
    report.outcome = .error (.tooDeep file includer line depth) →
      depth = limit + 1 ∧ ∃ first outer text written, resolve entry context = .ok first ∧
        NestedAt resolve fetch first limit outer ∧ outer.path = includer ∧
        fetch includer = .ok text ∧ 0 < line ∧ (Text.lines text)[line - 1]? = some written ∧
        Directive.ofLine written = .inclusion (some file)
  /-- A reading that gives a program has met no circle of files without one that asks to be
  included once only. -/
  acyclic : ∀ program, report.outcome = .ok program → ∀ position file depth,
    Event.Fetches report.session.journal position file depth →
      ¬ Relation.TransGen (IncludesFreely resolve fetch) file file

section

variable {σ κ : Type} {settings : Settings} {provider : Provider σ κ} {entry : String}
  {context : κ} {world : σ}

/-! ## Every text is fetched in a visit -/

/-- Each text that was asked for belongs to a visit of the reading, and was asked for right after
the path that is visited was resolved. -/
def Session.FetchesInVisits (settings : Settings) (provider : Provider σ κ) (entry : String)
    (context : κ) (world : σ) (session : Session σ κ) : Prop :=
  ∀ position path depth answer, session.journal[position]? = some (.fetch path depth answer) →
    ∃ room site written place start target,
      Visited settings provider entry context world (room + 1) site written place start ∧
      (provider.resolve written place start.world).1 = .ok target ∧ target.path = path ∧
      depth = settings.maxIncludeDepth.toNat - room ∧ position = start.journal.size + 1 ∧
      session.journal[start.journal.size]? = some (.resolve written place (.ok target))

namespace Session.FetchesInVisits

variable {session later : Session σ κ}

/-- Events of other kinds change nothing. -/
theorem of_append (hfetches : session.FetchesInVisits settings provider entry context world)
    {events : Array (Event κ)} (hjournal : later.journal = session.journal ++ events)
    (hother : ∀ path depth answer, .fetch path depth answer ∉ events) :
    later.FetchesInVisits settings provider entry context world := by
  intro position path depth answer hevent
  rw [hjournal, Array.getElem?_append] at hevent
  split at hevent
  · next hlt =>
    obtain ⟨room, site, written, place, start, target, visited, hresolve, hpath, hdepth, rfl,
      hresolved⟩ := hfetches position path depth answer hevent
    refine ⟨room, site, written, place, start, target, visited, hresolve, hpath, hdepth, rfl, ?_⟩
    rw [hjournal, Array.getElem?_append_left (by omega)]
    exact hresolved
  · exact absurd (Array.mem_of_getElem? hevent) (hother path depth answer)

theorem performAll (hfetches : session.FetchesInVisits settings provider entry context world)
    (edits : List Edit) : ((Walk.performAll edits).endSession session).FetchesInVisits settings
      provider entry context world :=
  hfetches.of_append (congrArg Session.journal (Walk.endSession_performAll edits session)) (by simp)

theorem of_push (hfetches : session.FetchesInVisits settings provider entry context world)
    {event : Event κ} (hjournal : later.journal = session.journal.push event)
    (hother : ∀ path depth answer, .fetch path depth answer ≠ event) :
    later.FetchesInVisits settings provider entry context world :=
  hfetches.of_append (hjournal.trans Array.push_eq_append) (by simpa using hother)

/-- The event before the one that asks for a text is the one that has found the file. -/
theorem fetch {room : Nat} {site : Location} {path : String} {place : κ} {target : Target κ}
    {resolved : Session σ κ}
    (visited : Visited settings provider entry context world (room + 1) site path place session)
    (hresolve : (Walk.resolve provider path place).run session = .ok target resolved)
    (hfetches : resolved.FetchesInVisits settings provider entry context world) :
    ((Walk.fetch provider target.path (settings.maxIncludeDepth.toNat - room)).endSession
      resolved).FetchesInVisits settings provider entry context world := by
  obtain ⟨hanswer, -⟩ := Walk.of_run_ask hresolve
  have hjournal : resolved.journal = session.journal.push (.resolve path place (.ok target)) := by
    rw [← Walk.endSession_of_run hresolve, Walk.resolve, Walk.endSession_ask, hanswer]
  intro position asked depth answer hevent
  rw [Walk.fetch, Walk.endSession_ask] at hevent ⊢
  dsimp only at hevent ⊢
  rw [Array.getElem?_push] at hevent
  split at hevent
  · next hlast =>
    simp only [Option.some.injEq, Event.fetch.injEq] at hevent
    obtain ⟨hpath, hdepth, -⟩ := hevent
    refine ⟨room, site, path, place, session, target, visited, hanswer, hpath, hdepth.symm, ?_, ?_⟩
    · rw [hlast, hjournal, Array.size_push]
    · rw [hjournal, Array.getElem?_push_lt (by simp)]
      simp
  · obtain ⟨room, site, written, place, start, file, earlier, hfound, hpath, hdepth, rfl,
      hbefore⟩ := hfetches position asked depth answer hevent
    refine ⟨room, site, written, place, start, file, earlier, hfound, hpath, hdepth, rfl, ?_⟩
    obtain ⟨hlt, -⟩ := Array.getElem?_eq_some_iff.mp hevent
    rw [Array.getElem?_push, if_neg (by omega)]
    exact hbefore

end Session.FetchesInVisits

theorem readingInvariant_fetchesInVisits (settings : Settings) (provider : Provider σ κ)
    (entry : String) (context : κ) (world : σ) :
    ReadingInvariant settings provider entry context world
      (Session.FetchesInVisits settings provider entry context world) where
  start := by
    intro position path depth answer hevent
    simp at hevent
  resolve hfetches :=
    hfetches.of_push (congrArg Session.journal (Walk.endSession_ask ..)) (by simp)
  fetch visited hresolve _ hfetches := .fetch visited hresolve hfetches
  record hcall _ hfetches := hfetches.of_push rfl (by rintro path depth answer rfl; cases hcall)
  append hfetches := hfetches.of_push rfl (by simp)
  guard _ _ hfetches := hfetches.performAll _
  command _ _ _ hfetches := hfetches.performAll _

/-! ## The depth of a visit -/

variable {resolve : String → κ → Except String (Target κ)}
  {fetch : String → Except String String} {room : Nat} {site : Location} {path : String} {place : κ}
  {session : Session σ κ}

/-- What a file that is visited includes is nested one deeper, and there is room for one less. -/
theorem Visited.nestedAt (hfollows : provider.Follows resolve fetch)
    (visited : Visited settings provider entry context world room site path place session)
    {target : Target κ} (htarget : resolve path place = .ok target) :
    room ≤ settings.maxIncludeDepth.toNat + 1 ∧ ∃ first, resolve entry context = .ok first ∧
      NestedAt resolve fetch first (settings.maxIncludeDepth.toNat + 1 - room) target := by
  induction visited generalizing target with
  | entry =>
    refine ⟨Nat.le_refl _, target, htarget, ?_⟩
    rw [Nat.sub_self]
    exact .first
  | @inner room _ _ _ _ _ _ _ outer text line inner _ _ _ _ hresolve _ hfetch hlines _ hline ih =>
    obtain ⟨houter, -⟩ := Walk.of_run_ask hresolve
    obtain ⟨htext, -⟩ := Walk.of_run_ask hfetch
    obtain ⟨hroom, first, hfirst, hnested⟩ := ih ((hfollows.resolve _ _ _).symm.trans houter)
    have hincludes : Includes resolve fetch outer target :=
      ⟨text, line, inner, (hfollows.fetch _ _).symm.trans htext, by simp [hlines], hline, htarget⟩
    have hdepth : settings.maxIncludeDepth.toNat + 1 - room =
        settings.maxIncludeDepth.toNat + 1 - (room + 1) + 1 := by omega
    refine ⟨by omega, first, hfirst, ?_⟩
    rw [hdepth]
    exact hnested.inner hincludes

/-- A visit without room comes from a line of a file that is nested as deeply as allowed. -/
theorem Visited.exists_outer (hfollows : provider.Follows resolve fetch)
    (visited : Visited settings provider entry context world 0 site path place session) :
    ∃ first outer text, resolve entry context = .ok first ∧
      NestedAt resolve fetch first settings.maxIncludeDepth.toNat outer ∧ outer.path = site.file ∧
      fetch site.file = .ok text ∧ 0 < site.line ∧
      (Text.lines text)[site.line - 1]? = some site.text ∧
      Directive.ofLine site.text = .inclusion (some path) := by
  cases visited with
  | inner outer hresolve _ hfetch hlines _ hline =>
    obtain ⟨houter, -⟩ := Walk.of_run_ask hresolve
    obtain ⟨htext, -⟩ := Walk.of_run_ask hfetch
    obtain ⟨-, first, hfirst, hnested⟩ :=
      outer.nestedAt hfollows ((hfollows.resolve _ _ _).symm.trans houter)
    refine ⟨first, _, _, hfirst, hnested, rfl, (hfollows.fetch _ _).symm.trans htext, ?_, ?_, hline⟩
    · show 0 < 1 + _
      omega
    · simp [hlines]

/-! ## Circles -/

/-- The answers in a journal are those of the provider, and whatever is noted in a buffer has
asked to be included once only. -/
structure Session.NotesAskers (resolve : String → κ → Except String (Target κ))
    (fetch : String → Except String String) (session : Session σ κ) : Prop where
  answers : ∀ event ∈ session.journal, event.IsAnswer resolve fetch
  buffers : session.draft.Holds fun buffer => ∀ path ∈ buffer.once, AsksOnce fetch path

theorem Location.IsShown.asksOnce {journal : Array (Event κ)} (hshown : site.IsShown journal)
    (hanswers : ∀ event ∈ journal, event.IsAnswer resolve fetch)
    (hline : Directive.ofLine site.text = .once true) : AsksOnce fetch site.file := by
  obtain ⟨_, hevent, depth, text, rfl, -, htext⟩ := hshown
  exact ⟨text, site.text, (hanswers _ hevent).symm, List.mem_of_getElem? htext, hline⟩

theorem readingInvariant_notesAskers (settings : Settings) (entry : String) (context : κ)
    (world : σ) (hfollows : provider.Follows resolve fetch) :
    ReadingInvariant settings provider entry context world
      (Session.NotesAskers resolve fetch) where
  start := ⟨by simp, .empty (by simp)⟩
  resolve {path place session} hnotes :=
    ⟨(stepRelation_isAnswer settings hfollows).resolve path place session hnotes.answers,
      by simpa [Walk.resolve] using hnotes.buffers⟩
  fetch {room _ _ _ target _ resolved} _ _ _ hnotes :=
    ⟨(stepRelation_isAnswer settings hfollows).fetch target.path _ resolved hnotes.answers,
      by simpa [Walk.fetch] using hnotes.buffers⟩
  record {event session} hcall hedit hnotes :=
    ⟨(stepRelation_isAnswer settings hfollows).record event hcall hedit session hnotes.answers,
      hnotes.buffers⟩
  append {line session} hnotes :=
    ⟨(stepRelation_isAnswer settings hfollows).append line session hnotes.answers,
      hnotes.buffers.append hnotes.buffers.current⟩
  guard {site session} hshown hline hnotes := by
    refine ⟨(stepRelation_isAnswer settings hfollows).guard site.file session hnotes.answers, ?_⟩
    rw [Walk.endSession_performAll, Draft.applyAll_guardOpening]
    refine hnotes.buffers.modifyCurrent _ fun path hpath => ?_
    obtain rfl | hnoted := List.mem_cons.mp hpath
    · exact hshown.asksOnce hnotes.answers hline
    · exact hnotes.buffers.current path hnoted
  command {site args edits session} _ hline hmeaning hnotes := by
    refine ⟨(stepRelation_isAnswer settings hfollows).command session site args edits hline hmeaning
      hnotes.answers, ?_⟩
    rw [Walk.endSession_performAll]
    exact hnotes.buffers.applyAll (fun _ _ _ hbuffer => hbuffer)
      (Command.guard_notMem_of_meaning hmeaning)

/-- In a reading that gives a program, no file is visited that is part of a circle without a file
that asks to be included once only. -/
theorem Visited.not_transGen (hfollows : provider.Follows resolve fetch) {program : Program}
    (hread : (read settings provider entry context world).outcome = .ok program)
    (visited : Visited settings provider entry context world room site path place session)
    {file : Target κ} (hfile : resolve path place = .ok file) :
    ¬ Relation.TransGen (IncludesFreely resolve fetch) file file := by
  induction room generalizing site path place session file with
  | zero =>
    obtain ⟨_, hrun⟩ := visited.exists_run hread
    cases hrun
  | succ room ih =>
    intro hcircle
    obtain ⟨next, ⟨hasks, text, line, written, htext, hline, hincludes, hnext⟩, hback⟩ :=
      Relation.TransGen.head'_iff.mp hcircle
    obtain ⟨_, hrun⟩ := visited.exists_run hread
    obtain ⟨target, htarget, hvisit⟩ := visited.exists_reached hrun
    obtain rfl : target = file :=
      Except.ok.inj (htarget.symm.trans ((hfollows.resolve _ _ _).trans hfile))
    obtain hheld | ⟨found, hgives, hreached⟩ := hvisit
    · -- What is left out is noted, and what is noted has asked.
      have hnotes :=
        (readingInvariant_notesAskers settings entry context world hfollows).visited visited
      exact hasks (hnotes.buffers.current _ (Buffer.holdsOnce_iff.mp hheld))
    · obtain rfl : found = text :=
        Except.ok.inj (hgives.fetch.symm.trans ((hfollows.fetch _ _).trans htext))
      obtain ⟨front, back, hlines⟩ := List.append_of_mem hline
      obtain ⟨once, reached, hplace⟩ := hreached front (line :: back) hlines
      have hstep : IncludesFreely resolve fetch target next :=
        ⟨hasks, found, line, written, htext, hline, hincludes, hnext⟩
      exact ih (hplace.visited hincludes) hnext (.tail' hback hstep)

/-! ## The main result -/

/-- A file that is fetched was visited at that depth. -/
theorem exists_visited_of_fetches {position depth : Nat} {file : Target κ}
    (hfetches : Event.Fetches (read settings provider entry context world).session.journal position
      file depth) :
    ∃ room site path place session,
      Visited settings provider entry context world (room + 1) site path place session ∧
      (provider.resolve path place session.world).1 = .ok file ∧
      depth = settings.maxIncludeDepth.toNat - room := by
  obtain ⟨⟨written, place, hresolved⟩, answer, hfetched⟩ := hfetches
  obtain ⟨room, site, path, context, session, target, visited, htarget, -, hdepth, hposition,
    hbefore⟩ :=
      (readingInvariant_fetchesInVisits settings provider entry context world).read _ _ _ _ hfetched
  obtain rfl : position = session.journal.size := Nat.succ.inj hposition
  obtain ⟨-, -, rfl⟩ : path = written ∧ context = place ∧ target = file := by
    simpa using hbefore.symm.trans hresolved
  exact ⟨room, site, path, context, session, visited, htarget, hdepth⟩

/-- The limit on nesting is exact, and it stops every circle of files in which no file asks to be
included once only. The provider answers the same question always in the same way, and nothing else
is assumed about it, nor about what the files contain. -/
theorem nestsWithin_of_read (settings : Settings) (entry : String) (context : κ) (world : σ)
    (hfollows : provider.Follows resolve fetch) :
    (read settings provider entry context world).NestsWithin settings.maxIncludeDepth.toNat resolve
      fetch entry context where
  found := by
    intro position path depth answer hevent
    obtain ⟨room, site, written, place, session, target, -, -, rfl, -, rfl, hbefore⟩ :=
      (readingInvariant_fetchesInVisits settings provider entry context world).read _ _ _ _ hevent
    exact ⟨session.journal.size, target, rfl, rfl, ⟨written, place, hbefore⟩, answer, hevent⟩
  nested := by
    intro position file depth hfetches
    obtain ⟨room, site, path, place, session, visited, hfile, rfl⟩ :=
      exists_visited_of_fetches hfetches
    obtain ⟨-, first, hfirst, hnested⟩ :=
      visited.nestedAt hfollows ((hfollows.resolve _ _ _).symm.trans hfile)
    rw [Nat.add_sub_add_right] at hnested
    exact ⟨Nat.sub_le _ _, first, hfirst, hnested⟩
  tooDeep := by
    intro file includer line depth hfault
    obtain ⟨hdepth, written, place, session, visited⟩ := isMet_of_read hfault
    obtain ⟨first, outer, text, hfirst, hnested, hpath, htext, hline, hwritten, hincludes⟩ :=
      visited.exists_outer hfollows
    exact ⟨hdepth, first, outer, text, written, hfirst, hnested, hpath, htext, hline, hwritten,
      hincludes⟩
  acyclic := by
    intro program hread position file depth hfetches
    obtain ⟨room, site, path, place, session, visited, hfile, -⟩ :=
      exists_visited_of_fetches hfetches
    exact visited.not_transGen hfollows hread ((hfollows.resolve _ _ _).symm.trans hfile)

end

/-- Two files that include each other, of which one asks to be included once only. -/
def guardedCircle : Catalog where
  files :=
    [("main", "#include \"part\"\n"),
     ("part", "#pragma once\n#pragma anki technique_start vert\n" ++
       "#pragma anki technique_end vert\n#include \"main\"\n")]

theorem nestsWithin_guardedCircle_and_endlessFile :
    (∃ program, (read {} guardedCircle.provider "main" "" ()).outcome = .ok program ∧
      (read {} guardedCircle.provider "main" "" ()).calls =
        [.resolve "main" "", .fetch "main", .resolve "part" "", .fetch "part", .resolve "main" "",
          .fetch "main", .resolve "part" ""] ∧
      ∀ position file depth, Event.Fetches
        (read {} guardedCircle.provider "main" "" ()).session.journal position file depth →
          depth ≤ 8 ∧ ¬ Relation.TransGen
            (IncludesFreely guardedCircle.resolve guardedCircle.fetch) file file) ∧
    (read {} endlessFile.provider "main" "" ()).outcome = .error (.tooDeep "main" "main" 2 9) ∧
      ∃ first outer, endlessFile.resolve "main" "" = .ok first ∧
        NestedAt endlessFile.resolve endlessFile.fetch first 8 outer ∧ outer.path = "main" := by
  have hcheck : (read {} guardedCircle.provider "main" "" ()).outcome.toOption.isSome = true := by
    decide +kernel
  obtain ⟨program, hprogram⟩ := Option.isSome_iff_exists.mp hcheck
  have hread := eq_ok_of_toOption hprogram
  have hendless : (read {} endlessFile.provider "main" "" ()).outcome =
      .error (.tooDeep "main" "main" 2 9) := by
    decide +kernel
  have hcircle : guardedCircle.provider.Follows guardedCircle.resolve guardedCircle.fetch :=
    ⟨fun _ _ _ => rfl, fun _ _ => rfl⟩
  have hfile : endlessFile.provider.Follows endlessFile.resolve endlessFile.fetch :=
    ⟨fun _ _ _ => rfl, fun _ _ => rfl⟩
  have hwithin := nestsWithin_of_read {} "main" "" () hcircle
  obtain ⟨-, first, outer, _, _, hfirst, hnested, hpath, -⟩ :=
    (nestsWithin_of_read {} "main" "" () hfile).tooDeep _ _ _ _ hendless
  refine ⟨⟨program, hread, by decide +kernel, fun position file depth hfetches => ?_⟩, hendless,
    first, outer, hfirst, hnested, hpath⟩
  exact ⟨(hwithin.nested position file depth hfetches).1,
    hwithin.acyclic program hread position file depth hfetches⟩

end Ubershader
