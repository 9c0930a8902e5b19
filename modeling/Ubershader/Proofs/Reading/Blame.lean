import Ubershader.Proofs.Reading.Course
import Ubershader.Provider.Catalog

/-!
# The lines that faults name

A fault of a directive names a line by its file, its number and its text, and a fault of nesting
names the line that includes one file too many. These lines are genuine: the provider has given a
text for the file, and the line stands in it under that number.

A fault may be found long after its line was read, because a block or struct that is never closed is
noticed at the end only. So it is also kept track of that everything that is open was opened on a
genuine line. `Walk.Honest` is the contract of walks that says both, and it needs to be told which
event of the journal has the text that is being read.
-/

namespace Ubershader

def Edit.site? : Edit → Option Location
  | openBlock _ _ _ site => some site
  | openStruct _ site => some site
  | _ => none

/-- An event shows a line if it is the answer of a provider that gives a text for the file of the
line, and the line stands in that text under its number. -/
def Event.Shows {κ : Type} (event : Event κ) (site : Location) : Prop :=
  ∃ depth text, event = .fetch site.file depth (.ok text) ∧ 0 < site.line ∧
    (Text.lines text)[site.line - 1]? = some site.text

def Location.IsShown {κ : Type} (journal : Array (Event κ)) (site : Location) : Prop :=
  ∃ event ∈ journal, event.Shows site

/-- The line that a fault names is shown in a journal, and is an include of the file that cannot be
included, if the fault is about one. -/
def Fault.IsGenuine {κ : Type} (journal : Array (Event κ)) : Fault → Prop
  | .directive site _ => site.IsShown journal
  | .tooDeep file includer line _ => ∃ text, Location.IsShown journal ⟨includer, line, text⟩ ∧
      Directive.ofLine text = .inclusion (some file)
  | .provider _ _ => True
  | .noTechniques _ => True

/-- What is open was opened on a line that the journal shows. -/
structure Session.Sited {σ κ : Type} (session : Session σ κ) : Prop where
  block : ∀ block, session.draft.openBlock = some block → block.site.IsShown session.journal
  struct : ∀ struct, session.draft.openStruct = some struct → struct.site.IsShown session.journal

theorem Location.IsShown.mono {κ : Type} {site : Location} {journal larger : Array (Event κ)}
    (hshown : site.IsShown journal) (hlarger : ∀ event ∈ journal, event ∈ larger) :
    site.IsShown larger := by
  obtain ⟨event, hevent, hshows⟩ := hshown
  exact ⟨event, hlarger event hevent, hshows⟩

/-! ## The sites of commands -/

namespace Command

/-- The edits of a meaning open things on a given line only. -/
def Meaning.StaysAt (meaning : Meaning) (site : Location) : Prop :=
  ∀ edits, meaning = .ok edits → ∀ edit ∈ edits, ∀ other, edit.site? = some other → other = site

section

variable {settings : Settings} {draft : Draft} {site : Location}

theorem staysAt_error (complaint : Complaint) : Meaning.StaysAt (.error complaint) site := by
  intro edits hmeaning
  cases hmeaning

/-- One edit on the line, and the lines of an expansion. -/
theorem staysAt_ok {edit : Edit} (hsite : ∀ other, edit.site? = some other → other = site)
    (texts : List String) :
    Meaning.StaysAt (.ok (edit :: texts.map fun text => .append (.expansion text))) site := by
  rintro _ ⟨⟩ later hlater other hother
  obtain rfl | hlater := List.mem_cons.mp hlater
  · exact hsite other hother
  · obtain ⟨text, -, rfl⟩ := List.mem_map.mp hlater
    cases hother

theorem staysAt_singleton {edit : Edit} (hsite : edit.site? = none) :
    Meaning.StaysAt (.ok [edit]) site :=
  staysAt_ok (by simp [hsite]) []

theorem staysAt_map {α : Type} (declaration : Except Complaint α) {toEdit : α → Edit}
    (hsite : ∀ a, (toEdit a).site? = none) :
    Meaning.StaysAt (declaration.map fun a => [toEdit a]) site := by
  cases declaration with
  | error complaint => exact staysAt_error complaint
  | ok a => exact staysAt_singleton (hsite a)

theorem staysAt_ite {condition : Prop} [Decidable condition] {first second : Meaning}
    (hfirst : first.StaysAt site) (hsecond : second.StaysAt site) :
    Meaning.StaysAt (if condition then first else second) site := by
  split
  · exact hfirst
  · exact hsecond

theorem staysAt_outsideStruct {meaning : Meaning} (hmeaning : meaning.StaysAt site) :
    (outsideStruct draft meaning).StaysAt site :=
  staysAt_ite (staysAt_error _) hmeaning

theorem staysAt_techniqueStart (args : List String) :
    (techniqueStart settings draft site args).StaysAt site := by
  rw [techniqueStart]
  split
  · exact staysAt_error _
  · split
    · exact staysAt_error _
    · refine staysAt_ite (staysAt_error _) (staysAt_ite (staysAt_error _) ?_)
      intro edits hmeaning
      obtain ⟨active, -, hopen⟩ := exists_of_bind_eq_ok hmeaning
      refine staysAt_ite (staysAt_error _) (staysAt_ite (staysAt_error _) ?_) edits hopen
      exact staysAt_ok (by simp [Edit.site?]) []

theorem staysAt_closeBlock (technique : String) (stage : Stage) :
    (closeBlock draft technique stage).StaysAt site := by
  rw [closeBlock]
  split
  · exact staysAt_error _
  · exact staysAt_ite (staysAt_singleton rfl) (staysAt_error _)

theorem staysAt_techniqueEnd (args : List String) : (techniqueEnd draft args).StaysAt site := by
  rw [techniqueEnd]
  repeat' split
  · exact staysAt_error _
  · exact staysAt_error _
  · exact staysAt_closeBlock _ _
  · exact staysAt_closeBlock _ _
  · exact staysAt_error _

theorem staysAt_library (args : List String) : (library draft args).StaysAt site := by
  rw [library]
  split
  · exact staysAt_ite (staysAt_error _) (staysAt_singleton rfl)
  · exact staysAt_error _

theorem staysAt_rayType (args : List String) : (rayType draft args).StaysAt site := by
  rw [rayType]
  split
  · split
    · exact staysAt_error _
    · exact staysAt_ite (staysAt_error _)
        (staysAt_ite (staysAt_error _) (staysAt_singleton rfl))
  · exact staysAt_error _

theorem staysAt_structStart (args : List String) : (structStart site args).StaysAt site := by
  rw [structStart]
  split
  · next name _ =>
    refine staysAt_ite ?_ (staysAt_error _)
    exact staysAt_ok (by simp [Edit.site?]) [PackedStruct.openingLine ⟨name, []⟩]
  · exact staysAt_error _

theorem staysAt_member (args : List String) : (member draft args).StaysAt site := by
  rw [member]
  split
  · exact staysAt_error _
  · split
    · rw [addMember]
      split
      · exact staysAt_error _
      · exact staysAt_ite (staysAt_error _)
          (staysAt_ite (staysAt_error _) (staysAt_ok (by simp [Edit.site?]) _))
    · exact staysAt_error _

theorem staysAt_structEnd (args : List String) : (structEnd draft args).StaysAt site := by
  rw [structEnd]
  split
  · exact staysAt_error _
  · exact staysAt_ite (staysAt_error _)
      (staysAt_ite (staysAt_error _) (staysAt_ok (by simp [Edit.site?]) _))

/-- A command opens things on its own line only. -/
theorem staysAt_meaning (args : List String) :
    (meaning settings draft site args).StaysAt site := by
  cases args with
  | nil => exact staysAt_error _
  | cons name args =>
    rw [meaning, named]
    refine staysAt_ite (staysAt_outsideStruct (staysAt_map _ fun _ => rfl)) ?_
    refine staysAt_ite (staysAt_outsideStruct (staysAt_techniqueStart args)) ?_
    refine staysAt_ite (staysAt_outsideStruct (staysAt_techniqueEnd args)) ?_
    refine staysAt_ite (staysAt_outsideStruct (staysAt_map _ fun _ => rfl)) ?_
    refine staysAt_ite (staysAt_outsideStruct (staysAt_map _ fun _ => rfl)) ?_
    refine staysAt_ite (staysAt_outsideStruct (staysAt_library args)) ?_
    refine staysAt_ite (staysAt_outsideStruct (staysAt_rayType args)) ?_
    refine staysAt_ite (staysAt_outsideStruct (staysAt_structStart args)) ?_
    refine staysAt_ite (staysAt_member args) ?_
    refine staysAt_ite (staysAt_structEnd args) ?_
    exact staysAt_ite (staysAt_ite (staysAt_error _) (staysAt_singleton rfl)) (staysAt_error _)

end

end Command

/-- What is open after an edit was open before on the same line, or is opened by the edit. -/
theorem Draft.site_apply (draft : Draft) (edit : Edit) :
    (∀ block, (draft.apply edit).openBlock = some block → edit.site? = some block.site ∨
      ∃ old, draft.openBlock = some old ∧ old.site = block.site) ∧
    ∀ struct, (draft.apply edit).openStruct = some struct → edit.site? = some struct.site ∨
      ∃ old, draft.openStruct = some old ∧ old.site = struct.site := by
  cases edit with
  | append line | guard line =>
    simp only [Draft.apply, Draft.modifyCurrent]
    split <;> simp_all
  | openBlock technique stage active site => simp +contextual [Draft.apply, Edit.site?]
  | closeBlock =>
    rw [Draft.apply]
    split <;> simp_all
  | openStruct name site => simp +contextual [Draft.apply, Edit.site?]
  | addMember member =>
    simp only [Draft.apply, Option.map_eq_some_iff]
    refine ⟨fun block hopen => .inr ⟨block, hopen, rfl⟩, ?_⟩
    rintro _ ⟨struct, hopen, rfl⟩
    exact .inr ⟨struct, hopen, rfl⟩
  | _ => simp +contextual [Draft.apply]

/-! ## The contract -/

/-- A journal that grows shows what it has shown. -/
theorem Session.Sited.push {σ κ : Type} {session : Session σ κ} (hsited : session.Sited) (world : σ)
    (event : Event κ) :
    Session.Sited { session with world := world, journal := session.journal.push event } where
  block block hopen := (hsited.block block hopen).mono (by simp +contextual)
  struct struct hopen := (hsited.struct struct hopen).mono (by simp +contextual)

/-- What an honest walk comes to that is started with a given journal: nothing is taken out of the
journal and everything is open on a line that it shows, or there is a genuine fault. -/
def Walk.EndsHonestly {σ κ α : Type} (journal : Array (Event κ)) :
    EStateM.Result Fault (Session σ κ) α → Prop
  | .ok _ last => last.Sited ∧ ∀ event ∈ journal, event ∈ last.journal
  | .error fault last => fault.IsGenuine last.journal

/-- A walk ends honestly if it is started while everything is open on a line that the journal shows
and while a given event, if there is one, stands in the journal. -/
def Walk.Honest {σ κ α : Type} (known : Option (Event κ)) (walk : Walk σ κ α) : Prop :=
  ∀ session : Session σ κ, session.Sited → (∀ event ∈ known, event ∈ session.journal) →
    Walk.EndsHonestly session.journal (walk.run session)

namespace Walk

variable {σ κ α β : Type} {settings : Settings} {provider : Provider σ κ}
  {known : Option (Event κ)}

theorem EndsHonestly.mono {journal smaller : Array (Event κ)}
    {result : EStateM.Result Fault (Session σ κ) α} (hends : EndsHonestly journal result)
    (hsmaller : ∀ event ∈ smaller, event ∈ journal) : EndsHonestly smaller result := by
  cases result with
  | ok a last => exact ⟨hends.1, fun event hevent => hends.2 event (hsmaller event hevent)⟩
  | error fault last => exact hends

theorem honest_pure (a : α) : Honest known (pure a : Walk σ κ α) :=
  fun _ hsited _ => ⟨hsited, fun _ hevent => hevent⟩

theorem honest_get : Honest known (get : Walk σ κ (Session σ κ)) :=
  fun _ hsited _ => ⟨hsited, fun _ hevent => hevent⟩

/-- A fault about a line that the known event shows is genuine. -/
theorem honest_throw {event : Event κ} {site : Location} (hshows : event.Shows site)
    (complaint : Complaint) :
    Honest (some event) (throw (.directive site complaint) : Walk σ κ α) :=
  fun _ _ hknown => ⟨event, hknown event rfl, hshows⟩

theorem honest_bind {first : Walk σ κ α} {next : α → Walk σ κ β} (hfirst : Honest known first)
    (hnext : ∀ a, Honest known (next a)) : Honest known (first >>= next) := by
  intro session hsited hknown
  have hfront := hfirst session hsited hknown
  rw [EStateM.run_bind]
  cases hrun : first.run session with
  | error fault last =>
    rw [hrun] at hfront
    exact hfront
  | ok a middle =>
    rw [hrun] at hfront
    have hback := hnext a middle hfront.1 fun event hevent => hfront.2 event (hknown event hevent)
    exact hback.mono hfront.2

theorem honest_record (event : Event κ) : Honest known (record event : Walk σ κ Unit) :=
  fun session hsited _ => ⟨hsited.push session.world event, by simp +contextual⟩

theorem honest_perform {edit : Edit} (hsite : ∀ site, edit.site? = some site →
    ∃ event ∈ known, event.Shows site) : Honest known (perform edit : Walk σ κ Unit) := by
  intro session hsited hknown
  have hgrows : ∀ other ∈ session.journal, other ∈ session.journal.push (.edit edit) := by
    simp +contextual
  have hnew : ∀ site, edit.site? = some site → site.IsShown session.journal := by
    intro site hopens
    obtain ⟨event, hevent, hshows⟩ := hsite site hopens
    exact ⟨event, hknown event hevent, hshows⟩
  obtain ⟨hblock, hstruct⟩ := session.draft.site_apply edit
  refine ⟨⟨?_, ?_⟩, hgrows⟩
  · intro block hopen
    refine Location.IsShown.mono ?_ hgrows
    obtain hopens | ⟨old, hold, hsame⟩ := hblock block hopen
    · exact hnew _ hopens
    · exact hsame ▸ hsited.block old hold
  · intro struct hopen
    refine Location.IsShown.mono ?_ hgrows
    obtain hopens | ⟨old, hold, hsame⟩ := hstruct struct hopen
    · exact hnew _ hopens
    · exact hsame ▸ hsited.struct old hold

theorem honest_performAll {edits : List Edit} (hsites : ∀ edit ∈ edits, ∀ site,
    edit.site? = some site → ∃ event ∈ known, event.Shows site) :
    Honest known (performAll edits : Walk σ κ Unit) := by
  induction edits with
  | nil => exact honest_pure ()
  | cons edit edits ih =>
    obtain ⟨hedit, hedits⟩ := List.forall_mem_cons.mp hsites
    exact honest_bind (honest_perform hedit) fun _ => ih hedits

theorem honest_append (line : Line) : Honest known (perform (.append line) : Walk σ κ Unit) :=
  honest_perform (by simp [Edit.site?])

theorem honest_mark (number : Nat) (file : String) :
    Honest known (mark settings number file : Walk σ κ Unit) := by
  rw [mark]
  split
  · exact honest_append _
  · exact honest_pure ()

/-- A refusal of the provider names no line, and any other answer is known from then on. -/
theorem honest_ask_bind {path : String} {question : σ → Except String α × σ}
    {event : Except String α → Event κ} {next : α → Walk σ κ β}
    (hnext : ∀ a, Honest (some (event (.ok a))) (next a)) :
    Honest known (ask path question event >>= next) := by
  intro session hsited _
  rw [EStateM.run_bind]
  simp only [ask, EStateM.run]
  rcases question session.world with ⟨cause | a, world⟩
  · trivial
  · have hback := hnext a _ (hsited.push world (event (.ok a))) (by simp)
    exact hback.mono (by simp +contextual)

theorem honest_runOnce {event : Event κ} {site : Location} (hshows : event.Shows site)
    (file : String) (seen alone : Bool) :
    Honest (some event) (runOnce file site seen alone : Walk σ κ Unit) := by
  rw [runOnce]
  split
  · exact honest_throw hshows _
  · split
    · exact honest_throw hshows _
    · exact honest_performAll (by simp [Edit.site?])

theorem honest_carryOut {event : Event κ} {site : Location} (hshows : event.Shows site)
    (args : List String) : Honest (some event) (carryOut settings site args : Walk σ κ Unit) := by
  refine honest_bind honest_get fun session => ?_
  split
  · next edits hmeaning =>
    refine honest_performAll fun edit hedit other hother => ⟨event, rfl, ?_⟩
    rw [Command.staysAt_meaning args edits hmeaning edit hedit other hother]
    exact hshows
  · exact honest_throw hshows _

theorem honest_runCommand {event : Event κ} {site : Location} (hshows : event.Shows site)
    (args : List String) :
    Honest (some event) (runCommand settings site args : Walk σ κ Unit) := by
  cases args with
  | nil =>
    rw [runCommand]
    exact honest_carryOut hshows []
  | cons name args =>
    exact honest_bind (honest_record _) fun _ => honest_carryOut hshows (name :: args)

/-- Included files are read honestly from every line that includes them. -/
def Visitor.Honest (visit : Visitor σ κ) : Prop :=
  ∀ (event : Event κ) (site : Location) (path : String) (context : κ), event.Shows site →
    Directive.ofLine site.text = .inclusion (some path) →
      Walk.Honest (some event) (visit site path context)

theorem honest_readLine {visit : Visitor σ κ} (hvisit : Visitor.Honest visit) {event : Event κ}
    {site : Location} (hshows : event.Shows site) (file : Target κ) (once : Bool) :
    Honest (some event) (readLine settings visit file once site) := by
  unfold readLine obey
  split
  · exact honest_bind (honest_append _) fun _ => honest_pure _
  · exact honest_throw hshows _
  · next path hline =>
    exact honest_bind (hvisit event site path file.context hshows hline) fun _ =>
      honest_bind (honest_mark _ _) fun _ => honest_pure _
  · exact honest_bind (honest_runOnce hshows _ _ _) fun _ =>
      honest_bind (honest_mark _ _) fun _ => honest_pure _
  · exact honest_bind (honest_runCommand hshows _) fun _ =>
      honest_bind (honest_mark _ _) fun _ => honest_pure _

/-- The lines of a text are read in order, so each is shown under the number that is counted. -/
theorem honest_readLines {visit : Visitor σ κ} (hvisit : Visitor.Honest visit) (file : Target κ)
    (depth : Nat) (text : String) {lines : List String} (front : List String) (once : Bool)
    (hlines : Text.lines text = front ++ lines) :
    Honest (some (.fetch file.path depth (.ok text)))
      (readLines settings visit file (front.length + 1) once lines) := by
  induction lines generalizing front once with
  | nil => exact honest_pure once
  | cons line lines ih =>
    have hshows : (Event.fetch file.path depth (.ok text) : Event κ).Shows
        ⟨file.path, front.length + 1, line⟩ := by
      refine ⟨depth, text, rfl, Nat.succ_pos _, ?_⟩
      simp [hlines]
    refine honest_bind (honest_readLine hvisit hshows file once) fun next => ?_
    simpa using ih (front ++ [line]) next (by simp [hlines])

theorem honest_readFile {visit : Visitor σ κ} (hvisit : Visitor.Honest visit) (file : Target κ)
    (depth : Nat) (text : String) :
    Honest (some (.fetch file.path depth (.ok text))) (readFile settings visit file text) := by
  refine honest_bind (honest_mark _ _) fun _ =>
    honest_bind (honest_readLines hvisit file depth text [] false rfl) fun once => ?_
  cases once with
  | true => exact honest_append _
  | false => exact honest_pure ()

/-- A visit that has room for its file does not look at the line that it comes from. -/
theorem honest_visit_succ {room : Nat}
    (hvisit : Visitor.Honest (visit settings provider room : Visitor σ κ)) (site : Location)
    (path : String) (context : κ) :
    Honest known (visit settings provider (room + 1) site path context) := by
  refine honest_ask_bind fun file => honest_bind honest_get fun session => ?_
  split
  · exact honest_record _
  · exact honest_ask_bind fun text => honest_readFile hvisit file _ text

theorem honest_visit (room : Nat) :
    Visitor.Honest (visit settings provider room : Visitor σ κ) := by
  induction room with
  | zero =>
    intro event site path context hshows hline session _ hknown
    exact ⟨site.text, ⟨event, hknown event rfl, hshows⟩, hline⟩
  | succ room ih => exact fun event site path context _ _ => honest_visit_succ ih site path context

end Walk

/-- A program that cannot be made from a draft names the line on which something was left open. -/
theorem Session.Sited.isGenuine_of_ofDraft {σ κ : Type} {session : Session σ κ}
    (hsited : session.Sited) {settings : Settings} {entry : String} {fault : Fault}
    (hfault : Program.ofDraft settings entry session.draft = .error fault) :
    fault.IsGenuine session.journal := by
  rw [Program.ofDraft] at hfault
  split at hfault
  · next hopen =>
    cases hfault
    exact hsited.block _ hopen
  · cases hfault
    trivial
  · next hopen _ =>
    cases hfault
    exact hsited.struct _ hopen
  · cases hfault

section

variable {σ κ : Type} {settings : Settings} {provider : Provider σ κ} {entry : String}
  {context : κ} {world : σ}

/-- Faults name genuine lines. If a program cannot be read because of a directive, also of one that
opens something which is never closed, then the provider was asked for the file that the fault
names and has given a text in which the named line has the named number and the named text. If
files are nested too deeply, the named line is such a line too, and includes the named file. -/
theorem isGenuine_of_read {fault : Fault}
    (hfault : (read settings provider entry context world).outcome = .error fault) :
    fault.IsGenuine (read settings provider entry context world).session.journal := by
  have hwalk : Walk.Honest none (Walk.visit settings provider
      (settings.maxIncludeDepth.toNat + 1) ⟨entry, 0, ""⟩ entry context) :=
    Walk.honest_visit_succ (Walk.honest_visit _) _ _ _
  have hend := hwalk { world := world } ⟨by simp, by simp⟩ (by simp)
  rw [read] at hfault ⊢
  split at hfault
  · next session hrun =>
    rw [hrun] at hend
    exact hend.1.isGenuine_of_ofDraft hfault
  · next stop session hrun =>
    rw [hrun] at hend
    cases hfault
    exact hend

end

/-- A block that is opened in an included file and never closed. -/
def unclosedBlock : Catalog where
  files :=
    [("main", "#include \"lib\"\nint m;\n"),
     ("lib", "int l;\r\n#pragma anki technique_start vert\r\n")]

/-- A file that includes itself. -/
def endlessFile : Catalog where
  files := [("main", "int m;\n# include <main> // again\n")]

theorem isGenuine_unclosedBlock_and_endlessFile :
    (∃ site, (read {} unclosedBlock.provider "main" "" ()).outcome =
        .error (.directive site (.block .neverClosed)) ∧
      site = ⟨"lib", 2, "#pragma anki technique_start vert"⟩ ∧
      site.IsShown (read {} unclosedBlock.provider "main" "" ()).session.journal) ∧
    (read {} endlessFile.provider "main" "" ()).outcome = .error (.tooDeep "main" "main" 2 9) ∧
      ∃ text, Directive.ofLine text = .inclusion (some "main") ∧
        Location.IsShown (read {} endlessFile.provider "main" "" ()).session.journal
          ⟨"main", 2, text⟩ := by
  have hunclosed : (read {} unclosedBlock.provider "main" "" ()).outcome = .error
      (.directive ⟨"lib", 2, "#pragma anki technique_start vert"⟩ (.block .neverClosed)) := by
    decide +kernel
  have hendless : (read {} endlessFile.provider "main" "" ()).outcome =
      .error (.tooDeep "main" "main" 2 9) := by
    decide +kernel
  obtain ⟨text, hshown, hline⟩ := isGenuine_of_read hendless
  exact ⟨⟨_, hunclosed, rfl, isGenuine_of_read hunclosed⟩, hendless, text, hline, hshown⟩

end Ubershader
