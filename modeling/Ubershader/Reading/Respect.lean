import Ubershader.Reading.Walk

/-!
# What every walk respects

A walk is made of a few kinds of steps: a question to the provider, an entry of the journal, a
line that is appended, the opening of an include guard, the edits that a command means, and a
fault, which changes nothing. So a relation between sessions that is reflexive and transitive and
holds across such steps holds between the sessions at the two ends of every walk, also of one that
ends in a fault. `respects_visit` says this once and for all, and an invariant of reading needs to
be checked for single steps only.
-/

namespace Ubershader

/-- The session at the end of a walk, with or without a fault. -/
def Walk.endSession {σ κ α : Type} (walk : Walk σ κ α) (session : Session σ κ) : Session σ κ :=
  match walk.run session with
  | .ok _ last => last
  | .error _ last => last

@[simp] theorem Walk.endSession_record {σ κ : Type} (event : Event κ) (session : Session σ κ) :
    (Walk.record event).endSession session =
      { session with journal := session.journal.push event } := rfl

@[simp] theorem Walk.endSession_performAll {σ κ : Type} (edits : List Edit)
    (session : Session σ κ) :
    (Walk.performAll edits).endSession session =
      { session with
        draft := session.draft.applyAll edits
        journal := session.journal ++ (edits.map Event.edit).toArray } := by
  rw [Walk.endSession, Walk.run_performAll]

@[simp] theorem Walk.endSession_ask {σ κ α : Type} (path : String)
    (question : σ → Except String α × σ) (event : Except String α → Event κ)
    (session : Session σ κ) :
    (Walk.ask path question event).endSession session =
      { session with
        world := (question session.world).2
        journal := session.journal.push (event (question session.world).1) } := by
  simp only [Walk.endSession, Walk.ask, EStateM.run]
  rcases question session.world with ⟨answer | answer, world⟩ <;> rfl

/-- A relation between sessions holds between the two ends of a walk. If it is transitive it is
enough to know this of single steps. -/
def Walk.Respects {σ κ α : Type} (relation : Session σ κ → Session σ κ → Prop)
    (walk : Walk σ κ α) : Prop :=
  ∀ session, relation session (walk.endSession session)

/-- A relation between sessions holds across the single steps of a walk with given settings and a
given provider. Of commands only those are met that stand on a line, and of their edits only those
that they mean in the session that they are carried out in. -/
structure StepRelation {σ κ : Type} (settings : Settings) (provider : Provider σ κ)
    (relation : Session σ κ → Session σ κ → Prop) : Prop where
  refl : ∀ session, relation session session
  trans : ∀ {first second third}, relation first second → relation second third →
    relation first third
  record : ∀ event : Event κ, event.call? = none → event.edit? = none →
    Walk.Respects relation (Walk.record event)
  append : ∀ line, Walk.Respects relation (Walk.perform (.append line))
  guard : ∀ path, Walk.Respects relation (Walk.performAll
    [.append (.guardOpen path), .append (.guardDefine path), .guard path])
  command : ∀ (session : Session σ κ) site args edits,
    Directive.ofLine site.text = .command args →
      Command.meaning settings session.draft site args = .ok edits →
        relation session (Walk.endSession (Walk.performAll edits) session)
  resolve : ∀ path context, Walk.Respects relation (Walk.resolve provider path context)
  fetch : ∀ path depth, Walk.Respects relation (Walk.fetch provider path depth)

namespace StepRelation

variable {σ κ α β : Type} {settings : Settings} {provider : Provider σ κ}
  {relation : Session σ κ → Session σ κ → Prop}

theorem respects_pure (steps : StepRelation settings provider relation) (a : α) :
    Walk.Respects relation (pure a : Walk σ κ α) :=
  fun session => steps.refl session

theorem respects_throw (steps : StepRelation settings provider relation) (fault : Fault) :
    Walk.Respects relation (throw fault : Walk σ κ α) :=
  fun session => steps.refl session

theorem respects_get (steps : StepRelation settings provider relation) :
    Walk.Respects relation (get : Walk σ κ (Session σ κ)) :=
  fun session => steps.refl session

theorem respects_bind (steps : StepRelation settings provider relation) {first : Walk σ κ α}
    {next : α → Walk σ κ β} (hfirst : Walk.Respects relation first)
    (hnext : ∀ a, Walk.Respects relation (next a)) :
    Walk.Respects relation (first >>= next) := by
  intro session
  have hfront := hfirst session
  simp only [Walk.endSession, EStateM.run_bind] at hfront ⊢
  cases hrun : first.run session with
  | ok a middle =>
    rw [hrun] at hfront
    exact steps.trans hfront (hnext a middle)
  | error fault last =>
    rw [hrun] at hfront
    exact hfront

theorem respects_mark (steps : StepRelation settings provider relation) (number : Nat)
    (file : String) :
    Walk.Respects relation (Walk.mark settings number file : Walk σ κ Unit) := by
  unfold Walk.mark
  split
  · exact steps.append _
  · exact steps.respects_pure ()

theorem respects_runOnce (steps : StepRelation settings provider relation) (file : String)
    (site : Location) (seen alone : Bool) :
    Walk.Respects relation (Walk.runOnce file site seen alone : Walk σ κ Unit) := by
  unfold Walk.runOnce
  split
  · exact steps.respects_throw _
  · split
    · exact steps.respects_throw _
    · exact steps.guard file

theorem respects_carryOut (steps : StepRelation settings provider relation) {site : Location}
    {args : List String} (hline : Directive.ofLine site.text = .command args) :
    Walk.Respects relation (Walk.carryOut settings site args : Walk σ κ Unit) := by
  intro session
  simp only [Walk.endSession, Walk.carryOut, EStateM.run_bind, EStateM.run_get]
  cases hmeaning : Command.meaning settings session.draft site args with
  | ok edits => exact steps.command session site args edits hline hmeaning
  | error complaint => exact steps.refl session

theorem respects_runCommand (steps : StepRelation settings provider relation) {site : Location}
    {args : List String} (hline : Directive.ofLine site.text = .command args) :
    Walk.Respects relation (Walk.runCommand settings site args : Walk σ κ Unit) := by
  cases args with
  | nil => exact steps.respects_carryOut hline
  | cons name args =>
    exact steps.respects_bind (steps.record _ rfl rfl) fun _ => steps.respects_carryOut hline

theorem respects_readLine (steps : StepRelation settings provider relation)
    {visit : Walk.Visitor σ κ}
    (hvisit : ∀ site path context, Walk.Respects relation (visit site path context))
    (file : Target κ) (once : Bool) (site : Location) :
    Walk.Respects relation (Walk.readLine settings visit file once site) := by
  unfold Walk.readLine Walk.obey
  split
  · exact steps.respects_bind (steps.append _) fun _ => steps.respects_pure _
  · exact steps.respects_throw _
  · exact steps.respects_bind (hvisit _ _ _) fun _ =>
      steps.respects_bind (steps.respects_mark _ _) fun _ => steps.respects_pure _
  · exact steps.respects_bind (steps.respects_runOnce _ _ _ _) fun _ =>
      steps.respects_bind (steps.respects_mark _ _) fun _ => steps.respects_pure _
  · next hline =>
    exact steps.respects_bind (steps.respects_runCommand hline) fun _ =>
      steps.respects_bind (steps.respects_mark _ _) fun _ => steps.respects_pure _

theorem respects_readLines (steps : StepRelation settings provider relation)
    {visit : Walk.Visitor σ κ}
    (hvisit : ∀ site path context, Walk.Respects relation (visit site path context))
    (file : Target κ) (number : Nat) (once : Bool) (lines : List String) :
    Walk.Respects relation (Walk.readLines settings visit file number once lines) := by
  induction lines generalizing number once with
  | nil => exact steps.respects_pure _
  | cons line lines ih =>
    exact steps.respects_bind (steps.respects_readLine hvisit _ _ _) fun _ => ih _ _

theorem respects_readFile (steps : StepRelation settings provider relation)
    {visit : Walk.Visitor σ κ}
    (hvisit : ∀ site path context, Walk.Respects relation (visit site path context))
    (file : Target κ) (text : String) :
    Walk.Respects relation (Walk.readFile settings visit file text) := by
  refine steps.respects_bind (steps.respects_mark _ _) fun _ =>
    steps.respects_bind (steps.respects_readLines hvisit _ _ _ _) fun once => ?_
  cases once with
  | true => exact steps.append _
  | false => exact steps.respects_pure ()

/-- A relation that holds across single steps holds across every visit of a file. -/
theorem respects_visit (steps : StepRelation settings provider relation) (room : Nat)
    (site : Location) (path : String) (context : κ) :
    Walk.Respects relation (Walk.visit settings provider room site path context) := by
  induction room generalizing site path context with
  | zero => exact steps.respects_throw _
  | succ room ih =>
    refine steps.respects_bind (steps.resolve _ _) fun file =>
      steps.respects_bind steps.respects_get fun session => ?_
    split
    · exact steps.record _ rfl rfl
    · exact steps.respects_bind (steps.fetch _ _) fun text =>
        steps.respects_readFile ih file text

end StepRelation

end Ubershader
