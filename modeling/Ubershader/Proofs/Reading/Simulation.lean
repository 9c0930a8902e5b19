import Ubershader.Proofs.Buffers
import Ubershader.Proofs.Reading.Course

/-!
# Two readings side by side

Two readings with different settings go through the same files in step, from sessions that are
related in some way. They end alike, unless the first one ends with a fault that is *excused*,
because the second one may have gone on there. `Comparison` lists what has to be known of the
relation and of the settings, for single steps only, and `Comparison.simulates_visit` says that
whole readings are then compared.

The second reading may have more room for including. Its depth is then larger than that of the
first one by a *slack*, and so is the room that it has at every moment, so that a file is at the
same depth in both.
-/

namespace Ubershader

def Line.isMarker : Line → Bool
  | marker _ _ => true
  | _ => false

def Edit.isMarker (edit : Edit) : Bool :=
  edit.line?.any Line.isMarker

/-- No command appends a marker. -/
theorem Command.isMarker_eq_false_of_meaning {settings : Settings} {draft : Draft} {site : Location}
    {args : List String} {edits : List Edit}
    (hmeaning : meaning settings draft site args = .ok edits) {edit : Edit} (hedit : edit ∈ edits) :
    edit.isMarker = false := by
  cases hasParts_meaning settings draft site args edits hmeaning edit hedit with
  | quiet hnone => rw [Edit.isMarker, hnone, Option.any_none]
  | opening => rfl
  | member => rfl
  | closing => rfl

namespace Walk

variable {σ κ α β : Type} {related : Session σ κ → Session σ κ → Prop} {excused : Fault → Prop}

/-- How two walks may end side by side: with the same value or the same fault, in related sessions,
or the first one with a fault that is excused. -/
inductive Matches (related : Session σ κ → Session σ κ → Prop) (excused : Fault → Prop) :
    EStateM.Result Fault (Session σ κ) α → EStateM.Result Fault (Session σ κ) α → Prop
  | ok {a : α} {last other : Session σ κ} (sessions : related last other) :
      Matches related excused (.ok a last) (.ok a other)
  | error {fault : Fault} {last other : Session σ κ} (sessions : related last other) :
      Matches related excused (.error fault last) (.error fault other)
  | excused {fault : Fault} {last : Session σ κ} {result : EStateM.Result Fault (Session σ κ) α}
      (isExcused : excused fault) : Matches related excused (.error fault last) result

/-- Two walks that start in related sessions end alike. -/
def Simulates (related : Session σ κ → Session σ κ → Prop) (excused : Fault → Prop)
    (first second : Walk σ κ α) : Prop :=
  ∀ session other, related session other →
    Matches related excused (first.run session) (second.run other)

theorem simulates_pure (a : α) :
    Simulates related excused (pure a : Walk σ κ α) (pure a) :=
  fun _ _ hrelated => .ok hrelated

theorem simulates_throw (fault : Fault) :
    Simulates related excused (throw fault : Walk σ κ α) (throw fault) :=
  fun _ _ hrelated => .error hrelated

theorem simulates_bind {first second : Walk σ κ α} {next nextOther : α → Walk σ κ β}
    (hfirst : Simulates related excused first second)
    (hnext : ∀ a, Simulates related excused (next a) (nextOther a)) :
    Simulates related excused (first >>= next) (second >>= nextOther) := by
  intro session other hrelated
  have hends := hfirst session other hrelated
  rw [EStateM.run_bind, EStateM.run_bind]
  generalize first.run session = firstEnd at hends ⊢
  generalize second.run other = secondEnd at hends ⊢
  cases hends with
  | ok hmiddle => exact hnext _ _ _ hmiddle
  | error hlast => exact .error hlast
  | excused hexcused => exact .excused hexcused

/-- What is done next may depend on the sessions themselves. -/
theorem simulates_bind_get {next nextOther : Session σ κ → Walk σ κ α}
    (hnext : ∀ session other, related session other →
      Matches related excused ((next session).run session) ((nextOther other).run other)) :
    Simulates related excused (get >>= next) (get >>= nextOther) := by
  intro session other hrelated
  rw [EStateM.run_bind, EStateM.run_bind, EStateM.run_get, EStateM.run_get]
  exact hnext session other hrelated

end Walk

/-- What has to be known of two settings and of a relation between sessions to compare readings. The
second reading may have `slack` more room, which only matters where the first one has none left. -/
structure Comparison {σ κ : Type} (first second : Settings)
    (related : Session σ κ → Session σ κ → Prop) (excused : Fault → Prop) (slack : Nat) :
    Prop where
  depth : second.maxIncludeDepth.toNat = first.maxIncludeDepth.toNat + slack
  tooDeep : slack ≠ 0 → ∀ file includer line depth, excused (.tooDeep file includer line depth)
  world : ∀ {session other}, related session other → other.world = session.world
  holdsOnce : ∀ {session other}, related session other → ∀ path,
    other.draft.current.holdsOnce path = session.draft.current.holdsOnce path
  /-- Both worlds change and both journals grow, but not by an edit. -/
  note : ∀ {session other}, related session other → ∀ event : Event κ, event.edit? = none →
    ∀ world, related { session with world := world, journal := session.journal.push event }
      { other with world := world, journal := other.journal.push event }
  perform : ∀ edit : Edit, edit.isMarker = false →
    Walk.Simulates related excused (Walk.perform edit) (Walk.perform edit)
  mark : ∀ number file,
    Walk.Simulates related excused (Walk.mark first number file) (Walk.mark second number file)
  /-- A command means the same to both, or the first one complains and is excused. -/
  command : ∀ {session other}, related session other → ∀ site args,
    Command.meaning second other.draft site args = Command.meaning first session.draft site args ∨
      ∃ complaint, Command.meaning first session.draft site args = .error complaint ∧
        excused (.directive site complaint)

namespace Comparison

open Walk

variable {σ κ α : Type} {first second : Settings} {related : Session σ κ → Session σ κ → Prop}
  {excused : Fault → Prop} {slack : Nat}

theorem simulates_record (compares : Comparison first second related excused slack)
    {event : Event κ} (hedit : event.edit? = none) :
    Simulates related excused (record event) (record event) := by
  intro session other hrelated
  have hnoted := compares.note hrelated event hedit session.world
  nth_rewrite 2 [← compares.world hrelated] at hnoted
  exact .ok hnoted

theorem simulates_ask (compares : Comparison first second related excused slack) (path : String)
    (question : σ → Except String α × σ) {event : Except String α → Event κ}
    (hedit : ∀ answer, (event answer).edit? = none) :
    Simulates related excused (ask path question event) (ask path question event) := by
  intro session other hrelated
  simp only [ask, EStateM.run, compares.world hrelated]
  rcases question session.world with ⟨cause | a, world⟩
  · exact .error (compares.note hrelated _ (hedit _) world)
  · exact .ok (compares.note hrelated _ (hedit _) world)

theorem simulates_performAll (compares : Comparison first second related excused slack)
    {edits : List Edit} (hedits : ∀ edit ∈ edits, edit.isMarker = false) :
    Simulates related excused (performAll edits) (performAll edits) := by
  induction edits with
  | nil => exact simulates_pure ()
  | cons edit edits ih =>
    obtain ⟨hedit, hlater⟩ := List.forall_mem_cons.mp hedits
    exact simulates_bind (compares.perform edit hedit) fun _ => ih hlater

theorem simulates_carryOut (compares : Comparison first second related excused slack)
    (site : Location) (args : List String) :
    Simulates related excused (carryOut first site args) (carryOut second site args) := by
  refine simulates_bind_get fun session other hrelated => ?_
  obtain hsame | ⟨complaint, hcomplaint, hexcused⟩ := compares.command hrelated site args
  · rw [hsame]
    cases hmeaning : Command.meaning first session.draft site args with
    | ok edits =>
      have hedits : ∀ edit ∈ edits, edit.isMarker = false :=
        fun edit hedit => Command.isMarker_eq_false_of_meaning hmeaning hedit
      exact compares.simulates_performAll hedits session other hrelated
    | error complaint => exact simulates_throw _ session other hrelated
  · rw [hcomplaint]
    exact .excused hexcused

theorem simulates_runCommand (compares : Comparison first second related excused slack)
    (site : Location) (args : List String) :
    Simulates related excused (runCommand first site args) (runCommand second site args) := by
  cases args with
  | nil => exact compares.simulates_carryOut site []
  | cons name args =>
    exact simulates_bind (compares.simulates_record rfl) fun _ =>
      compares.simulates_carryOut site (name :: args)

theorem simulates_runOnce (compares : Comparison first second related excused slack)
    (file : String) (site : Location) (seen alone : Bool) :
    Simulates related excused (runOnce file site seen alone) (runOnce file site seen alone) := by
  rw [runOnce]
  split
  · exact simulates_throw _
  · split
    · exact simulates_throw _
    · refine compares.simulates_performAll ?_
      simp [Edit.isMarker, Edit.line?, Line.isMarker]

/-- Reading one line, if the files that it may include are read alike. -/
theorem simulates_readLine (compares : Comparison first second related excused slack)
    {visit visitOther : Visitor σ κ}
    (hvisit : ∀ site path context,
      Simulates related excused (visit site path context) (visitOther site path context))
    (file : Target κ) (once : Bool) (site : Location) :
    Simulates related excused (readLine first visit file once site)
      (readLine second visitOther file once site) := by
  unfold readLine obey
  split
  · exact simulates_bind (compares.perform _ rfl) fun _ => simulates_pure once
  · exact simulates_throw _
  · exact simulates_bind (hvisit _ _ _) fun _ =>
      simulates_bind (compares.mark _ _) fun _ => simulates_pure once
  · exact simulates_bind (compares.simulates_runOnce _ _ _ _) fun _ =>
      simulates_bind (compares.mark _ _) fun _ => simulates_pure true
  · exact simulates_bind (compares.simulates_runCommand _ _) fun _ =>
      simulates_bind (compares.mark _ _) fun _ => simulates_pure once

theorem simulates_readLines (compares : Comparison first second related excused slack)
    {visit visitOther : Visitor σ κ}
    (hvisit : ∀ site path context,
      Simulates related excused (visit site path context) (visitOther site path context))
    (file : Target κ) (number : Nat) (once : Bool) (lines : List String) :
    Simulates related excused (readLines first visit file number once lines)
      (readLines second visitOther file number once lines) := by
  induction lines generalizing number once with
  | nil => exact simulates_pure once
  | cons line lines ih =>
    exact simulates_bind (compares.simulates_readLine hvisit _ _ _) fun _ => ih _ _

theorem simulates_readFile (compares : Comparison first second related excused slack)
    {visit visitOther : Visitor σ κ}
    (hvisit : ∀ site path context,
      Simulates related excused (visit site path context) (visitOther site path context))
    (file : Target κ) (text : String) :
    Simulates related excused (readFile first visit file text)
      (readFile second visitOther file text) := by
  refine simulates_bind (compares.mark _ _) fun _ =>
    simulates_bind (compares.simulates_readLines hvisit _ _ _ _) fun once => ?_
  cases once with
  | true => exact compares.perform _ rfl
  | false => exact simulates_pure ()

/-- A file is visited alike with some room and with the slack added to it. -/
theorem simulates_visit (compares : Comparison first second related excused slack)
    (provider : Provider σ κ) (room : Nat) (site : Location) (path : String) (context : κ) :
    Simulates related excused (visit first provider room site path context)
      (visit second provider (room + slack) site path context) := by
  induction room generalizing site path context with
  | zero =>
    by_cases hslack : slack = 0
    · have hdepth : second.maxIncludeDepth.toNat = first.maxIncludeDepth.toNat := by
        rw [compares.depth, hslack, Nat.add_zero]
      rw [hslack, visit, visit, hdepth]
      exact simulates_throw _
    · exact fun _ _ _ => .excused (compares.tooDeep hslack _ _ _ _)
  | succ room ih =>
    have hdepth : second.maxIncludeDepth.toNat - (room + slack) =
        first.maxIncludeDepth.toNat - room := by
      rw [compares.depth, Nat.add_sub_add_right]
    rw [Nat.add_right_comm, visit, visit, hdepth]
    refine simulates_bind (compares.simulates_ask _ _ fun _ => rfl) fun file =>
      simulates_bind_get fun session other hrelated => ?_
    rw [compares.holdsOnce hrelated]
    split
    · exact compares.simulates_record rfl session other hrelated
    · exact simulates_bind (compares.simulates_ask _ _ fun _ => rfl)
        (fun text => compares.simulates_readFile ih file text) session other hrelated

/-- The walks of two readings end alike. -/
theorem matches_visit_entry (compares : Comparison first second related excused slack)
    (provider : Provider σ κ) (entry : String) (context : κ) {session other : Session σ κ}
    (hstart : related session other) :
    Matches related excused
      ((visit first provider (first.maxIncludeDepth.toNat + 1) ⟨entry, 0, ""⟩ entry context).run
        session)
      ((visit second provider (second.maxIncludeDepth.toNat + 1) ⟨entry, 0, ""⟩ entry context).run
        other) := by
  rw [compares.depth, Nat.add_right_comm]
  exact compares.simulates_visit provider _ _ _ _ session other hstart

end Comparison

end Ubershader
