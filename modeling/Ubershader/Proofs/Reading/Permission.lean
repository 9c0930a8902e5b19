import Ubershader.Proofs.Reading.Simulation
import Ubershader.Provider.Catalog

/-!
# More permissive settings

Settings can be relaxed: files may be nested deeper, and more stages may be declared. Of a program
that could be read before, nothing changes by that, and neither does a fault, unless it is one of
the two that a limit of the settings gives. The readings go through the same sessions all the way,
so they are compared by equality.
-/

namespace Ubershader

/-- Settings that allow at least what other settings allow, and that ask for line markers exactly if
the others do. The definitions, the constants and the flags of the target may be any. -/
structure Settings.Relaxes (lax strict : Settings) : Prop where
  lineMarkers : lax.lineMarkers = strict.lineMarkers
  maxIncludeDepth : strict.maxIncludeDepth ≤ lax.maxIncludeDepth
  rayTracing : strict.rayTracing = true → lax.rayTracing = true
  meshShaders : strict.meshShaders = true → lax.meshShaders = true

/-- A fault because of what the settings allow. -/
inductive Fault.IsLimit : Fault → Prop
  | tooDeep (file includer : String) (line depth : Nat) :
      IsLimit (.tooDeep file includer line depth)
  | unsupportedStage (site : Location) : IsLimit (.directive site (.malformed .unsupportedStage))

variable {strict lax : Settings}

theorem Settings.Relaxes.supports (hrelaxes : lax.Relaxes strict) {stage : Stage}
    (hsupports : strict.supports stage = true) : lax.supports stage = true := by
  rw [Settings.supports] at hsupports ⊢
  split
  · next hray =>
    rw [if_pos hray] at hsupports
    exact hrelaxes.rayTracing hsupports
  · next hray =>
    split
    · next hmesh =>
      rw [if_neg hray, if_pos hmesh] at hsupports
      exact hrelaxes.meshShaders hsupports
    · rfl

namespace Command

theorem techniqueStart_of_relaxes (hrelaxes : lax.Relaxes strict) (draft : Draft) (site : Location)
    (args : List String) :
    techniqueStart lax draft site args = techniqueStart strict draft site args ∨
      techniqueStart strict draft site args = .error (.malformed .unsupportedStage) := by
  rw [techniqueStart, techniqueStart]
  split
  · exact .inl rfl
  · split
    · exact .inl rfl
    · next stage _ =>
      cases hsupports : strict.supports stage with
      | false => exact .inr rfl
      | true =>
        rw [hrelaxes.supports hsupports]
        exact .inl rfl

/-- A command means the same under relaxed settings, unless its stage was not supported. -/
theorem meaning_of_relaxes (hrelaxes : lax.Relaxes strict) (draft : Draft) (site : Location)
    (args : List String) :
    meaning lax draft site args = meaning strict draft site args ∨
      meaning strict draft site args = .error (.malformed .unsupportedStage) := by
  cases args with
  | nil => exact .inl rfl
  | cons name args =>
    rw [meaning, meaning]
    by_cases hname : name = "technique_start"
    · -- This is the one command that looks at the settings.
      have hnamed : ∀ settings, named settings draft site args name =
          outsideStruct draft (techniqueStart settings draft site args) := by
        intro settings
        simp [named, hname]
      rw [hnamed, hnamed, outsideStruct, outsideStruct]
      split
      · exact .inl rfl
      · exact techniqueStart_of_relaxes hrelaxes draft site args
    · refine .inl ?_
      simp only [named, if_neg hname]

end Command

theorem Program.ofDraft_eq_map (settings other : Settings) (entry : String) (draft : Draft) :
    Program.ofDraft other entry draft =
      (Program.ofDraft settings entry draft).map fun program =>
        { program with settings := other } := by
  rw [Program.ofDraft, Program.ofDraft]
  split <;> rfl

theorem Settings.Relaxes.comparison {σ κ : Type} (hrelaxes : lax.Relaxes strict) :
    Comparison strict lax (Eq : Session σ κ → Session σ κ → Prop) Fault.IsLimit
      (lax.maxIncludeDepth.toNat - strict.maxIncludeDepth.toNat) where
  depth := by
    have hdepth := UInt32.le_iff_toNat_le.mp hrelaxes.maxIncludeDepth
    omega
  tooDeep _ := .tooDeep
  world := by
    rintro session _ rfl
    rfl
  holdsOnce := by
    rintro session _ rfl path
    rfl
  note := by
    rintro session _ rfl event - world
    rfl
  perform := by
    rintro edit - session _ rfl
    exact .ok rfl
  mark := by
    rintro number file session _ rfl
    rw [Walk.mark, Walk.mark, hrelaxes.lineMarkers]
    split
    · exact .ok rfl
    · exact .ok rfl
  command := by
    rintro session _ rfl site args
    obtain hsame | hlimit := Command.meaning_of_relaxes hrelaxes session.draft site args
    · exact .inl hsame
    · exact .inr ⟨_, hlimit, .unsupportedStage site⟩

section

variable {σ κ : Type} (provider : Provider σ κ) (entry : String) (context : κ) (world : σ)

/-- A reading under relaxed settings is the reading before, unless that came up against a limit. -/
theorem read_eq_or_isLimit (hrelaxes : lax.Relaxes strict) :
    read lax provider entry context world =
        ⟨(read strict provider entry context world).outcome.map fun program =>
          { program with settings := lax }, (read strict provider entry context world).session⟩ ∨
      ∃ fault, (read strict provider entry context world).outcome = .error fault ∧
        fault.IsLimit := by
  have hends := hrelaxes.comparison.matches_visit_entry provider entry context
    (rfl : ({ world := world } : Session σ κ) = { world := world })
  unfold read
  dsimp only
  generalize (Walk.visit strict provider _ _ entry context).run _ = strictEnd at hends ⊢
  generalize (Walk.visit lax provider _ _ entry context).run _ = laxEnd at hends ⊢
  cases hends with
  | ok hsame =>
    subst hsame
    refine .inl ?_
    dsimp only
    rw [Program.ofDraft_eq_map strict lax]
  | error hsame =>
    subst hsame
    exact .inl rfl
  | excused hlimit => exact .inr ⟨_, rfl, hlimit⟩

end

/-- More permissive settings change no good result. If a program can be read under some settings,
then under relaxed ones the same program is read, but for the settings in it, with the same
questions to the provider. If a reading ends with a fault that is not about a limit, it ends with
the same fault, and after the same questions. -/
theorem outcome_eq_of_relaxes {σ κ : Type} (hrelaxes : lax.Relaxes strict)
    (provider : Provider σ κ) (entry : String) (context : κ) (world : σ) :
    (∀ program, (read strict provider entry context world).outcome = .ok program →
      (read lax provider entry context world).outcome = .ok { program with settings := lax } ∧
      (read lax provider entry context world).calls =
        (read strict provider entry context world).calls) ∧
    ∀ fault, (read strict provider entry context world).outcome = .error fault →
      ¬ fault.IsLimit →
        (read lax provider entry context world).outcome = .error fault ∧
        (read lax provider entry context world).calls =
          (read strict provider entry context world).calls := by
  obtain hsame | ⟨limit, houtcome, hlimit⟩ :=
    read_eq_or_isLimit provider entry context world hrelaxes
  · rw [hsame]
    constructor
    · intro program hprogram
      rw [hprogram]
      exact ⟨rfl, rfl⟩
    · intro fault hfault _
      rw [hfault]
      exact ⟨rfl, rfl⟩
  · rw [houtcome]
    constructor
    · intro program hprogram
      cases hprogram
    · intro fault hfault hnot
      cases hfault
      exact absurd hlimit hnot

/-- Two entry files that include another file. The first one has a block, and the second one names
its library twice. -/
def goodAndBadEntry : Catalog where
  files :=
    [("good", "#include \"types\"\n#pragma anki technique_start comp\nint b;\n" ++
        "#pragma anki technique_end comp\n"),
     ("bad", "#include \"types\"\n#pragma anki library a\n#pragma anki library b\n"),
     ("types", "int t;\n")]

theorem outcome_eq_of_relaxes_goodAndBadEntry :
    ∃ strict lax : Settings, strict.maxIncludeDepth < lax.maxIncludeDepth ∧
      strict.rayTracing = false ∧ lax.rayTracing = true ∧ strict.defines ≠ lax.defines ∧
      lax.Relaxes strict ∧
      (∃ program, (read strict goodAndBadEntry.provider "good" "" ()).outcome = .ok program ∧
        (read lax goodAndBadEntry.provider "good" "" ()).outcome =
          .ok { program with settings := lax }) ∧
      ∃ fault, (read strict goodAndBadEntry.provider "bad" "" ()).outcome = .error fault ∧
        ¬ fault.IsLimit ∧
        (read lax goodAndBadEntry.provider "bad" "" ()).outcome = .error fault := by
  let strict : Settings := { maxIncludeDepth := 1, rayTracing := false, meshShaders := false }
  let lax : Settings := { defines := [⟨"WIDTH", 3⟩], mobilePlatform := true }
  have hrelaxes : lax.Relaxes strict := ⟨rfl, by decide, by decide, by decide⟩
  have hgood : (read strict goodAndBadEntry.provider "good" ""
      ()).outcome.toOption.isSome = true := by
    decide +kernel
  obtain ⟨program, hprogram⟩ := Option.isSome_iff_exists.mp hgood
  have hread := eq_ok_of_toOption hprogram
  have hbad : (read strict goodAndBadEntry.provider "bad" "" ()).outcome =
      .error (.directive ⟨"bad", 3, "#pragma anki library b"⟩ (.malformed .repeatedLibrary)) := by
    decide +kernel
  have hnot : ¬ Fault.IsLimit
      (.directive ⟨"bad", 3, "#pragma anki library b"⟩ (.malformed .repeatedLibrary)) := by
    rintro ⟨⟩
  have hsame := outcome_eq_of_relaxes hrelaxes goodAndBadEntry.provider "good" "" ()
  have hfault := outcome_eq_of_relaxes hrelaxes goodAndBadEntry.provider "bad" "" ()
  exact ⟨strict, lax, by decide, rfl, rfl, by decide, hrelaxes,
    ⟨program, hread, (hsame.1 program hread).1⟩, ⟨_, hbad, hnot, (hfault.2 _ hbad hnot).1⟩⟩

end Ubershader
