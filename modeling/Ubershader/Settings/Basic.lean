import Ubershader.Pipeline.Stage

/-!
# Settings

What is fixed before a program is read: the definitions that every variant starts with, the
engine constants that its header carries, what the target can run, how deep files may include one
another, and whether line markers are written.
-/

namespace Ubershader

/-- A named integer that every variant defines first. -/
structure Define where
  name : String
  value : Int32
deriving DecidableEq, Repr

/-- Everything about a target that is decided before reading. -/
structure Settings where
  defines : List Define := []
  maxBindlessTextures : UInt32 := 512
  maxBindlessReadonlyTextureBuffers : UInt32 := 512
  mobilePlatform : Bool := false
  fullPrecision : Bool := false
  /-- Ray tracing stages may be declared. -/
  rayTracing : Bool := true
  /-- Task and mesh stages may be declared. -/
  meshShaders : Bool := true
  /-- The entry file is at depth zero, and no file may be deeper than this. -/
  maxIncludeDepth : UInt32 := 8
  /-- Write markers that tell the compiler where the lines after them come from. -/
  lineMarkers : Bool := false
deriving DecidableEq, Repr

namespace Settings

def withDefine (settings : Settings) (name : String) (value : Int32) : Settings :=
  { settings with defines := settings.defines ++ [⟨name, value⟩] }

def withRayTracing (settings : Settings) (enabled : Bool) : Settings :=
  { settings with rayTracing := enabled }

def withMeshShaders (settings : Settings) (enabled : Bool) : Settings :=
  { settings with meshShaders := enabled }

def withMaxIncludeDepth (settings : Settings) (depth : UInt32) : Settings :=
  { settings with maxIncludeDepth := depth }

def withLineMarkers (settings : Settings) (enabled : Bool) : Settings :=
  { settings with lineMarkers := enabled }

/-- Whether the target can run a stage at all. A block of a stage that it cannot run is refused when
it is opened. -/
def supports (settings : Settings) (stage : Stage) : Bool :=
  if stage.isRayTracing then settings.rayTracing
  else if stage.isMeshPipeline then settings.meshShaders
  else true

def supportedStages (settings : Settings) : List Stage :=
  Stage.all.filter settings.supports

@[simp] theorem mem_supportedStages {settings : Settings} {stage : Stage} :
    stage ∈ settings.supportedStages ↔ settings.supports stage = true := by
  simp [supportedStages]

end Settings

end Ubershader
