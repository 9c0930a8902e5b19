/-!
# Shader stages

The fourteen stages that a block can be written for, in pipeline order. That order numbers the
stages, fixes their bits in a `StageSet`, and is the order in which the stages of a technique are
listed. A stage has a token, by which directives name it, and a spelling in upper case, by which
generated definitions do.
-/

namespace Ubershader

inductive Stage
  | vertex
  | tessellationControl
  | tessellationEvaluation
  | geometry
  | task
  | mesh
  | fragment
  | compute
  | rayGen
  | anyHit
  | closestHit
  | miss
  | intersection
  | callable
deriving DecidableEq, Repr, Inhabited

namespace Stage

def all : List Stage :=
  [vertex, tessellationControl, tessellationEvaluation, geometry, task, mesh, fragment, compute,
   rayGen, anyHit, closestHit, miss, intersection, callable]

def index (stage : Stage) : Nat :=
  stage.ctorIdx

def token : Stage → String
  | vertex => "vert"
  | tessellationControl => "tessc"
  | tessellationEvaluation => "tesse"
  | geometry => "geom"
  | task => "task"
  | mesh => "mesh"
  | fragment => "frag"
  | compute => "comp"
  | rayGen => "rgen"
  | anyHit => "ahit"
  | closestHit => "chit"
  | miss => "miss"
  | intersection => "int"
  | callable => "call"

/-- The full name of a stage, as settings files spell it. -/
def name : Stage → String
  | vertex => "Vertex"
  | tessellationControl => "TessellationControl"
  | tessellationEvaluation => "TessellationEvaluation"
  | geometry => "Geometry"
  | task => "Task"
  | mesh => "Mesh"
  | fragment => "Fragment"
  | compute => "Compute"
  | rayGen => "RayGen"
  | anyHit => "AnyHit"
  | closestHit => "ClosestHit"
  | miss => "Miss"
  | intersection => "Intersection"
  | callable => "Callable"

/-- The spelling of a stage inside a generated definition. -/
def defineName : Stage → String
  | vertex => "VERTEX"
  | tessellationControl => "TESSELLATION_CONTROL"
  | tessellationEvaluation => "TESSELLATION_EVALUATION"
  | geometry => "GEOMETRY"
  | task => "TASK"
  | mesh => "MESH"
  | fragment => "FRAGMENT"
  | compute => "COMPUTE"
  | rayGen => "RAY_GEN"
  | anyHit => "ANY_HIT"
  | closestHit => "CLOSEST_HIT"
  | miss => "MISS"
  | intersection => "INTERSECTION"
  | callable => "CALLABLE"

def isRayTracing : Stage → Bool
  | rayGen | anyHit | closestHit | miss | intersection | callable => true
  | _ => false

def isMeshPipeline : Stage → Bool
  | task | mesh => true
  | _ => false

def ofToken? (token : String) : Option Stage :=
  all.find? fun stage => stage.token == token

def ofName? (name : String) : Option Stage :=
  all.find? fun stage => stage.name == name

@[simp] theorem mem_all (stage : Stage) : stage ∈ all := by
  cases stage <;> decide

@[simp] theorem ofToken?_token (stage : Stage) : ofToken? stage.token = some stage := by
  cases stage <;> decide

theorem token_eq_of_ofToken? {token : String} {stage : Stage}
    (hstage : ofToken? token = some stage) : stage.token = token := by
  simpa using List.find?_some hstage

end Stage

end Ubershader
