import Ubershader.Pipeline.Stage

/-!
# Sets of stages

A set of stages is a 32-bit mask in which every stage has the bit of its position in pipeline
order. A mask may also carry bits that belong to no stage. They are kept as given, are invisible
to `toList`, and can be cleared by `known`.
-/

namespace Ubershader

/-- A set of stages, as a mask. Because of the bits that belong to no stage, sets with the same
stages need not be equal. -/
structure StageSet where
  bits : BitVec 32
deriving DecidableEq, Repr

namespace StageSet

def empty : StageSet := ⟨0⟩

def singleton (stage : Stage) : StageSet :=
  ⟨BitVec.twoPow 32 stage.index⟩

def union (left right : StageSet) : StageSet :=
  ⟨left.bits ||| right.bits⟩

def inter (left right : StageSet) : StageSet :=
  ⟨left.bits &&& right.bits⟩

def ofList (stages : List Stage) : StageSet :=
  stages.foldr (fun stage set => (singleton stage).union set) empty

def contains (set : StageSet) (stage : Stage) : Bool :=
  set.bits.getLsbD stage.index

/-- The stages of a set, in pipeline order. -/
def toList (set : StageSet) : List Stage :=
  Stage.all.filter set.contains

def full : StageSet :=
  ofList Stage.all

def rayTracing : StageSet :=
  ofList (Stage.all.filter Stage.isRayTracing)

/-- A set without the bits that belong to no stage. -/
def known (set : StageSet) : StageSet :=
  set.inter full

/-- Whether every bit of a set belongs to a stage. -/
def isKnown (set : StageSet) : Bool :=
  set.known == set

def includes (set part : StageSet) : Bool :=
  set.inter part == part

@[simp] theorem contains_empty (stage : Stage) : empty.contains stage = false := by
  simp [empty, contains]

@[simp] theorem contains_union (left right : StageSet) (stage : Stage) :
    (left.union right).contains stage = (left.contains stage || right.contains stage) := by
  simp [union, contains]

@[simp] theorem contains_singleton (stage other : Stage) :
    (singleton stage).contains other = decide (stage = other) := by
  cases stage <;> cases other <;> decide

@[simp] theorem contains_ofList (stages : List Stage) (stage : Stage) :
    (ofList stages).contains stage = decide (stage ∈ stages) := by
  induction stages with
  | nil => simp [ofList]
  | cons head stages ih =>
    simp only [ofList, List.foldr_cons] at ih ⊢
    rw [contains_union, ih, contains_singleton]
    simp [eq_comm]

@[simp] theorem mem_toList {set : StageSet} {stage : Stage} :
    stage ∈ set.toList ↔ set.contains stage = true := by
  simp [toList]

end StageSet

end Ubershader
