/-!
# Mutation spaces

A *mutator* is a compile-time axis of variation: a name and the values it can take. A *mutation*
picks one value per mutator, in declaration order. A *space* is a list of mutators with two kinds
of rules over them: a skip rule marks mutations that are not built, and a replacement rule turns a
mutation into another one that stands for it.
-/

namespace Ubershader

/-- One value per mutator, in declaration order. That there are as many, and that the values are
legal, is not a part of the type: mutations also come from outside. -/
abbrev Mutation := List Int32

/-- A compile-time axis of variation. -/
structure Mutator where
  name : String
  /-- The values that the mutator can take, in increasing order. -/
  values : List Int32
deriving DecidableEq, Repr

/-- A partial mutation. An empty slot agrees with every value, and so does a slot past the end,
which belongs to a mutator declared after the rule. -/
structure SkipRule where
  slots : List (Option Int32)
deriving DecidableEq, Repr

/-- What a replacement rule asks of one mutator and what it makes of it. -/
structure Change where
  index : Nat
  before : Int32
  after : Int32
deriving DecidableEq, Repr

/-- A simultaneous change of several mutators, ordered by index and with each index at most
once. -/
structure Replacement where
  changes : List Change
deriving DecidableEq, Repr

/-- Mutators with the rules over them. Rules name mutators by their positions, so they stay as they
are when more mutators are declared. -/
structure Space where
  mutators : List Mutator := []
  skips : List SkipRule := []
  replacements : List Replacement := []
deriving DecidableEq, Repr

namespace Mutator

def hasValue (mutator : Mutator) (value : Int32) : Bool :=
  mutator.values.contains value

end Mutator

namespace SkipRule

def slotsMatch : List (Option Int32) → Mutation → Bool
  | slot :: slots, value :: mutation =>
    (match slot with
      | none => true
      | some wanted => wanted == value) && slotsMatch slots mutation
  | _, _ => true

def applies (rule : SkipRule) (mutation : Mutation) : Bool :=
  slotsMatch rule.slots mutation

end SkipRule

namespace Replacement

/-- Whether a rule applies to a mutation: each of its mutators has the value asked of it. -/
def applies (rule : Replacement) (mutation : Mutation) : Bool :=
  rule.changes.all fun change => mutation[change.index]? == some change.before

def apply (rule : Replacement) (mutation : Mutation) : Mutation :=
  rule.changes.foldl (fun mutation change => mutation.set change.index change.after) mutation

/-- What a rule asks of a mutation, without what it makes of it. -/
def pattern (rule : Replacement) : List (Nat × Int32) :=
  rule.changes.map fun change => (change.index, change.before)

private theorem length_foldl_set (changes : List Change) (mutation : Mutation) :
    (changes.foldl (fun mutation change => mutation.set change.index change.after)
      mutation).length = mutation.length := by
  induction changes generalizing mutation with
  | nil => rfl
  | cons change changes ih => simp [ih]

@[simp] theorem length_apply (rule : Replacement) (mutation : Mutation) :
    (rule.apply mutation).length = mutation.length :=
  length_foldl_set rule.changes mutation

end Replacement

namespace Space

def mutatorIndex? (space : Space) (name : String) : Option Nat :=
  space.mutators.findIdx? fun mutator => mutator.name == name

/-- Whether each mutator of a list takes the value at its place in a mutation of the same
length. -/
def admits : List Mutator → Mutation → Bool
  | [], [] => true
  | mutator :: mutators, value :: mutation => mutator.hasValue value && admits mutators mutation
  | _, _ => false

/-- Whether a mutation has one legal value per mutator. -/
def isValid (space : Space) (mutation : Mutation) : Bool :=
  admits space.mutators mutation

theorem length_eq_of_admits {mutators : List Mutator} {mutation : Mutation}
    (hadmits : admits mutators mutation = true) : mutation.length = mutators.length := by
  induction mutators generalizing mutation with
  | nil => cases mutation <;> simp_all [admits]
  | cons mutator mutators ih => cases mutation <;> simp_all [admits]

def isSkipped (space : Space) (mutation : Mutation) : Bool :=
  space.skips.any fun rule => rule.applies mutation

def replaceOnce? (space : Space) (mutation : Mutation) : Option Mutation :=
  (space.replacements.find? fun rule => rule.applies mutation).map fun rule => rule.apply mutation

theorem length_of_replaceOnce? {space : Space} {mutation next : Mutation}
    (hnext : space.replaceOnce? mutation = some next) : next.length = mutation.length := by
  simp only [replaceOnce?, Option.map_eq_some_iff] at hnext
  obtain ⟨rule, -, rfl⟩ := hnext
  exact rule.length_apply mutation

end Space

end Ubershader
