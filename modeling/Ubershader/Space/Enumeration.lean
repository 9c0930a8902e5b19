import Ubershader.Space.Basic

/-!
# Enumerating a space

The mutations of a space are numbered from zero in lexicographic order, with the last mutator
turning fastest. The number of a mutation, its *rank*, is a numeral of mixed radix whose digits
are the positions of its values, so every mutation can be had directly from its rank.
-/

namespace Ubershader

namespace Space

def combinations : List Mutator → Nat
  | [] => 1
  | mutator :: mutators => mutator.values.length * combinations mutators

def combinationAt? : List Mutator → (rank : Nat) → Option Mutation
  | [], rank => if rank = 0 then some [] else none
  | mutator :: mutators, rank => do
    let value ← mutator.values[rank / combinations mutators]?
    let rest ← combinationAt? mutators (rank % combinations mutators)
    return value :: rest

def size (space : Space) : Nat :=
  combinations space.mutators

/-- The number of mutations of a space, if it fits in a 64-bit word. -/
def mutationCount? (space : Space) : Option UInt64 :=
  if space.size < UInt64.size then some (UInt64.ofNat space.size) else none

/-- The mutation with a given rank. There is none past the last one. -/
def mutationAt? (space : Space) (rank : Nat) : Option Mutation :=
  combinationAt? space.mutators rank

/-- The first `count` mutations, or all of them if there are fewer. -/
def firstMutations (space : Space) (count : Nat) : List Mutation :=
  (List.range (min count space.size)).filterMap space.mutationAt?

def mutations (space : Space) : List Mutation :=
  (List.range space.size).filterMap space.mutationAt?

@[simp] theorem combinations_nil : combinations [] = 1 := rfl

@[simp] theorem combinations_cons (mutator : Mutator) (mutators : List Mutator) :
    combinations (mutator :: mutators) = mutator.values.length * combinations mutators := rfl

end Space

/-- A place in the enumeration of a space: how many mutations have been taken. -/
structure Cursor where
  rank : Nat := 0
deriving DecidableEq, Repr

namespace Cursor

/-- The next mutation, and the place after it. At the end of the space the place stays. -/
def next (cursor : Cursor) (space : Space) : Option Mutation × Cursor :=
  match space.mutationAt? cursor.rank with
  | none => (none, cursor)
  | some mutation => (some mutation, ⟨cursor.rank + 1⟩)

def take (cursor : Cursor) (space : Space) : (count : Nat) → List (Option Mutation) × Cursor
  | 0 => ([], cursor)
  | count + 1 =>
    let (mutation, after) := cursor.next space
    let (mutations, last) := after.take space count
    (mutation :: mutations, last)

end Cursor

end Ubershader
