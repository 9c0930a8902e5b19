import Std.Data.TreeSet.Basic
import Ubershader.Space.Basic
import Ubershader.Text.Quoted

/-!
# Canonical mutations

Replacement rules are applied, one at a time, until none applies. The mutation where that stops is
canonical. Rules may also lead back to a mutation that was met before, in which case there is no
canonical mutation and the first one met twice is reported.

Every mutation on the way has, in each place, either the value it started with or a value that
some rule puts there. So at most `(rules + 1) ^ mutators` different ones can be met, and that
number of steps decides which of the two cases holds.
-/

namespace Ubershader

/-- How repeated replacement ends. -/
inductive Canonical
  /-- No rule applies to `result`; `changed` says whether any rule was applied before. -/
  | settled (changed : Bool) (result : Mutation)
  /-- The mutation `repeated` was met for a second time. -/
  | cycle (repeated : Mutation)
deriving DecidableEq, Repr

namespace Canonical

def last : Canonical → Mutation
  | settled _ result => result
  | cycle repeated => repeated

def cycleMessage (repeated : Mutation) : String :=
  "mutation rewrite rules cycle back to " ++ Text.bracketed repeated

end Canonical

namespace Space

/-- Replace at most `steps` times, remembering every mutation met so far. With as many steps as
`replacementBound` says they do not run out before it is known how replacement ends. -/
def settle (space : Space) : (steps : Nat) → Std.TreeSet Mutation → Bool → Mutation → Canonical
  | 0, _, _, mutation => .cycle mutation
  | steps + 1, met, changed, mutation =>
    match space.replaceOnce? mutation with
    | none => .settled changed mutation
    | some next =>
      if next ∈ met then .cycle next else space.settle steps (met.insert next) true next

/-- At least the number of different mutations that replacement can meet: each place has the value
that it started with, or one that some rule puts there. -/
def replacementBound (space : Space) : Nat :=
  Nat.pow (space.replacements.length + 1) space.mutators.length

/-- Replace until no rule applies or a mutation is met twice. -/
def canonicalize (space : Space) (mutation : Mutation) : Canonical :=
  space.settle space.replacementBound (Std.TreeSet.empty.insert mutation) false mutation

end Space

end Ubershader
