import Mathlib.Algebra.Group.Nat.Defs
import Ubershader.Complaint

/-!
# Checked operations

Lists may be indexed and cut outside of their range, masks may be asked for a bit that they do not
have, and counters of 32 bits may be full. The definitions of this library avoid such operations,
or give them a meaning. Here they are computations that end in a *crash*, so that a program which
is written with them can be shown to need no such meaning: it never crashes.

An `Attempt` may crash, and may also be refused with a complaint. That an attempt gives an outcome
means that it does not crash.
-/

namespace Ubershader

/-- An operation that is not defined on its arguments. -/
inductive Crash
  /-- An index or a slice is out of range. -/
  | range
  /-- A shift is by as many bits as the mask has, or by more. -/
  | shift
  /-- A counter of 32 bits is full. -/
  | overflow
  /-- Something that was taken for granted does not hold. -/
  | assertion
deriving DecidableEq, Repr

/-- A computation that may crash. -/
abbrev Checked (α : Type) := Except Crash α

namespace Checked

variable {α : Type}

def element (list : List α) (index : Nat) : Checked α :=
  match list[index]? with
  | some a => .ok a
  | none => .error .range

def replace (list : List α) (index : Nat) (a : α) : Checked (List α) :=
  if index < list.length then .ok (list.set index a) else .error .range

def upTo (list : List α) (position : Nat) : Checked (List α) :=
  if position ≤ list.length then .ok (list.take position) else .error .range

def onFrom (list : List α) (position : Nat) : Checked (List α) :=
  if position ≤ list.length then .ok (list.drop position) else .error .range

/-- The mask of 64 bits with one bit set. A shift by 64 or more has no meaning for such a mask, so
it is a crash. -/
def bit (index : Nat) : Checked (BitVec 64) :=
  if index < 64 then .ok (BitVec.twoPow 64 index) else .error .shift

/-- The sum of two counters of 32 bits. -/
def add (left right : Nat) : Checked Nat :=
  if left + right < 2 ^ 32 then .ok (left + right) else .error .overflow

@[simp] theorem ok_bind {β : Type} (a : α) (next : α → Checked β) :
    (Except.ok a >>= next : Checked β) = next a := rfl

@[simp] theorem pure_eq (a : α) : (pure a : Checked α) = .ok a := rfl

@[simp] theorem element_zero (a : α) (list : List α) : element (a :: list) 0 = .ok a := rfl

@[simp] theorem element_succ (a : α) (list : List α) (index : Nat) :
    element (a :: list) (index + 1) = element list index := by
  simp [element]

theorem element_eq_ok {list : List α} {index : Nat} {a : α} (helement : list[index]? = some a) :
    element list index = .ok a := by
  simp [element, helement]

theorem replace_eq_ok {list : List α} {index : Nat} (hindex : index < list.length) (a : α) :
    replace list index a = .ok (list.set index a) :=
  if_pos hindex

theorem upTo_eq_ok {list : List α} {position : Nat} (hposition : position ≤ list.length) :
    upTo list position = .ok (list.take position) :=
  if_pos hposition

theorem onFrom_eq_ok {list : List α} {position : Nat} (hposition : position ≤ list.length) :
    onFrom list position = .ok (list.drop position) :=
  if_pos hposition

theorem bit_eq_ok {index : Nat} (hindex : index < 64) :
    bit index = .ok (BitVec.twoPow 64 index) :=
  if_pos hindex

theorem add_eq_ok {left right : Nat} (hsum : left + right < 2 ^ 32) :
    add left right = .ok (left + right) :=
  if_pos hsum

end Checked

/-- A computation that may crash and may be refused. -/
abbrev Attempt (α : Type) := ExceptT Complaint Checked α

namespace Attempt

variable {α β : Type}

/-- An attempt does not crash, and it comes to the given outcome. -/
def Gives (attempt : Attempt α) (outcome : Except Complaint α) : Prop :=
  attempt.run = .ok outcome

/-- What is known to succeed or to be refused. -/
def decided (outcome : Except Complaint α) : Attempt α :=
  ExceptT.mk (.ok outcome)

/-- A checked operation, which is never refused. -/
def check (checked : Checked α) : Attempt α :=
  ExceptT.mk (checked.map .ok)

theorem Gives.of_eq {attempt : Attempt α} {outcome other : Except Complaint α}
    (hattempt : attempt.Gives outcome) (heq : outcome = other) : attempt.Gives other :=
  heq ▸ hattempt

theorem gives_decided (outcome : Except Complaint α) : (decided outcome).Gives outcome := rfl

theorem gives_pure (a : α) : (pure a : Attempt α).Gives (.ok a) := rfl

theorem gives_throw (complaint : Complaint) :
    (throw complaint : Attempt α).Gives (.error complaint) := rfl

/-- A checked operation in front of an attempt is not seen in its outcome. -/
theorem gives_check_bind {checked : Checked α} {a : α} {next : α → Attempt β}
    {outcome : Except Complaint β} (hchecked : checked = .ok a) (hnext : (next a).Gives outcome) :
    (check checked >>= next).Gives outcome := by
  subst hchecked
  exact hnext

/-- A refusal is final. -/
theorem gives_error_bind {first : Attempt α} {complaint : Complaint} (next : α → Attempt β)
    (hfirst : first.Gives (.error complaint)) : (first >>= next).Gives (.error complaint) := by
  rw [Gives, ExceptT.run_bind, show first.run = .ok (.error complaint) from hfirst]
  rfl

theorem gives_ok_bind {first : Attempt α} {a : α} {next : α → Attempt β}
    {outcome : Except Complaint β} (hfirst : first.Gives (.ok a)) (hnext : (next a).Gives outcome) :
    (first >>= next).Gives outcome := by
  rw [Gives, ExceptT.run_bind, show first.run = .ok (.ok a) from hfirst]
  exact hnext

/-- An attempt after another one gives what the outcomes give one after the other. -/
theorem gives_bind {first : Attempt α} {outcome : Except Complaint α} {next : α → Attempt β}
    {rest : α → Except Complaint β} (hfirst : first.Gives outcome)
    (hnext : ∀ a, outcome = .ok a → (next a).Gives (rest a)) :
    (first >>= next).Gives (outcome >>= rest) := by
  cases outcome with
  | error complaint => exact gives_error_bind next hfirst
  | ok a => exact gives_ok_bind hfirst (hnext a rfl)

theorem gives_ite {condition : Prop} [Decidable condition] {first second : Attempt α}
    {left right : Except Complaint α} (hfirst : condition → first.Gives left)
    (hsecond : ¬condition → second.Gives right) :
    (if condition then first else second).Gives (if condition then left else right) := by
  split
  · next hcondition => exact hfirst hcondition
  · next hcondition => exact hsecond hcondition

end Attempt

end Ubershader
