import Ubershader.Draft.Command
import Ubershader.Proofs.Checked
import Ubershader.Proofs.Space.WellFormed

/-!
# Declarations by checked operations

The declarations of mutators and rules, and the masks of mutators, worked out with lists that are
indexed and cut: arguments are taken two by two in pieces of which the last one may be too short,
mutators and slots are addressed by their indices, and the sides of a replacement rule are cut off
at the position of a word. None of this crashes, and the outcome is that of the declarations as
they are defined on whole lists.

A piece has both of its elements because the number of arguments is known to be even by then, an
index comes from a search and is therefore in range, and a bit is in range because there are never
more mutators than bits.
-/

namespace Ubershader

/-! ## Cutting lists -/

/-- Take a list two by two. The last piece may have one element only. -/
def inPieces {α : Type} : List α → List (List α)
  | a :: b :: rest => [a, b] :: inPieces rest
  | [a] => [[a]]
  | [] => []

theorem inPieces_eq {α : Type} {list : List α} (heven : list.length % 2 = 0) :
    inPieces list = (inPairs list).map fun pair => [pair.1, pair.2] := by
  fun_induction inPieces list with
  | case1 a b rest ih =>
    have hrest : rest.length % 2 = 0 := by simpa [Nat.add_assoc] using heven
    simp [inPairs, ih hrest]
  | case2 a => simp at heven
  | case3 => rfl

def neighbours : List Int32 → List (List Int32)
  | a :: b :: rest => [a, b] :: neighbours (b :: rest)
  | _ => []

namespace Checked

/-- The arguments in front of the first token that opens a comment, by its position. -/
def beforeComment (args : List String) : Checked (List String) :=
  upTo args ((args.findIdx? Text.opensComment).getD args.length)

/-- The first of a list of neighbours that are equal. -/
def firstEqual? : List (List Int32) → Checked (Option Int32)
  | [] => .ok none
  | piece :: pieces => do
    let a ← element piece 0
    let b ← element piece 1
    if a = b then return some a else firstEqual? pieces

theorem beforeComment_eq_ok (args : List String) :
    beforeComment args = .ok (Text.beforeComment args) := by
  have hposition : (args.findIdx? Text.opensComment).getD args.length =
      args.findIdx Text.opensComment := by
    cases hfound : args.findIdx? Text.opensComment with
    | none => rw [List.findIdx?_eq_none_iff_findIdx_eq.mp hfound, Option.getD_none]
    | some position => rw [(List.findIdx?_eq_some_iff_findIdx_eq.mp hfound).2, Option.getD_some]
  rw [beforeComment, hposition, upTo_eq_ok List.findIdx_le_length, Text.beforeComment,
    List.takeWhile_eq_take_findIdx_not]
  simp only [Bool.not_not]

theorem firstEqual?_eq_ok (values : List Int32) :
    firstEqual? (neighbours values) = .ok (firstRepeated? values) := by
  fun_induction neighbours values with
  | case1 a b rest ih =>
    simp only [firstEqual?, firstRepeated?, element_zero, element_succ, ok_bind, ih]
    split <;> rfl
  | case2 values hshort =>
    cases values with
    | nil => rfl
    | cons a rest =>
      cases rest with
      | nil => rfl
      | cons b rest => exact absurd rfl (hshort a b rest)

end Checked

namespace Space

/-! ## Masks -/

/-- The mask of the mutators with the given names, added to a mask bit by bit. -/
def attemptMask (space : Space) : (mask : MutatorMask) → List String → Attempt MutatorMask
  | mask, [] => pure mask
  | mask, name :: names =>
    match space.mutatorIndex? name with
    | none => throw (.mutatorNotFound name)
    | some index => do
      let bit ← Attempt.check (Checked.bit index)
      attemptMask space (mask ||| bit) names

def attemptActive (space : Space) : List String → Attempt MutatorMask
  | [] => pure (BitVec.allOnes 64)
  | word :: names =>
    if word = Command.usesMutators then space.attemptMask 0 names
    else throw (.malformed .expectedUsesMutators)

theorem gives_attemptMask {space : Space} (hspace : space.WellFormed) (mask : MutatorMask)
    (names : List String) :
    (space.attemptMask mask names).Gives
      ((Command.maskOf space names).map fun more => mask ||| more) := by
  induction names generalizing mask with
  | nil => simpa [Command.maskOf, attemptMask, Except.map] using Attempt.gives_pure mask
  | cons name names ih =>
    rw [attemptMask, Command.maskOf]
    cases hindex : space.mutatorIndex? name with
    | none => exact Attempt.gives_throw _
    | some index =>
      have hbit : index < 64 := Nat.lt_of_lt_of_le (lt_of_mutatorIndex? hindex) hspace.length_le
      refine Attempt.gives_check_bind (Checked.bit_eq_ok hbit) ((ih _).of_eq ?_)
      cases Command.maskOf space names with
      | error complaint => rfl
      | ok more => exact congrArg Except.ok (BitVec.or_assoc ..)

theorem gives_attemptActive {space : Space} (hspace : space.WellFormed) (args : List String) :
    (space.attemptActive args).Gives (Command.activeMask space args) := by
  cases args with
  | nil => exact Attempt.gives_pure _
  | cons word names =>
    refine Attempt.gives_ite (fun _ => ?_) fun _ => Attempt.gives_throw _
    refine (gives_attemptMask hspace 0 names).of_eq ?_
    cases Command.maskOf space names with
    | error complaint => rfl
    | ok more => simp [Except.map]

/-! ## Mutators -/

def attemptMutator (space : Space) : (args : List String) → Attempt Mutator
  | [] => throw (.malformed .missingMutatorName)
  | name :: args =>
    match space.nameComplaint? name with
    | some complaint => throw complaint
    | none => do
      let values ← Attempt.decided ((Text.beforeComment args).mapM mutatorValue)
      if values.length < 2 then throw (.malformed .tooFewMutatorValues)
      else do
        let sorted := sortByKey Int32.toInt values
        match ← Attempt.check (Checked.firstEqual? (neighbours sorted)) with
        | some value => throw (.duplicateMutatorValue name value)
        | none => return ⟨name, sorted⟩

theorem gives_attemptMutator (space : Space) (args : List String) :
    (space.attemptMutator args).Gives (space.mutatorOf args) := by
  cases args with
  | nil => exact Attempt.gives_throw _
  | cons name args =>
    rw [attemptMutator, mutatorOf]
    cases space.nameComplaint? name with
    | some complaint => exact Attempt.gives_throw _
    | none =>
      refine Attempt.gives_bind (Attempt.gives_decided _) fun values _ => ?_
      refine Attempt.gives_ite (fun _ => Attempt.gives_throw _) fun _ => ?_
      refine Attempt.gives_check_bind (Checked.firstEqual?_eq_ok _) ?_
      dsimp only
      cases firstRepeated? (sortByKey Int32.toInt values) with
      | some value => exact Attempt.gives_throw _
      | none => exact Attempt.gives_pure _

/-! ## Pairs of a mutator and a value -/

def attemptPair (space : Space) (piece : List String) : Attempt (Nat × Int32) := do
  let name ← Attempt.check (Checked.element piece 0)
  let token ← Attempt.check (Checked.element piece 1)
  match space.mutatorIndex? name with
  | none => throw (.mutatorNotFound name)
  | some index =>
    match Text.int32? token with
    | none => throw (.malformed .badPairValue)
    | some value => do
      let mutator ← Attempt.check (Checked.element space.mutators index)
      if mutator.hasValue value then return (index, value)
      else throw (.malformed .illegalPairValue)

theorem gives_attemptPair (space : Space) (pair : String × String) :
    (space.attemptPair [pair.1, pair.2]).Gives (space.pairOf pair) := by
  refine Attempt.gives_check_bind (Checked.element_eq_ok rfl) ?_
  refine Attempt.gives_check_bind (Checked.element_eq_ok rfl) ?_
  rw [pairOf]
  cases hindex : space.mutatorIndex? pair.1 with
  | none => exact Attempt.gives_throw _
  | some index =>
    dsimp only
    cases Text.int32? pair.2 with
    | none => exact Attempt.gives_throw _
    | some value =>
      have hmutator := List.getElem?_eq_getElem (lt_of_mutatorIndex? hindex)
      refine Attempt.gives_check_bind (Checked.element_eq_ok hmutator) ?_
      rw [hmutator]
      exact Attempt.gives_ite (fun _ => Attempt.gives_pure _) fun _ => Attempt.gives_throw _

/-! ## Skip rules -/

def attemptSlots (space : Space) :
    (slots : List (Option Int32)) → List (List String) → Attempt (List (Option Int32))
  | slots, [] => pure slots
  | slots, piece :: pieces => do
    let (index, value) ← space.attemptPair piece
    let slots ← Attempt.check (Checked.replace slots index (some value))
    attemptSlots space slots pieces

def attemptSkip (space : Space) (args : List String) : Attempt SkipRule := do
  let args ← Attempt.check (Checked.beforeComment args)
  if args.length < 4 ∨ args.length % 2 ≠ 0 then throw (.malformed .tooFewSkipPairs)
  else do
    let slots ← space.attemptSlots (List.replicate space.mutators.length none) (inPieces args)
    return ⟨slots⟩

/-- There is a slot for every mutator, so every index has its slot. -/
theorem gives_attemptSlots (space : Space) {slots : List (Option Int32)}
    (hslots : slots.length = space.mutators.length) (pairs : List (String × String)) :
    (space.attemptSlots slots (pairs.map fun pair => [pair.1, pair.2])).Gives
      ((pairs.mapM space.pairOf).map fun resolved =>
        resolved.foldl (fun slots pair => slots.set pair.1 (some pair.2)) slots) := by
  induction pairs generalizing slots with
  | nil => exact Attempt.gives_pure _
  | cons pair pairs ih =>
    rw [List.map_cons, attemptSlots, List.mapM_cons]
    have hpair := space.gives_attemptPair pair
    cases hresolved : space.pairOf pair with
    | error complaint => exact Attempt.gives_error_bind _ (hresolved ▸ hpair)
    | ok resolved =>
      have hindex : resolved.1 < slots.length := hslots ▸ (legal_of_pairOf hresolved).lt
      refine Attempt.gives_ok_bind (hresolved ▸ hpair) ?_
      refine Attempt.gives_check_bind (Checked.replace_eq_ok hindex _) ?_
      refine (ih (by simpa using hslots)).of_eq ?_
      cases pairs.mapM space.pairOf with
      | error complaint => rfl
      | ok rest => rfl

theorem gives_attemptSkip (space : Space) (args : List String) :
    (space.attemptSkip args).Gives (space.skipRuleOf args) := by
  refine Attempt.gives_check_bind (Checked.beforeComment_eq_ok args) ?_
  refine Attempt.gives_ite (fun _ => Attempt.gives_throw _) fun hcount => ?_
  have heven : (Text.beforeComment args).length % 2 = 0 := by omega
  have hlength : (List.replicate space.mutators.length (none : Option Int32)).length =
      space.mutators.length := List.length_replicate
  have hslots := space.gives_attemptSlots hlength (inPairs (Text.beforeComment args))
  rw [inPieces_eq heven]
  refine (Attempt.gives_bind hslots fun slots _ => Attempt.gives_pure (SkipRule.mk slots)).of_eq ?_
  cases (inPairs (Text.beforeComment args)).mapM space.pairOf with
  | error complaint => rfl
  | ok resolved => rfl

/-! ## Replacement rules -/

def attemptSide (space : Space) (allowed : Nat → Bool) :
    (taken : List Nat) → List (List String) → Attempt (List (Nat × Int32))
  | _, [] => pure []
  | taken, piece :: pieces => do
    let resolved ← space.attemptPair piece
    if resolved.1 ∈ taken then throw (.malformed .repeatedMutator)
    else if !allowed resolved.1 then throw (.malformed .targetNotOnLeft)
    else do
      let rest ← attemptSide space allowed (resolved.1 :: taken) pieces
      return resolved :: rest

def attemptReplacement (space : Space) (args : List String) : Attempt Replacement := do
  let args ← Attempt.check (Checked.beforeComment args)
  match args.findIdx? fun token => token == "to" with
  | none => throw (.malformed .missingTo)
  | some position => do
    let left ← Attempt.check (Checked.upTo args position)
    let right ← Attempt.check (Checked.onFrom args (position + 1))
    if left = [] ∨ left.length % 2 ≠ 0 then throw (.malformed .badPairsBeforeTo)
    else if right.length ≠ left.length then throw (.malformed .sidesDiffer)
    else do
      let sources ← space.attemptSide (fun _ => true) [] (inPieces left)
      let targets ← space.attemptSide (fun index => sources.any fun source => source.1 == index)
        [] (inPieces right)
      let rule := replacementOfSides sources targets
      if space.replacements.any fun other => other.pattern == rule.pattern then
        throw .duplicateReplacement
      else return rule

theorem gives_attemptSide (space : Space) (allowed : Nat → Bool) (taken : List Nat)
    (pairs : List (String × String)) :
    (space.attemptSide allowed taken (pairs.map fun pair => [pair.1, pair.2])).Gives
      (space.sideOf allowed taken pairs) := by
  induction pairs generalizing taken with
  | nil => exact Attempt.gives_pure _
  | cons pair pairs ih =>
    refine Attempt.gives_bind (space.gives_attemptPair pair) fun resolved _ => ?_
    refine Attempt.gives_ite (fun _ => Attempt.gives_throw _) fun _ => ?_
    refine Attempt.gives_ite (fun _ => Attempt.gives_throw _) fun _ => ?_
    exact Attempt.gives_bind (ih _) fun rest _ => Attempt.gives_pure _

/-- The position of a word cuts a list into what is in front of the word and what is after it. -/
theorem cut_of_findIdx? {args : List String} {word : String} {position : Nat}
    (hposition : args.findIdx? (fun token => token == word) = some position) :
    position < args.length ∧ args.take position = args.takeWhile (fun token => token != word) ∧
      args.drop (position + 1) = (args.dropWhile fun token => token != word).drop 1 := by
  obtain ⟨hlt, rfl⟩ := List.findIdx?_eq_some_iff_findIdx_eq.mp hposition
  have hword : (fun token => !(token != word)) = fun token => token == word := by
    funext token
    simp [bne]
  rw [List.takeWhile_eq_take_findIdx_not, List.dropWhile_eq_drop_findIdx_not, hword,
    List.drop_drop]
  exact ⟨hlt, rfl, rfl⟩

theorem gives_attemptReplacement (space : Space) (args : List String) :
    (space.attemptReplacement args).Gives (space.replacementOf args) := by
  refine Attempt.gives_check_bind (Checked.beforeComment_eq_ok args) ?_
  rw [replacementOf]
  cases hposition : (Text.beforeComment args).findIdx? fun token => token == "to" with
  | none =>
    have hto : "to" ∉ Text.beforeComment args := fun hmem => by
      simpa using List.findIdx?_eq_none_iff.mp hposition "to" hmem
    simpa [hto] using Attempt.gives_throw _
  | some position =>
    obtain ⟨hlt, hleft, hright⟩ := cut_of_findIdx? hposition
    have hto : "to" ∈ Text.beforeComment args := by
      obtain ⟨hlt, hword, -⟩ := List.findIdx?_eq_some_iff_getElem.mp hposition
      rw [← beq_iff_eq.mp hword]
      exact List.getElem_mem hlt
    dsimp only
    rw [if_neg (not_not_intro hto)]
    refine Attempt.gives_check_bind (Checked.upTo_eq_ok (Nat.le_of_lt hlt)) ?_
    refine Attempt.gives_check_bind (Checked.onFrom_eq_ok hlt) ?_
    rw [hleft, hright]
    refine Attempt.gives_ite (fun _ => Attempt.gives_throw _) fun hpairs => ?_
    refine Attempt.gives_ite (fun _ => Attempt.gives_throw _) fun hsame => ?_
    rw [not_or, not_not] at hpairs
    rw [not_not] at hsame
    rw [inPieces_eq hpairs.2, inPieces_eq (hsame ▸ hpairs.2), replacementOfPairs]
    refine Attempt.gives_bind (space.gives_attemptSide _ _ _) fun sources _ => ?_
    refine Attempt.gives_bind (space.gives_attemptSide _ _ _) fun targets _ => ?_
    exact Attempt.gives_ite (fun _ => Attempt.gives_throw _) fun _ => Attempt.gives_pure _

end Space

end Ubershader
