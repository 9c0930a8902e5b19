import Mathlib.Data.List.TakeWhile
import Ubershader.Directive
import Ubershader.Proofs.Machine.Declare
import Ubershader.Proofs.Roster.Represents

/-!
# Directives and commands by checked operations

A line is taken apart by cutting off its tokens one after the other, and a command is carried out
on a roster, which it asks for the place, the techniques and their stages by index. The outcome is
the meaning of the command on the draft that the roster represents, and there is no crash on the
way, unless a struct has become so large that the place of its next member is no number of 32 bits.
-/

namespace Ubershader

/-! ## Lines -/

namespace Checked

/-- The keyword of a line given by its tokens, and the tokens from the keyword on. -/
def keyword? : List String → Option (String × List String)
  | [] => none
  | first :: rest =>
    if first = "#" then
      match rest with
      | [] => none
      | word :: rest => some (word, word :: rest)
    else (Directive.remainder? "#" first).map fun word => (word, first :: rest)

def pragma (args : List String) : Checked Directive :=
  match args.head? with
  | none => .ok .plain
  | some word =>
    if word = "once" then .ok (.once (args.length == 1))
    else if word = "anki" then do
      let rest ← onFrom args 1
      return .command rest
    else .ok .plain

def directive (line : String) : Checked Directive :=
  if Directive.isMentioned line then
    match keyword? (Text.tokens line) with
    | none => .ok .plain
    | some (word, tokens) =>
      match Directive.remainder? "include" word with
      | some attached =>
        if Directive.startsLiteral attached then do
          let rest ← onFrom tokens 1
          return .inclusion (Directive.path? (Directive.literal attached rest))
        else .ok .plain
      | none =>
        if word = "pragma" then do
          let rest ← onFrom tokens 1
          pragma rest
        else .ok .plain
  else .ok .plain

theorem keyword?_eq (tokens : List String) :
    (∃ word first rest, keyword? tokens = some (word, first :: rest) ∧
      Directive.keyword? tokens = some (word, rest)) ∨
    keyword? tokens = none ∧ Directive.keyword? tokens = none := by
  cases tokens with
  | nil => exact .inr ⟨rfl, rfl⟩
  | cons first rest =>
    by_cases hhash : first = "#"
    · cases rest with
      | nil => exact .inr (by simp [keyword?, Directive.keyword?, hhash])
      | cons word rest =>
        exact .inl ⟨word, word, rest, by simp [keyword?, hhash], by
          simp [Directive.keyword?, hhash]⟩
    · cases hword : Directive.remainder? "#" first with
      | none => exact .inr (by simp [keyword?, Directive.keyword?, hhash, hword])
      | some word =>
        exact .inl ⟨word, first, rest, by simp [keyword?, hhash, hword], by
          simp [Directive.keyword?, hhash, hword]⟩

theorem onFrom_one_cons {α : Type} (a : α) (list : List α) : onFrom (a :: list) 1 = .ok list := by
  simp [onFrom]

theorem pragma_eq_ok (args : List String) : pragma args = .ok (Directive.ofPragma args) := by
  cases args with
  | nil => rfl
  | cons word args =>
    have halone : ((word :: args).length == 1) = args.isEmpty := by cases args <;> simp
    simp only [pragma, Directive.ofPragma, List.head?_cons, onFrom_one_cons, ok_bind, halone]
    split
    · rfl
    · split <;> rfl

/-- A line is never cut behind its end: tokens are cut off only after the first one was seen. -/
theorem directive_eq_ok (line : String) : directive line = .ok (Directive.ofLine line) := by
  rw [directive, Directive.ofLine]
  split
  · rw [Directive.ofTokens]
    obtain ⟨word, first, rest, hcut, hkeyword⟩ | ⟨hcut, hkeyword⟩ :=
      keyword?_eq (Text.tokens line)
    · rw [hcut, hkeyword]
      simp only [onFrom_one_cons, ok_bind, pure_eq, pragma_eq_ok]
      cases Directive.remainder? "include" word with
      | none => exact (apply_ite Except.ok _ _ _).symm
      | some attached => exact (apply_ite Except.ok _ _ _).symm
    · rw [hcut, hkeyword]
  · rfl

end Checked

theorem Text.beforeComment_beforeComment (args : List String) :
    beforeComment (beforeComment args) = beforeComment args :=
  List.takeWhile_idem

/-! ## Structs -/

/-- The next member of the open struct, if there is one, has a place below 2³². -/
def Draft.Addressable (draft : Draft) : Prop :=
  ∀ struct, draft.openStruct = some struct → struct.struct.nextOffset < 2 ^ 32

instance (draft : Draft) : Decidable draft.Addressable :=
  inferInstanceAs (Decidable (∀ struct ∈ draft.openStruct, struct.struct.nextOffset < 2 ^ 32))

namespace PackedStruct

def attemptOffset (struct : PackedStruct) : Checked Nat :=
  match struct.members.getLast? with
  | none => .ok 0
  | some member => Checked.add member.offset member.type.size

def attemptAdd (struct : PackedStruct) (typeToken name : String) : Attempt (List Edit) :=
  match MemberType.ofToken? typeToken with
  | none => throw (.malformed .unknownMemberType)
  | some type =>
    if !Text.isIdentifier name then throw (.malformed .badMemberName)
    else if struct.hasMember name then throw (.malformed .repeatedMember)
    else do
      let offset ← Attempt.check struct.attemptOffset
      let member := ⟨name, type, offset⟩
      return .addMember member ::
        (struct.memberLines member typeToken).map fun text => .append (.expansion text)

theorem attemptOffset_eq_ok {struct : PackedStruct} (hsize : struct.nextOffset < 2 ^ 32) :
    struct.attemptOffset = .ok struct.nextOffset := by
  cases hlast : struct.members.getLast? with
  | none => simp [attemptOffset, nextOffset, hlast]
  | some member =>
    have hnext : struct.nextOffset = member.offset + member.type.size := by
      simp [nextOffset, hlast, Member.stop]
    rw [hnext] at hsize ⊢
    rw [attemptOffset, hlast]
    exact Checked.add_eq_ok hsize

theorem gives_attemptAdd {struct : PackedStruct} (hsize : struct.nextOffset < 2 ^ 32)
    (typeToken name : String) :
    (struct.attemptAdd typeToken name).Gives (Command.addMember struct typeToken name) := by
  rw [attemptAdd, Command.addMember]
  cases MemberType.ofToken? typeToken with
  | none => exact Attempt.gives_throw _
  | some type =>
    refine Attempt.gives_ite (fun _ => Attempt.gives_throw _) fun _ => ?_
    refine Attempt.gives_ite (fun _ => Attempt.gives_throw _) fun _ => ?_
    exact Attempt.gives_check_bind (attemptOffset_eq_ok hsize) (Attempt.gives_pure _)

end PackedStruct

namespace Roster

def outsideStruct (roster : Roster) (attempt : Attempt (List Edit)) : Attempt (List Edit) :=
  if roster.openStruct.isSome then throw (.struct .directiveInside) else attempt

def attemptOpen (roster : Roster) (site : Location) (technique : String) (stage : Stage)
    (active : MutatorMask) : Attempt (List Edit) :=
  if roster.place ≠ .common then throw (.block .alreadyOpen)
  else
    match roster.entries.findIdx? fun entry => entry.name == technique with
    | none => return [.openBlock technique stage active site]
    | some index => do
      let entry ← Attempt.check (Checked.element roster.entries index)
      if entry.stages.contains stage then throw (.block .repeatedStage)
      else return [.openBlock technique stage active site]

def attemptStart (settings : Settings) (roster : Roster) (site : Location) (args : List String) :
    Attempt (List Edit) := do
  match ← Attempt.check (Checked.beforeComment args) with
  | [] => throw (.malformed .missingStartStage)
  | token :: args =>
    match Stage.ofToken? token with
    | none => throw (.malformed .unknownStage)
    | some stage =>
      let (technique, args) := Command.techniqueName args
      if !settings.supports stage then throw (.malformed .unsupportedStage)
      else if !Text.isIdentifier technique then throw (.malformed .badTechniqueName)
      else roster.space.attemptActive args >>= roster.attemptOpen site technique stage

def attemptClose (roster : Roster) (technique : String) (stage : Stage) : Attempt (List Edit) :=
  match roster.place with
  | .common => throw (.block .endWithoutStart)
  | .entry index openStage => do
    let entry ← Attempt.check (Checked.element roster.entries index)
    if entry.name = technique ∧ openStage = stage then return [.closeBlock]
    else throw (.block .endMismatch)

def attemptEnd (roster : Roster) (args : List String) : Attempt (List Edit) := do
  match ← Attempt.check (Checked.beforeComment args) with
  | [] => throw (.malformed .missingEndStage)
  | token :: args =>
    match Stage.ofToken? token with
    | none => throw (.malformed .unknownStage)
    | some stage =>
      match args with
      | [] => roster.attemptClose Command.unnamedTechnique stage
      | [technique] => roster.attemptClose technique stage
      | _ => throw (.malformed .tooManyEndArguments)

def attemptMember (roster : Roster) (args : List String) : Attempt (List Edit) :=
  match roster.openStruct with
  | none => throw (.struct .memberOutside)
  | some struct => do
    match ← Attempt.check (Checked.beforeComment args) with
    | [typeToken, name] => struct.struct.attemptAdd typeToken name
    | _ => throw (.malformed .memberArguments)

def withoutBlocks (roster : Roster) : Draft where
  space := roster.space
  common := roster.common
  openStruct := roster.openStruct
  library := roster.library
  rayType := roster.rayType
  sixteenBit := roster.sixteenBit

/-- The edits of a command with a given name. The commands that neither index nor shift are
carried out on what is known apart from the blocks. -/
def attemptNamed (settings : Settings) (roster : Roster) (site : Location) (args : List String)
    (name : String) : Attempt (List Edit) :=
  if name = "mutator" then
    roster.outsideStruct do
      let mutator ← roster.space.attemptMutator args
      return [.addMutator mutator]
  else if name = "technique_start" then
    roster.outsideStruct (roster.attemptStart settings site args)
  else if name = "technique_end" then roster.outsideStruct (roster.attemptEnd args)
  else if name = "skip_mutation" then
    roster.outsideStruct do
      let rule ← roster.space.attemptSkip args
      return [.addSkip rule]
  else if name = "rewrite_mutation" then
    roster.outsideStruct do
      let rule ← roster.space.attemptReplacement args
      return [.addReplacement rule]
  else if name = "member" then roster.attemptMember args
  else do
    let args ← Attempt.check (Checked.beforeComment args)
    Attempt.decided (Command.named settings roster.withoutBlocks site args name)

def attempt (settings : Settings) (roster : Roster) (site : Location) :
    List String → Attempt (List Edit)
  | [] => throw (.malformed .missingCommand)
  | name :: args => roster.attemptNamed settings site args name

variable {settings : Settings} {roster : Roster} {draft : Draft}

theorem Represents.gives_outsideStruct (hroster : roster.Represents draft)
    {attempt : Attempt (List Edit)} {meaning : Command.Meaning} (hattempt : attempt.Gives meaning) :
    (roster.outsideStruct attempt).Gives (Command.outsideStruct draft meaning) := by
  rw [outsideStruct, Command.outsideStruct, hroster.openStruct]
  exact Attempt.gives_ite (fun _ => Attempt.gives_throw _) fun _ => hattempt

/-- A declaration gives one edit, which adds what is declared. -/
theorem Represents.gives_declaration (hroster : roster.Represents draft) {α : Type}
    {attempt : Attempt α} {declaration : Except Complaint α} (hattempt : attempt.Gives declaration)
    (toEdit : α → Edit) :
    (roster.outsideStruct (attempt >>= fun a => pure [toEdit a])).Gives
      (Command.outsideStruct draft (declaration.map fun a => [toEdit a])) := by
  refine hroster.gives_outsideStruct ?_
  refine (Attempt.gives_bind hattempt fun a _ => Attempt.gives_pure [toEdit a]).of_eq ?_
  cases declaration with
  | error complaint => rfl
  | ok a => rfl

theorem Represents.place_eq_common_iff (hroster : roster.Represents draft) :
    roster.place = .common ↔ draft.openBlock = none := by
  have hblock := hroster.block
  cases hopen : draft.openBlock with
  | none =>
    rw [hopen] at hblock
    simp [hblock.1]
  | some block =>
    rw [hopen] at hblock
    obtain ⟨-, index, entry, hplace, -⟩ := hblock
    simp [hplace]

/-- A technique is found in the table with the stages of its blocks, or not at all if it has no
block. -/
theorem Represents.gives_attemptOpen (hroster : roster.Represents draft) (site : Location)
    (technique : String) (stage : Stage) (active : MutatorMask) :
    (roster.attemptOpen site technique stage active).Gives
      (Command.openBlock draft site technique stage active) := by
  rw [attemptOpen, Command.openBlock]
  cases hopen : draft.openBlock with
  | some block =>
    have hplace : roster.place ≠ .common := by simp [hroster.place_eq_common_iff, hopen]
    rw [if_pos hplace]
    exact Attempt.gives_throw _
  | none =>
    rw [if_neg (not_not_intro (hroster.place_eq_common_iff.mpr hopen))]
    rw [if_neg (by simp)]
    cases hindex : roster.entries.findIdx? fun entry => entry.name == technique with
    | none =>
      have hfresh : draft.hasBlock technique stage = false := by
        rw [← Draft.isSome_block? hopen,
          Draft.block?_eq_none_of_not_mem_names (hroster.not_mem_names hindex)]
        rfl
      rw [hfresh]
      exact Attempt.gives_pure _
    | some index =>
      obtain ⟨entry, hentry, rfl⟩ := exists_entry_of_findIdx? hindex
      have hstages := (hroster.entries entry (List.mem_of_getElem? hentry)).contains_eq stage
      rw [Draft.isSome_block? hopen] at hstages
      refine Attempt.gives_check_bind (Checked.element_eq_ok hentry) ?_
      rw [hstages]
      exact Attempt.gives_ite (fun _ => Attempt.gives_throw _) fun _ => Attempt.gives_pure _

theorem Represents.gives_attemptStart (hroster : roster.Represents draft)
    (hspace : draft.space.WellFormed) (site : Location) (args : List String) :
    (roster.attemptStart settings site args).Gives
      (Command.techniqueStart settings draft site args) := by
  refine Attempt.gives_check_bind (Checked.beforeComment_eq_ok args) ?_
  rw [Command.techniqueStart]
  cases Text.beforeComment args with
  | nil => exact Attempt.gives_throw _
  | cons token args =>
    dsimp only
    cases Stage.ofToken? token with
    | none => exact Attempt.gives_throw _
    | some stage =>
      dsimp only
      refine Attempt.gives_ite (fun _ => Attempt.gives_throw _) fun _ => ?_
      refine Attempt.gives_ite (fun _ => Attempt.gives_throw _) fun _ => ?_
      rw [hroster.space]
      exact Attempt.gives_bind (Space.gives_attemptActive hspace _) fun active _ =>
        hroster.gives_attemptOpen site _ stage active

/-- The open block is in the table at the index of its place. -/
theorem Represents.gives_attemptClose (hroster : roster.Represents draft) (technique : String)
    (stage : Stage) :
    (roster.attemptClose technique stage).Gives (Command.closeBlock draft technique stage) := by
  have hblock := hroster.block
  rw [attemptClose, Command.closeBlock]
  cases hopen : draft.openBlock with
  | none =>
    rw [hopen] at hblock
    rw [hblock.1]
    exact Attempt.gives_throw _
  | some block =>
    rw [hopen] at hblock
    obtain ⟨-, index, entry, hplace, hentry, hname, -⟩ := hblock
    rw [hplace]
    refine Attempt.gives_check_bind (Checked.element_eq_ok hentry) ?_
    rw [hname]
    exact Attempt.gives_ite (fun _ => Attempt.gives_pure _) fun _ => Attempt.gives_throw _

theorem Represents.gives_attemptEnd (hroster : roster.Represents draft) (args : List String) :
    (roster.attemptEnd args).Gives (Command.techniqueEnd draft args) := by
  refine Attempt.gives_check_bind (Checked.beforeComment_eq_ok args) ?_
  rw [Command.techniqueEnd]
  cases Text.beforeComment args with
  | nil => exact Attempt.gives_throw _
  | cons token args =>
    dsimp only
    cases Stage.ofToken? token with
    | none => exact Attempt.gives_throw _
    | some stage =>
      obtain _ | ⟨technique, _ | ⟨_, _⟩⟩ := args
      · exact hroster.gives_attemptClose _ stage
      · exact hroster.gives_attemptClose technique stage
      · exact Attempt.gives_throw _

theorem Represents.gives_attemptMember (hroster : roster.Represents draft)
    (hsize : draft.Addressable) (args : List String) :
    (roster.attemptMember args).Gives (Command.member draft args) := by
  rw [attemptMember, Command.member, hroster.openStruct]
  cases hopen : draft.openStruct with
  | none => exact Attempt.gives_throw _
  | some struct =>
    refine Attempt.gives_check_bind (Checked.beforeComment_eq_ok args) ?_
    dsimp only
    obtain _ | ⟨typeToken, _ | ⟨name, _ | ⟨_, _⟩⟩⟩ := Text.beforeComment args
    · exact Attempt.gives_throw _
    · exact Attempt.gives_throw _
    · exact PackedStruct.gives_attemptAdd (hsize struct hopen) typeToken name
    · exact Attempt.gives_throw _

/-- The other commands look at nothing that is kept of blocks, and drop comments themselves. -/
theorem Represents.named_withoutBlocks (hroster : roster.Represents draft) (site : Location)
    (args : List String) {name : String} (hmutator : name ≠ "mutator")
    (hstart : name ≠ "technique_start") (hend : name ≠ "technique_end")
    (hskip : name ≠ "skip_mutation") (hrewrite : name ≠ "rewrite_mutation")
    (hmember : name ≠ "member") :
    Command.named settings roster.withoutBlocks site (Text.beforeComment args) name =
      Command.named settings draft site args name := by
  simp only [Command.named, if_neg hmutator, if_neg hstart, if_neg hend, if_neg hskip,
    if_neg hrewrite, if_neg hmember, Command.outsideStruct, Command.library, Command.rayType,
    Command.structStart, Command.structEnd, Command.sixteenBit,
    Text.beforeComment_beforeComment, withoutBlocks, hroster.openStruct, hroster.library,
    hroster.rayType]

/-- A command that is carried out on a roster does not crash, and it comes to what it means on the
draft that the roster represents. -/
theorem Represents.gives_attempt (hroster : roster.Represents draft) (hdraft : draft.WellFormed)
    (hsize : draft.Addressable) (site : Location) (args : List String) :
    (roster.attempt settings site args).Gives (Command.meaning settings draft site args) := by
  cases args with
  | nil => exact Attempt.gives_throw _
  | cons name args =>
    rw [attempt, attemptNamed, Command.meaning]
    by_cases hmutator : name = "mutator"
    · subst hmutator
      rw [if_pos rfl, hroster.space]
      exact hroster.gives_declaration (draft.space.gives_attemptMutator args) .addMutator
    by_cases hstart : name = "technique_start"
    · subst hstart
      rw [if_neg hmutator, if_pos rfl]
      exact hroster.gives_outsideStruct (hroster.gives_attemptStart hdraft.space site args)
    by_cases hend : name = "technique_end"
    · subst hend
      rw [if_neg hmutator, if_neg hstart, if_pos rfl]
      exact hroster.gives_outsideStruct (hroster.gives_attemptEnd args)
    by_cases hskip : name = "skip_mutation"
    · subst hskip
      rw [if_neg hmutator, if_neg hstart, if_neg hend, if_pos rfl, hroster.space]
      exact hroster.gives_declaration (draft.space.gives_attemptSkip args) .addSkip
    by_cases hrewrite : name = "rewrite_mutation"
    · subst hrewrite
      rw [if_neg hmutator, if_neg hstart, if_neg hend, if_neg hskip, if_pos rfl, hroster.space]
      exact hroster.gives_declaration (draft.space.gives_attemptReplacement args) .addReplacement
    by_cases hmember : name = "member"
    · subst hmember
      rw [if_neg hmutator, if_neg hstart, if_neg hend, if_neg hskip, if_neg hrewrite, if_pos rfl]
      exact hroster.gives_attemptMember hsize args
    · rw [if_neg hmutator, if_neg hstart, if_neg hend, if_neg hskip, if_neg hrewrite,
        if_neg hmember]
      refine Attempt.gives_check_bind (Checked.beforeComment_eq_ok args) ?_
      rw [hroster.named_withoutBlocks site args hmutator hstart hend hskip hrewrite hmember]
      exact Attempt.gives_decided _

end Roster

end Ubershader
