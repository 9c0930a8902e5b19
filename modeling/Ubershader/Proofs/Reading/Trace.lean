import Ubershader.Proofs.Runs
import Ubershader.Reading.Journal

/-!
# Traces

The edits of a reading are not arbitrary: a block is opened only when none is open, a mutator is
added only if the space accepts its declaration, and so on. `Draft.Allows` says once, edit by
edit, what may be done to a draft, and a *trace* is a list of edits each of which is allowed by
the draft that the ones before it add up to.

The edits in the journal of every reading are a trace, also when the reading ends in a fault. An
invariant of drafts is therefore an induction on traces with one case per kind of edit, and no
proof about a reading has to look at commands or at the walk again.
-/

namespace Ubershader

/-- The edits that a draft can undergo in a reading with given settings. An invariant of drafts has
to be looked at for these edits only, one kind after the other. -/
inductive Draft.Allows (settings : Settings) (draft : Draft) : Edit → Prop
  | append (line : Line) : Allows settings draft (.append line)
  | guard (path : String) : Allows settings draft (.guard path)
  | openBlock {technique : String} {stage : Stage} {active : MutatorMask} {args : List String}
      (noStruct : draft.openStruct = none) (noBlock : draft.openBlock = none)
      (fresh : draft.hasBlock technique stage = false)
      (identifier : Text.isIdentifier technique = true)
      (supported : settings.supports stage = true)
      (mask : Command.activeMask draft.space args = .ok active) (site : Location) :
      Allows settings draft (.openBlock technique stage active site)
  | closeBlock {block : OpenBlock} (noStruct : draft.openStruct = none)
      (isOpen : draft.openBlock = some block) : Allows settings draft .closeBlock
  | addMutator {mutator : Mutator} {args : List String} (noStruct : draft.openStruct = none)
      (declared : draft.space.mutatorOf args = .ok mutator) :
      Allows settings draft (.addMutator mutator)
  | addSkip {rule : SkipRule} {args : List String} (noStruct : draft.openStruct = none)
      (declared : draft.space.skipRuleOf args = .ok rule) : Allows settings draft (.addSkip rule)
  | addReplacement {rule : Replacement} {args : List String} (noStruct : draft.openStruct = none)
      (declared : draft.space.replacementOf args = .ok rule) :
      Allows settings draft (.addReplacement rule)
  | openStruct {name : String} (noStruct : draft.openStruct = none)
      (identifier : Text.isIdentifier name = true) (site : Location) :
      Allows settings draft (.openStruct name site)
  | addMember {struct : OpenStruct} {name : String} (isOpen : draft.openStruct = some struct)
      (identifier : Text.isIdentifier name = true)
      (fresh : struct.struct.hasMember name = false) (type : MemberType) :
      Allows settings draft (.addMember (struct.struct.nextMember name type))
  | closeStruct {struct : OpenStruct} (isOpen : draft.openStruct = some struct)
      (inhabited : struct.struct.members ≠ []) : Allows settings draft .closeStruct
  | setLibrary {name : String} (noStruct : draft.openStruct = none)
      (unset : draft.library = none) (named : name ≠ "") :
      Allows settings draft (.setLibrary name)
  | setRayType {rayType : UInt32} (noStruct : draft.openStruct = none)
      (unset : draft.rayType = none) (small : rayType ≤ Command.maxRayType) :
      Allows settings draft (.setRayType rayType)
  | allowSixteenBit : Allows settings draft .allowSixteenBit

namespace Directive

theorem mem_of_keyword? {tokens rest : List String} {word : String}
    (hkeyword : keyword? tokens = some (word, rest)) : ∀ token ∈ rest, token ∈ tokens := by
  unfold keyword? at hkeyword
  split at hkeyword
  · cases hkeyword
  · split at hkeyword
    · split at hkeyword
      · cases hkeyword
      · cases hkeyword
        simp +contextual
    · obtain ⟨word', -, hpair⟩ := Option.map_eq_some_iff.mp hkeyword
      cases hpair
      simp +contextual

/-- The arguments of a command are tokens of its line, so none of them is empty. -/
theorem ne_empty_of_ofLine {line : String} {args : List String}
    (hline : ofLine line = .command args) : ∀ arg ∈ args, arg ≠ "" := by
  intro arg harg
  refine Text.ne_empty_of_mem_tokens (?_ : arg ∈ Text.tokens line)
  rw [ofLine] at hline
  split at hline
  · rw [ofTokens] at hline
    split at hline
    · cases hline
    · next word rest hkeyword =>
      refine mem_of_keyword? hkeyword arg ?_
      split at hline
      · split at hline <;> cases hline
      · split at hline
        · cases rest with
          | nil => cases hline
          | cons second rest =>
            rw [ofPragma] at hline
            split at hline
            · cases hline
            · split at hline
              · cases hline
                exact List.mem_cons_of_mem _ harg
              · cases hline
        · cases hline
  · cases hline

end Directive

def Edit.line? : Edit → Option Line
  | append line => some line
  | _ => none

namespace Command

/-- What a command comes to: one edit that the draft allows and that appends no line, and the
lines of an expansion. -/
def IsEffect (settings : Settings) (draft : Draft) (edits : List Edit) : Prop :=
  ∃ (edit : Edit) (texts : List String),
    edits = edit :: texts.map (fun text => .append (.expansion text)) ∧
      edit.line? = none ∧ draft.Allows settings edit

variable {settings : Settings} {draft : Draft} {edits : List Edit}

theorem isEffect_singleton {edit : Edit} (hline : edit.line? = none)
    (hallows : draft.Allows settings edit) : IsEffect settings draft [edit] :=
  ⟨edit, [], rfl, hline, hallows⟩

theorem of_outsideStruct {meaning : Meaning} (hmeaning : outsideStruct draft meaning = .ok edits) :
    draft.openStruct = none ∧ meaning = .ok edits := by
  rw [outsideStruct] at hmeaning
  split at hmeaning
  · cases hmeaning
  · next hstruct => exact ⟨by simpa using hstruct, hmeaning⟩

/-- A declaration adds what the space makes of the arguments. -/
theorem isEffect_of_map {α : Type} {declaration : Except Complaint α} {toEdit : α → Edit}
    (hmeaning : outsideStruct draft (declaration.map fun a => [toEdit a]) = .ok edits)
    (hline : ∀ a, (toEdit a).line? = none)
    (hallows : ∀ a, draft.openStruct = none → declaration = .ok a →
      draft.Allows settings (toEdit a)) :
    IsEffect settings draft edits := by
  obtain ⟨hstruct, hmap⟩ := of_outsideStruct hmeaning
  cases declaration with
  | error complaint => cases hmap
  | ok a =>
    cases hmap
    exact isEffect_singleton (hline a) (hallows a hstruct rfl)

theorem isEffect_techniqueStart {site : Location} {args : List String}
    (hstruct : draft.openStruct = none)
    (hmeaning : techniqueStart settings draft site args = .ok edits) :
    IsEffect settings draft edits := by
  rw [techniqueStart] at hmeaning
  split at hmeaning
  · cases hmeaning
  · next token rest _ =>
    split at hmeaning
    · cases hmeaning
    · next stage _ =>
      dsimp only at hmeaning
      split at hmeaning
      · cases hmeaning
      · next hsupports =>
        split at hmeaning
        · cases hmeaning
        · next hidentifier =>
          obtain ⟨active, hmask, hopen⟩ := exists_of_bind_eq_ok hmeaning
          rw [openBlock] at hopen
          split at hopen
          · cases hopen
          · next hblock =>
            split at hopen
            · cases hopen
            · next hfresh =>
              cases hopen
              exact isEffect_singleton rfl (.openBlock hstruct (by simpa using hblock)
                (by simpa using hfresh) (by simpa using hidentifier) (by simpa using hsupports)
                hmask site)

theorem isEffect_closeBlock {technique : String} {stage : Stage}
    (hstruct : draft.openStruct = none)
    (hmeaning : closeBlock draft technique stage = .ok edits) :
    IsEffect settings draft edits := by
  rw [closeBlock] at hmeaning
  split at hmeaning
  · cases hmeaning
  · next block hblock =>
    split at hmeaning
    · cases hmeaning
      exact isEffect_singleton rfl (.closeBlock hstruct hblock)
    · cases hmeaning

theorem isEffect_techniqueEnd {args : List String} (hstruct : draft.openStruct = none)
    (hmeaning : techniqueEnd draft args = .ok edits) : IsEffect settings draft edits := by
  rw [techniqueEnd] at hmeaning
  split at hmeaning
  · cases hmeaning
  · split at hmeaning
    · cases hmeaning
    · split at hmeaning
      · exact isEffect_closeBlock hstruct hmeaning
      · exact isEffect_closeBlock hstruct hmeaning
      · cases hmeaning

theorem isEffect_library {args : List String} (hargs : ∀ arg ∈ args, arg ≠ "")
    (hstruct : draft.openStruct = none) (hmeaning : library draft args = .ok edits) :
    IsEffect settings draft edits := by
  rw [library] at hmeaning
  split at hmeaning
  · next name hname =>
    split at hmeaning
    · cases hmeaning
    · next hunset =>
      cases hmeaning
      have hmem : name ∈ args := by
        refine (List.takeWhile_sublist _).subset (?_ : name ∈ Text.beforeComment args)
        simp [hname]
      exact isEffect_singleton rfl (.setLibrary hstruct (by simpa using hunset) (hargs name hmem))
  · cases hmeaning

theorem isEffect_rayType {args : List String} (hstruct : draft.openStruct = none)
    (hmeaning : rayType draft args = .ok edits) : IsEffect settings draft edits := by
  rw [rayType] at hmeaning
  split at hmeaning
  · split at hmeaning
    · cases hmeaning
    · split at hmeaning
      · cases hmeaning
      · next hunset =>
        split at hmeaning
        · cases hmeaning
        · next hsmall =>
          cases hmeaning
          exact isEffect_singleton rfl (.setRayType hstruct (by simpa using hunset)
            (UInt32.not_lt.mp hsmall))
  · cases hmeaning

theorem isEffect_structStart {site : Location} {args : List String}
    (hstruct : draft.openStruct = none) (hmeaning : structStart site args = .ok edits) :
    IsEffect settings draft edits := by
  rw [structStart] at hmeaning
  split at hmeaning
  · next name _ =>
    split at hmeaning
    · next hidentifier =>
      cases hmeaning
      exact ⟨.openStruct name site, [PackedStruct.openingLine ⟨name, []⟩], rfl, rfl,
        .openStruct hstruct hidentifier site⟩
    · cases hmeaning
  · cases hmeaning

theorem isEffect_member {args : List String} (hmeaning : member draft args = .ok edits) :
    IsEffect settings draft edits := by
  rw [member] at hmeaning
  split at hmeaning
  · cases hmeaning
  · next struct hopen =>
    split at hmeaning
    · next typeToken name _ =>
      rw [addMember] at hmeaning
      split at hmeaning
      · cases hmeaning
      · next type _ =>
        split at hmeaning
        · cases hmeaning
        · next hidentifier =>
          split at hmeaning
          · cases hmeaning
          · next hfresh =>
            cases hmeaning
            exact ⟨_, struct.struct.memberLines _ typeToken, rfl, rfl,
              .addMember hopen (by simpa using hidentifier) (by simpa using hfresh) type⟩
    · cases hmeaning

theorem isEffect_structEnd {args : List String} (hmeaning : structEnd draft args = .ok edits) :
    IsEffect settings draft edits := by
  rw [structEnd] at hmeaning
  split at hmeaning
  · cases hmeaning
  · next struct hopen =>
    split at hmeaning
    · cases hmeaning
    · split at hmeaning
      · cases hmeaning
      · next hmembers =>
        cases hmeaning
        exact ⟨.closeStruct, struct.struct.closingLines, rfl, rfl, .closeStruct hopen hmembers⟩

theorem isEffect_sixteenBit {args : List String} (hmeaning : sixteenBit args = .ok edits) :
    IsEffect settings draft edits := by
  rw [sixteenBit] at hmeaning
  split at hmeaning
  · cases hmeaning
  · cases hmeaning
    exact isEffect_singleton rfl .allowSixteenBit

/-- Every command that is carried out makes one edit that the draft allows and then appends the
lines of an expansion, if it has any. -/
theorem isEffect_of_meaning {site : Location} {args : List String} (hargs : ∀ arg ∈ args, arg ≠ "")
    (hmeaning : meaning settings draft site args = .ok edits) :
    IsEffect settings draft edits := by
  cases args with
  | nil => cases hmeaning
  | cons name args =>
    rw [meaning, named] at hmeaning
    by_cases hname : name = "mutator"
    · rw [if_pos hname] at hmeaning
      exact isEffect_of_map hmeaning (fun _ => rfl) fun _ => .addMutator
    rw [if_neg hname] at hmeaning
    by_cases hname : name = "technique_start"
    · rw [if_pos hname] at hmeaning
      obtain ⟨hstruct, hstart⟩ := of_outsideStruct hmeaning
      exact isEffect_techniqueStart hstruct hstart
    rw [if_neg hname] at hmeaning
    by_cases hname : name = "technique_end"
    · rw [if_pos hname] at hmeaning
      obtain ⟨hstruct, hend⟩ := of_outsideStruct hmeaning
      exact isEffect_techniqueEnd hstruct hend
    rw [if_neg hname] at hmeaning
    by_cases hname : name = "skip_mutation"
    · rw [if_pos hname] at hmeaning
      exact isEffect_of_map hmeaning (fun _ => rfl) fun _ => .addSkip
    rw [if_neg hname] at hmeaning
    by_cases hname : name = "rewrite_mutation"
    · rw [if_pos hname] at hmeaning
      exact isEffect_of_map hmeaning (fun _ => rfl) fun _ => .addReplacement
    rw [if_neg hname] at hmeaning
    by_cases hname : name = "library"
    · rw [if_pos hname] at hmeaning
      obtain ⟨hstruct, hlibrary⟩ := of_outsideStruct hmeaning
      exact isEffect_library (fun arg harg => hargs arg (List.mem_cons_of_mem _ harg)) hstruct
        hlibrary
    rw [if_neg hname] at hmeaning
    by_cases hname : name = "ray_type"
    · rw [if_pos hname] at hmeaning
      obtain ⟨hstruct, hrayType⟩ := of_outsideStruct hmeaning
      exact isEffect_rayType hstruct hrayType
    rw [if_neg hname] at hmeaning
    by_cases hname : name = "struct"
    · rw [if_pos hname] at hmeaning
      obtain ⟨hstruct, hstart⟩ := of_outsideStruct hmeaning
      exact isEffect_structStart hstruct hstart
    rw [if_neg hname] at hmeaning
    by_cases hname : name = "member"
    · rw [if_pos hname] at hmeaning
      exact isEffect_member hmeaning
    rw [if_neg hname] at hmeaning
    by_cases hname : name = "struct_end"
    · rw [if_pos hname] at hmeaning
      exact isEffect_structEnd hmeaning
    rw [if_neg hname] at hmeaning
    by_cases hname : name = "16bit"
    · rw [if_pos hname] at hmeaning
      exact isEffect_sixteenBit hmeaning
    rw [if_neg hname] at hmeaning
    cases hmeaning

end Command

/-- A list of edits, each of which is allowed by the draft that the ones before it add up to. -/
inductive Trace (settings : Settings) : List Edit → Prop
  | nil : Trace settings []
  | snoc {edits : List Edit} {edit : Edit} (trace : Trace settings edits)
      (allows : (({} : Draft).applyAll edits).Allows settings edit) :
      Trace settings (edits ++ [edit])

namespace Trace

variable {settings : Settings} {edits : List Edit}

theorem append_lines (trace : Trace settings edits) (lines : List Line) :
    Trace settings (edits ++ lines.map Edit.append) := by
  induction lines generalizing edits with
  | nil => simpa using trace
  | cons line lines ih => simpa using ih (trace.snoc (.append line))

theorem append_command {site : Location} {args : List String} {more : List Edit}
    (trace : Trace settings edits) (hargs : ∀ arg ∈ args, arg ≠ "")
    (hmeaning : Command.meaning settings (({} : Draft).applyAll edits) site args = .ok more) :
    Trace settings (edits ++ more) := by
  obtain ⟨edit, texts, rfl, -, hallows⟩ := Command.isEffect_of_meaning hargs hmeaning
  simpa [Function.comp_def] using (trace.snoc hallows).append_lines (texts.map Line.expansion)

/-- A property of drafts that holds at the start and is kept by every edit that is allowed holds
after every trace. -/
theorem invariant (trace : Trace settings edits) {property : Draft → Prop} (start : property {})
    (step : ∀ draft edit, draft.Allows settings edit → property draft →
      property (draft.apply edit)) : property (({} : Draft).applyAll edits) := by
  induction trace with
  | nil => exact start
  | snoc _ hallows ih => simpa using step _ _ hallows ih

end Trace

namespace Session

variable {σ κ : Type}

/-- The journal of a session holds a trace, and its draft is what that trace adds up to. -/
structure Traced (settings : Settings) (session : Session σ κ) : Prop where
  draft : session.draft = ({} : Draft).applyAll session.edits
  trace : Trace settings session.edits

theorem traced_performAll {settings : Settings} {session : Session σ κ} {more : List Edit}
    (traced : session.Traced settings) (trace : Trace settings (session.edits ++ more)) :
    ((Walk.performAll more).endSession session).Traced settings where
  draft := by
    rw [edits_performAll, Walk.endSession_performAll, traced.draft, Draft.applyAll_append]
  trace := by
    rw [edits_performAll]
    exact trace

/-- Being traced is kept by every step of a walk, so a walk only ever adds to a trace. -/
theorem stepRelation_traced (settings : Settings) (provider : Provider σ κ) :
    StepRelation settings provider
      fun earlier later => earlier.Traced settings → later.Traced settings where
  refl _ traced := traced
  trans hfirst hsecond traced := hsecond (hfirst traced)
  record event _ hedit session traced := by
    have hedits : ((Walk.record event).endSession session).edits = session.edits := by
      simp [edits, hedit]
    exact ⟨by rw [hedits]; exact traced.draft, by rw [hedits]; exact traced.trace⟩
  append line session traced :=
    traced_performAll traced (traced.trace.snoc (.append line))
  guard path session traced := by
    refine traced_performAll traced ?_
    simpa using ((traced.trace.snoc (.append (.guardOpen path))).snoc
      (.append (.guardDefine path))).snoc (.guard path)
  command session site args edits hline hmeaning traced :=
    traced_performAll traced (traced.trace.append_command
      (Directive.ne_empty_of_ofLine hline) (traced.draft ▸ hmeaning))
  resolve path context session traced := by
    have hedits : ((Walk.resolve provider path context).endSession session).edits =
        session.edits := by
      simp [Walk.resolve, edits, Event.edit?]
    exact ⟨by rw [hedits]; simpa [Walk.resolve] using traced.draft,
      by rw [hedits]; exact traced.trace⟩
  fetch path depth session traced := by
    have hedits : ((Walk.fetch provider path depth).endSession session).edits =
        session.edits := by
      simp [Walk.fetch, edits, Event.edit?]
    exact ⟨by rw [hedits]; simpa [Walk.fetch] using traced.draft,
      by rw [hedits]; exact traced.trace⟩

end Session

section

variable {σ κ : Type} (settings : Settings) (provider : Provider σ κ) (entry : String)
  (context : κ) (world : σ)

/-- The edits of every reading are a trace. -/
theorem trace_read : Trace settings (read settings provider entry context world).session.edits := by
  rw [session_read]
  exact ((Session.stepRelation_traced settings provider).respects_visit _ _ _ _
    { world := world } ⟨rfl, .nil⟩).trace

end

end Ubershader
