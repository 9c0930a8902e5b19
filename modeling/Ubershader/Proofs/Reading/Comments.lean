import Ubershader.Proofs.Directive
import Ubershader.Proofs.Reading.Course
import Ubershader.Proofs.Tokens
import Ubershader.Provider.Catalog

/-!
# Comments behind directives

A comment behind a blank adds tokens at the end of a line, of which the first one opens a comment.
Inclusions and commands look at the tokens in front of a comment only, so such a line is accepted if
it was accepted without the comment, and does the same. The line that asks for an include guard is
the one exception: it may have no other token at all, and is refused.

Two sessions are compared up to the texts of lines that are kept for later complaints, because those
do show a comment (`Session.untexted`).
-/

namespace Ubershader

/-! ## Directives with more tokens -/

namespace Directive

variable {line comment : String} {tokens rest more : List String} {word : String}

/-- What becomes of a directive if tokens are added that open a comment. -/
def commented (more : List String) : Directive → Directive
  | once _ => once false
  | command args => command (args ++ more)
  | directive => directive

theorem isMentioned_append (hmentioned : isMentioned line = true) (back : String) :
    isMentioned (line ++ back) = true := by
  have hkept : ∀ word, Text.occurs word line.toList = true →
      Text.occurs word (line ++ back).toList = true := by
    intro word hword
    rw [Text.occurs_iff_isInfix] at hword ⊢
    rw [String.toList_append]
    exact hword.trans (List.prefix_append _ _).isInfix
  rw [isMentioned, Bool.or_eq_true] at hmentioned ⊢
  exact hmentioned.imp (hkept _) (hkept _)

theorem keyword?_append (hkeyword : keyword? tokens = some (word, rest)) (more : List String) :
    keyword? (tokens ++ more) = some (word, rest ++ more) := by
  cases tokens with
  | nil => cases hkeyword
  | cons first others =>
    rw [List.cons_append]
    unfold keyword? at hkeyword ⊢
    dsimp only at hkeyword ⊢
    split at hkeyword
    · next hhash =>
      rw [if_pos hhash]
      cases others with
      | nil => cases hkeyword
      | cons second others =>
        cases hkeyword
        rfl
    · next hhash =>
      rw [if_neg hhash]
      obtain ⟨attached, hattached, hpair⟩ := Option.map_eq_some_iff.mp hkeyword
      cases hpair
      rw [hattached]
      rfl

theorem ofPragma_append (hplain : ofPragma rest ≠ plain) (hmore : more ≠ []) :
    ofPragma (rest ++ more) = (ofPragma rest).commented more := by
  cases rest with
  | nil => exact absurd rfl hplain
  | cons first args =>
    rw [List.cons_append, ofPragma, ofPragma]
    rw [ofPragma] at hplain
    split
    · simp [commented, hmore]
    · next honce =>
      rw [if_neg honce] at hplain
      split
      · rfl
      · next hother => exact absurd (if_neg hother) hplain

theorem ofTokens_append (hplain : ofTokens tokens ≠ plain) {token : String}
    (hopens : Text.opensComment token = true) (others : List String) :
    ofTokens (tokens ++ token :: others) = (ofTokens tokens).commented (token :: others) := by
  cases hkeyword : keyword? tokens with
  | none => exact absurd (by rw [ofTokens, hkeyword]) hplain
  | some pair =>
    obtain ⟨word, rest⟩ := pair
    have hliteral : ∀ attached, literal attached (rest ++ token :: others) =
        literal attached rest := by
      intro attached
      rw [literal, literal, Text.beforeComment_append_of_opensComment hopens]
    rw [ofTokens, hkeyword] at hplain
    rw [ofTokens, ofTokens, hkeyword, keyword?_append hkeyword]
    dsimp only at hplain ⊢
    split
    · next attached hattached =>
      rw [hliteral]
      split <;> rfl
    · next hnone =>
      rw [hnone] at hplain
      dsimp only at hplain
      split
      · next hpragma =>
        rw [if_pos hpragma] at hplain
        exact ofPragma_append hplain (by simp)
      · next hother => exact absurd (if_neg hother) hplain

/-- A directive with a comment behind it is the same directive with more tokens. -/
theorem exists_ofLine_append_comment (hplain : ofLine line ≠ plain)
    (hcomment : Text.opensComment comment = true) :
    ∃ token others, Text.opensComment token = true ∧
      ofLine (line ++ " " ++ comment) = (ofLine line).commented (token :: others) := by
  obtain ⟨token, others, htokens, hopens⟩ := Text.exists_tokens_of_opensComment hcomment
  refine ⟨token, others, hopens, ?_⟩
  rw [ofLine] at hplain
  split at hplain
  · next hmentioned =>
    have hstill : isMentioned (line ++ " " ++ comment) = true :=
      isMentioned_append (isMentioned_append hmentioned " ") comment
    rw [ofLine, ofLine, if_pos hmentioned, if_pos hstill, Text.tokens_append_comment, htokens]
    exact ofTokens_append hplain hopens others
  · exact absurd rfl hplain

end Directive

/-! ## Commands with more arguments -/

namespace Command

variable {settings : Settings} {draft : Draft} {site : Location} {args : List String}
  {edits : List Edit} {token : String}

/-- Only the name of a mutator is taken as it is, so it must be there without the comment. -/
theorem mutatorOf_append {space : Space} (hargs : args ≠ [])
    (hopens : Text.opensComment token = true) (others : List String) :
    space.mutatorOf (args ++ token :: others) = space.mutatorOf args := by
  cases args with
  | nil => exact absurd rfl hargs
  | cons name args =>
    rw [List.cons_append, Space.mutatorOf, Space.mutatorOf,
      Text.beforeComment_append_of_opensComment hopens]

/-- A command does not look behind the start of a comment. -/
theorem named_append {name : String} (hname : name = "mutator" → args ≠ [])
    (hopens : Text.opensComment token = true) (others : List String) :
    named settings draft site (args ++ token :: others) name =
      named settings draft site args name := by
  have hbefore : Text.beforeComment (args ++ token :: others) = Text.beforeComment args :=
    Text.beforeComment_append_of_opensComment hopens args others
  by_cases hmutator : name = "mutator"
  · rw [named, named, if_pos hmutator, if_pos hmutator, mutatorOf_append (hname hmutator) hopens]
  · simp only [named, if_neg hmutator, techniqueStart, techniqueEnd, Space.skipRuleOf,
      Space.replacementOf, library, rayType, structStart, member, structEnd, sixteenBit, hbefore]

theorem meaning_append (hmeaning : meaning settings draft site args = .ok edits)
    (hopens : Text.opensComment token = true) (others : List String) :
    meaning settings draft site (args ++ token :: others) = .ok edits := by
  cases args with
  | nil => cases hmeaning
  | cons name args =>
    have hname : name = "mutator" → args ≠ [] := by
      rintro rfl rfl
      obtain ⟨-, hnone⟩ := of_outsideStruct hmeaning
      cases hnone
    rw [meaning] at hmeaning
    rw [List.cons_append, meaning, named_append hname hopens, hmeaning]

end Command

/-! ## Forgetting the texts of sites -/

/-- A place without the text of its line. A comment shows in that text, so this is all that two
readings can differ in of which one has the comment. -/
def Location.untexted (site : Location) : Location :=
  { site with text := "" }

def Location.withComment (site : Location) (comment : String) : Location :=
  { site with text := site.text ++ " " ++ comment }

def Draft.untexted (draft : Draft) : Draft :=
  { draft with
    openBlock := draft.openBlock.map fun block => { block with site := block.site.untexted }
    openStruct := draft.openStruct.map fun struct => { struct with site := struct.site.untexted } }

def Edit.untexted : Edit → Edit
  | .openBlock technique stage active site => .openBlock technique stage active site.untexted
  | .openStruct name site => .openStruct name site.untexted
  | edit => edit

def Event.untexted {κ : Type} : Event κ → Event κ
  | .command site name => .command site.untexted name
  | .edit change => .edit change.untexted
  | event => event

/-- A session without the texts of the lines that are kept for later complaints. -/
def Session.untexted {σ κ : Type} (session : Session σ κ) : Session σ κ where
  world := session.world
  draft := session.draft.untexted
  journal := session.journal.map Event.untexted

@[simp] theorem Location.untexted_withComment (site : Location) (comment : String) :
    (site.withComment comment).untexted = site.untexted := rfl

namespace Draft

theorem untexted_modifyCurrent (draft : Draft) (change : Buffer → Buffer) :
    (draft.modifyCurrent change).untexted = draft.untexted.modifyCurrent change := by
  cases hopen : draft.openBlock <;> simp [modifyCurrent, untexted, hopen]

theorem untexted_apply (draft : Draft) (edit : Edit) :
    (draft.apply edit).untexted = draft.untexted.apply edit.untexted := by
  cases edit with
  | append line => exact draft.untexted_modifyCurrent (·.push line)
  | guard path => exact draft.untexted_modifyCurrent (·.guard path)
  | closeBlock =>
    cases hopen : draft.openBlock <;>
      simp [apply, untexted, hopen, Edit.untexted, OpenBlock.close]
  | addMember member =>
    cases hopen : draft.openStruct <;> simp [apply, untexted, hopen, Edit.untexted]
  | _ => rfl

theorem untexted_applyAll (draft : Draft) (edits : List Edit) :
    (draft.applyAll edits).untexted = draft.untexted.applyAll (edits.map Edit.untexted) := by
  induction edits generalizing draft with
  | nil => rfl
  | cons edit edits ih => rw [List.map_cons, applyAll_cons, applyAll_cons, ih, untexted_apply]

end Draft

/-- The texts in the sessions before, and those in the edits, are all that two sessions can differ
in. -/
theorem Session.untexted_performAll {σ κ : Type} {session other : Session σ κ}
    {edits others : List Edit} (hsession : other.untexted = session.untexted)
    (hedits : others.map Edit.untexted = edits.map Edit.untexted) :
    ((Walk.performAll others).endSession other).untexted =
      ((Walk.performAll edits).endSession session).untexted := by
  have hevents : ∀ list : List Edit, (list.map (Event.edit (κ := κ))).map Event.untexted =
      (list.map Edit.untexted).map Event.edit := by
    intro list
    simp [Function.comp_def, Event.untexted]
  obtain ⟨hworld, hdraft, hjournal⟩ := Session.mk.inj hsession
  simp only [Walk.endSession_performAll, Session.untexted, Draft.untexted_applyAll, hdraft, hedits,
    Array.map_append, List.map_toArray, hevents, hjournal, hworld]

namespace Command

variable {settings : Settings} {draft : Draft} {site other : Location}

def Meaning.untexted (meaning : Meaning) : Meaning :=
  meaning.map (List.map Edit.untexted)

theorem untexted_techniqueStart (hsite : other.untexted = site.untexted) (args : List String) :
    (techniqueStart settings draft other args).untexted =
      (techniqueStart settings draft site args).untexted := by
  have hopen : ∀ technique stage active, (openBlock draft other technique stage active).untexted =
      (openBlock draft site technique stage active).untexted := by
    intro technique stage active
    rw [openBlock, openBlock]
    repeat' split
    · rfl
    · rfl
    · simp [Meaning.untexted, Except.map, Edit.untexted, hsite]
  rw [techniqueStart, techniqueStart]
  repeat' split
  · rfl
  · rfl
  · rfl
  · rfl
  · next names _ _ _ =>
    cases activeMask draft.space names with
    | error complaint => rfl
    | ok active => exact hopen _ _ active

theorem untexted_structStart (hsite : other.untexted = site.untexted) (args : List String) :
    (structStart other args).untexted = (structStart site args).untexted := by
  rw [structStart, structStart]
  repeat' split
  · simp [Meaning.untexted, Except.map, Edit.untexted, hsite]
  · rfl
  · rfl

theorem untexted_outsideStruct {first second : Meaning} (hsame : first.untexted = second.untexted) :
    (outsideStruct draft first).untexted = (outsideStruct draft second).untexted := by
  rw [outsideStruct, outsideStruct]
  split
  · rfl
  · exact hsame

/-- No command looks at the text of its line. -/
theorem untexted_meaning (hsite : other.untexted = site.untexted) (args : List String) :
    (meaning settings draft other args).untexted = (meaning settings draft site args).untexted := by
  cases args with
  | nil => rfl
  | cons name args =>
    rw [meaning, meaning]
    by_cases hblock : name = "technique_start"
    · subst hblock
      exact untexted_outsideStruct (untexted_techniqueStart hsite args)
    · by_cases hstruct : name = "struct"
      · subst hstruct
        exact untexted_outsideStruct (untexted_structStart hsite args)
      · -- No other command takes the place that it stands at.
        simp only [named, if_neg hblock, if_neg hstruct]

theorem exists_meaning_of_untexted_eq {args : List String} {edits : List Edit}
    (hsite : other.untexted = site.untexted)
    (hmeaning : meaning settings draft site args = .ok edits) :
    ∃ others, meaning settings draft other args = .ok others ∧
      others.map Edit.untexted = edits.map Edit.untexted := by
  have hsame : (meaning settings draft other args).untexted =
      (meaning settings draft site args).untexted := untexted_meaning hsite args
  rw [hmeaning] at hsame
  cases hother : meaning settings draft other args with
  | error complaint =>
    rw [hother] at hsame
    cases hsame
  | ok others =>
    rw [hother] at hsame
    exact ⟨others, rfl, Except.ok.inj hsame⟩

end Command

/-! ## Lines with comments -/

namespace Walk

variable {σ κ : Type} {settings : Settings} {site : Location} {session last : Session σ κ}

/-- A file is visited in the same way whatever else is on the line that includes it. -/
theorem visit_withComment (provider : Provider σ κ) (room : Nat) (site : Location)
    (comment path : String) (context : κ) :
    visit settings provider room (site.withComment comment) path context =
      visit settings provider room site path context := by
  cases room <;> rfl

theorem untexted_noted {other : Location} (hsite : other.untexted = site.untexted) (name : String)
    (args others : List String) (session : Session σ κ) :
    (noted other (name :: others) session).untexted =
      (noted site (name :: args) session).untexted := by
  simp [noted, Session.untexted, Event.untexted, hsite]

/-- A command that is carried out is carried out with a comment too. -/
theorem exists_run_runCommand_append {args : List String}
    (hrun : (runCommand settings site args).run session = .ok () last) {token : String}
    (hopens : Text.opensComment token = true) (more : List String) {other : Location}
    (hsite : other.untexted = site.untexted) :
    ∃ done, (runCommand settings other (args ++ token :: more)).run session = .ok () done ∧
      done.untexted = last.untexted := by
  rw [run_runCommand] at hrun
  cases hmeaning : Command.meaning settings (noted site args session).draft site args with
  | error complaint =>
    rw [run_carryOut_of_error hmeaning] at hrun
    cases hrun
  | ok edits =>
    rw [run_carryOut_of_ok hmeaning] at hrun
    cases hrun
    cases args with
    | nil => cases hmeaning
    | cons name args =>
      rw [draft_noted] at hmeaning
      obtain ⟨others, hothers, hedits⟩ := Command.exists_meaning_of_untexted_eq hsite
        (Command.meaning_append hmeaning hopens more)
      rw [run_runCommand, run_carryOut_of_ok (by rw [draft_noted]; exact hothers)]
      exact ⟨_, rfl, Session.untexted_performAll (untexted_noted hsite _ _ _ _) hedits⟩

end Walk

section

variable {σ κ : Type} {settings : Settings} {provider : Provider σ κ} {room : Nat}
  {file : Target κ} {once after : Bool} {site : Location} {session last : Session σ κ}
  {comment : String}

theorem Location.exists_ofLine_withComment {directive : Directive}
    (hline : Directive.ofLine site.text = directive) (hplain : directive ≠ .plain)
    (hcomment : Text.opensComment comment = true) :
    ∃ token more, Text.opensComment token = true ∧
      Directive.ofLine (site.withComment comment).text = directive.commented (token :: more) := by
  subst hline
  exact Directive.exists_ofLine_append_comment hplain hcomment

theorem readLine_inclusion_withComment {path : Option String}
    (hline : Directive.ofLine site.text = .inclusion path)
    (haccepted : (Walk.readLine settings (Walk.visit settings provider room) file once site).run
      session = .ok after last) (hcomment : Text.opensComment comment = true) :
    (Walk.readLine settings (Walk.visit settings provider room) file once
      (site.withComment comment)).run session = .ok after last := by
  obtain ⟨_, _, -, hsame⟩ := Location.exists_ofLine_withComment hline (by simp) hcomment
  rw [Walk.readLine, hline] at haccepted
  rw [Walk.readLine, hsame]
  cases path with
  | none => cases haccepted
  | some path =>
    simp only [Directive.commented, Walk.obey] at haccepted ⊢
    rw [Walk.visit_withComment]
    exact haccepted

theorem exists_readLine_command_withComment {args : List String}
    (hline : Directive.ofLine site.text = .command args)
    (haccepted : (Walk.readLine settings (Walk.visit settings provider room) file once site).run
      session = .ok after last) (hcomment : Text.opensComment comment = true) :
    ∃ other, (Walk.readLine settings (Walk.visit settings provider room) file once
      (site.withComment comment)).run session = .ok after other ∧
        other.untexted = last.untexted := by
  obtain ⟨token, more, hopens, hmore⟩ := Location.exists_ofLine_withComment hline (by simp) hcomment
  rw [Walk.readLine, hline, Walk.obey] at haccepted
  obtain ⟨_, middle, hcommand, hmark⟩ := Walk.exists_of_run_bind haccepted
  rw [Walk.run_bind_of_ok (Walk.run_mark _ _ _)] at hmark
  cases hmark
  obtain ⟨done, hdone, huntexted⟩ := Walk.exists_run_runCommand_append hcommand hopens more
    (site.untexted_withComment comment)
  refine ⟨_, ?_, Session.untexted_performAll huntexted rfl⟩
  rw [Walk.readLine, hmore, Directive.commented, Walk.obey]
  rw [Walk.run_bind_of_ok hdone, Walk.run_bind_of_ok (Walk.run_mark _ _ _)]
  rfl

theorem readLine_once_withComment (hline : Directive.ofLine site.text = .once true)
    (haccepted : (Walk.readLine settings (Walk.visit settings provider room) file once site).run
      session = .ok after last) (hcomment : Text.opensComment comment = true) :
    (Walk.readLine settings (Walk.visit settings provider room) file once
      (site.withComment comment)).run session =
        .error (.directive (site.withComment comment) (.malformed .onceArguments)) session := by
  obtain ⟨_, _, -, hmore⟩ := Location.exists_ofLine_withComment hline (by simp) hcomment
  rw [Walk.readLine, hline] at haccepted
  rw [Walk.readLine, hmore]
  cases once with
  | true => cases haccepted
  | false => rfl

/-- A comment does not change what a directive does, with one exception. If a line is a directive
and is accepted in some session, then with a space and a comment behind it the line is accepted too,
and comes to the same, but for the text of the line where that is kept. Only the line that asks for
an include guard is refused then. -/
theorem readLine_withComment_iff (hdirective : Directive.ofLine site.text ≠ .plain)
    (haccepted : (Walk.readLine settings (Walk.visit settings provider room) file once site).run
      session = .ok after last) (hcomment : Text.opensComment comment = true) :
    let commented := (Walk.readLine settings (Walk.visit settings provider room) file once
      (site.withComment comment)).run session
    ((∃ other, commented = .ok after other ∧ other.untexted = last.untexted) ↔
      Directive.ofLine site.text ≠ .once true) ∧
    (Directive.ofLine site.text = .once true → commented =
      .error (.directive (site.withComment comment) (.malformed .onceArguments)) session) := by
  intro commented
  refine ⟨⟨?_, fun hother => ?_⟩, fun honce => readLine_once_withComment honce haccepted hcomment⟩
  · rintro ⟨other, hrun, -⟩ honce
    have hrefused : commented = _ := readLine_once_withComment honce haccepted hcomment
    rw [hrun] at hrefused
    cases hrefused
  · cases hline : Directive.ofLine site.text with
    | plain => exact absurd hline hdirective
    | inclusion path =>
      exact ⟨last, readLine_inclusion_withComment hline haccepted hcomment, rfl⟩
    | command args => exact exists_readLine_command_withComment hline haccepted hcomment
    | once alone =>
      cases alone with
      | true => exact absurd hline hother
      | false =>
        rw [Walk.readLine, hline] at haccepted
        cases once <;> cases haccepted

end

theorem readLine_withComment_techniqueStart :
    let site : Location := ⟨"main", 1, "#pragma anki technique_start comp"⟩
    let read := fun site => (Walk.readLine {} (Walk.visit {} (Catalog.provider {}) 8)
      ⟨"main", ""⟩ false site).run { world := () }
    Directive.ofLine site.text ≠ .plain ∧ Text.opensComment "// the only one" = true ∧
      ∃ after last other, read site = .ok after last ∧
        read (site.withComment "// the only one") = .ok after other ∧
        other.untexted = last.untexted := by
  intro site read
  have hdirective : Directive.ofLine site.text = .command ["technique_start", "comp"] := by
    decide +kernel
  have haccepted : ∃ after last, read site = .ok after last := by
    simp only [read, Walk.readLine, hdirective, Walk.obey]
    exact ⟨_, _, rfl⟩
  obtain ⟨after, last, haccepted⟩ := haccepted
  have hplain : Directive.ofLine site.text ≠ .plain := by simp [hdirective]
  have hcomment : Text.opensComment "// the only one" = true := by decide
  obtain ⟨hiff, -⟩ := readLine_withComment_iff hplain haccepted hcomment
  obtain ⟨other, hother, hsame⟩ := hiff.mpr (by simp [hdirective])
  exact ⟨hplain, hcomment, after, last, other, haccepted, hother, hsame⟩

theorem exists_readLine_ok_and_withComment_error :
    let site : Location := ⟨"main", 1, "#pragma once"⟩
    let read := fun site => (Walk.readLine {} (Walk.visit {} (Catalog.provider {}) 8)
      ⟨"main", ""⟩ false site).run { world := () }
    Directive.ofLine site.text = .once true ∧ Text.opensComment "// guard" = true ∧
      (∃ last, read site = .ok true last) ∧
      ¬ ∃ after other, read (site.withComment "// guard") = .ok after other := by
  intro site read
  have honce : Directive.ofLine site.text = .once true := by decide +kernel
  have hmore : Directive.ofLine (site.withComment "// guard").text = .once false := by
    decide +kernel
  refine ⟨honce, by decide, ?_, ?_⟩
  · simp only [read, Walk.readLine, honce, Walk.obey]
    exact ⟨_, rfl⟩
  · rintro ⟨after, other, hother⟩
    simp only [read, Walk.readLine, hmore, Walk.obey] at hother
    cases hother

end Ubershader
