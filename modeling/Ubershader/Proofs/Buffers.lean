import Ubershader.Proofs.Reading.Outcome

/-!
# What holds of all buffers

Many facts about a reading are facts about its buffers: the common one, the one of the open block,
and those that the finished blocks were made from. `Draft.Holds` says that they all have a property.
An edit that touches the current buffer has to be looked at there only, and an edit of another kind
keeps every property, because a block starts with a copy of the common buffer.

`Command.Emits` says what a command makes of a draft, and `Command.Part` which edits commands are
made of. They append lines of expansions and open and close blocks, but include guards they leave
alone.
-/

namespace Ubershader

/-- All buffers of a draft have a property, also those of its finished blocks. -/
structure Draft.Holds (property : Buffer → Prop) (draft : Draft) : Prop where
  common : property draft.common
  openBlock : ∀ block, draft.openBlock = some block → property block.buffer
  blocks : ∀ block ∈ draft.blocks, ∃ buffer, property buffer ∧ buffer.lines = block.lines

namespace Draft.Holds

variable {property : Buffer → Prop} {draft : Draft}

theorem empty (hempty : property {}) : ({} : Draft).Holds property :=
  ⟨hempty, by simp, by simp⟩

theorem current (hdraft : draft.Holds property) : property draft.current := by
  rw [Draft.current]
  split
  · exact hdraft.common
  · next block hopen => exact hdraft.openBlock block hopen

theorem modifyCurrent (hdraft : draft.Holds property) (change : Buffer → Buffer)
    (hchange : property (change draft.current)) :
    (draft.modifyCurrent change).Holds property := by
  rw [Draft.current] at hchange
  rw [Draft.modifyCurrent]
  split
  · next hopen =>
    rw [hopen] at hchange
    exact ⟨hchange, hdraft.openBlock, hdraft.blocks⟩
  · next block hopen =>
    rw [hopen] at hchange
    refine ⟨hdraft.common, ?_, hdraft.blocks⟩
    rintro _ ⟨⟩
    exact hchange

theorem append (hdraft : draft.Holds property) {line : Line}
    (hpush : property (draft.current.push line)) :
    (draft.apply (.append line)).Holds property :=
  hdraft.modifyCurrent (·.push line) hpush

theorem guard (hdraft : draft.Holds property) {path : String}
    (hguard : property (draft.current.guard path)) :
    (draft.apply (.guard path)).Holds property :=
  hdraft.modifyCurrent (·.guard path) hguard

/-- An edit that changes no buffer keeps what holds of all of them. -/
theorem apply_other (hdraft : draft.Holds property) {edit : Edit} (hline : edit.line? = none)
    (hguard : ∀ path, edit ≠ .guard path) : (draft.apply edit).Holds property := by
  cases edit with
  | append line => cases hline
  | guard path => exact absurd rfl (hguard path)
  | openBlock technique stage active site =>
    refine ⟨hdraft.common, ?_, hdraft.blocks⟩
    rintro _ ⟨⟩
    exact hdraft.common
  | closeBlock =>
    rw [Draft.apply]
    split
    · exact hdraft
    · next block hopen =>
      refine ⟨hdraft.common, by simp, ?_⟩
      intro other hother
      obtain hold | hlast := List.mem_append.mp hother
      · exact hdraft.blocks other hold
      · rw [List.mem_singleton.mp hlast]
        exact ⟨block.buffer, hdraft.openBlock block hopen, rfl⟩
  | _ => exact ⟨hdraft.common, hdraft.openBlock, hdraft.blocks⟩

/-- Edits that open no include guard keep what pushing each of their lines keeps. -/
theorem applyAll {edits : List Edit} (hdraft : draft.Holds property)
    (hpush : ∀ line, .append line ∈ edits → ∀ buffer, property buffer →
      property (buffer.push line))
    (hguard : ∀ path, .guard path ∉ edits) : (draft.applyAll edits).Holds property := by
  induction edits generalizing draft with
  | nil => exact hdraft
  | cons edit edits ih =>
    rw [applyAll_cons]
    refine ih ?_ (fun line hline => hpush line (List.mem_cons_of_mem _ hline))
      (fun path hpath => hguard path (List.mem_cons_of_mem _ hpath))
    by_cases hline : edit.line? = none
    · exact hdraft.apply_other hline fun path heq => hguard path (heq ▸ List.mem_cons_self)
    · cases edit with
      | append line => exact hdraft.append (hpush line List.mem_cons_self _ hdraft.current)
      | _ => exact absurd rfl hline

end Draft.Holds

/-- What holds of all buffers of a draft holds of the buffer behind each block of its program. -/
theorem Program.exists_buffer_of_block? {settings : Settings} {entry : String} {draft : Draft}
    {program : Program} {property : Buffer → Prop}
    (hprogram : Program.ofDraft settings entry draft = .ok program)
    (hdraft : draft.Holds property) {technique : Technique}
    (htechnique : technique ∈ program.techniques) {stage : Stage} {block : Block}
    (hblock : technique.block? stage = some block) :
    ∃ buffer, property buffer ∧ buffer.lines = block.lines := by
  obtain ⟨-, rfl⟩ := Program.of_ofDraft hprogram
  have hmem := (Technique.mem_blocks_iff htechnique).mp (List.mem_of_find?_eq_some hblock)
  exact hdraft.blocks block hmem.1

/-! ## What commands are made of -/

/-- Whether an edit has nothing to do with lines, include guards and structs. -/
def Edit.isQuiet : Edit → Bool
  | append _ | guard _ | openStruct .. | addMember _ | closeStruct => false
  | _ => true

namespace Command

/-- The edits that a command can make of a draft: those that touch no buffer, and the lines of the
expansion of a struct. -/
inductive Part (draft : Draft) : Edit → Prop
  | quiet {edit : Edit} (noLine : edit.line? = none) (noGuard : ∀ path, .guard path ≠ edit) :
      Part draft edit
  | opening {name : String} (identifier : Text.isIdentifier name = true) :
      Part draft (.append (.expansion (PackedStruct.openingLine ⟨name, []⟩)))
  | member {struct : OpenStruct} {typeToken name text : String} {type : MemberType}
      (isOpen : draft.openStruct = some struct)
      (known : MemberType.ofToken? typeToken = some type)
      (identifier : Text.isIdentifier name = true)
      (isLine : text ∈ struct.struct.memberLines (struct.struct.nextMember name type) typeToken) :
      Part draft (.append (.expansion text))
  | closing {struct : OpenStruct} {text : String} (isOpen : draft.openStruct = some struct)
      (isLine : text ∈ struct.struct.closingLines) : Part draft (.append (.expansion text))

/-- What a command makes of a draft: one edit, and the lines of an expansion that come with it. Only
the edits of a struct come with lines. -/
inductive Emits (draft : Draft) : Edit → List String → Prop
  | quiet {edit : Edit} (isQuiet : edit.isQuiet = true) : Emits draft edit []
  | opening {name : String} (identifier : Text.isIdentifier name = true) (site : Location) :
      Emits draft (.openStruct name site) [PackedStruct.openingLine ⟨name, []⟩]
  | member {struct : OpenStruct} {typeToken name : String} {type : MemberType}
      (isOpen : draft.openStruct = some struct)
      (known : MemberType.ofToken? typeToken = some type)
      (identifier : Text.isIdentifier name = true) :
      Emits draft (.addMember (struct.struct.nextMember name type))
        (struct.struct.memberLines (struct.struct.nextMember name type) typeToken)
  | closing {struct : OpenStruct} (isOpen : draft.openStruct = some struct) :
      Emits draft .closeStruct struct.struct.closingLines

/-- The edits of a meaning are those of one emission. -/
def Meaning.IsEmission (meaning : Meaning) (draft : Draft) : Prop :=
  ∀ edits, meaning = .ok edits → ∃ edit texts, Emits draft edit texts ∧
    edits = edit :: texts.map fun text => .append (.expansion text)

section

variable {settings : Settings} {draft : Draft} {site : Location}

theorem isEmission_error (complaint : Complaint) :
    Meaning.IsEmission (.error complaint) draft := by
  intro edits hmeaning
  cases hmeaning

theorem isEmission_ok {edit : Edit} {texts : List String} (hemits : Emits draft edit texts) :
    Meaning.IsEmission (.ok (edit :: texts.map fun text => .append (.expansion text))) draft := by
  rintro _ ⟨⟩
  exact ⟨edit, texts, hemits, rfl⟩

theorem isEmission_map {α : Type} (declaration : Except Complaint α) {toEdit : α → Edit}
    (hquiet : ∀ a, (toEdit a).isQuiet = true) :
    Meaning.IsEmission (declaration.map fun a => [toEdit a]) draft := by
  cases declaration with
  | error complaint => exact isEmission_error complaint
  | ok a => exact isEmission_ok (.quiet (hquiet a))

theorem isEmission_ite {condition : Prop} [Decidable condition] {first second : Meaning}
    (hfirst : first.IsEmission draft) (hsecond : second.IsEmission draft) :
    Meaning.IsEmission (if condition then first else second) draft := by
  split
  · exact hfirst
  · exact hsecond

theorem isEmission_outsideStruct {meaning : Meaning} (hmeaning : meaning.IsEmission draft) :
    (outsideStruct draft meaning).IsEmission draft :=
  isEmission_ite (isEmission_error _) hmeaning

theorem isEmission_techniqueStart (args : List String) :
    (techniqueStart settings draft site args).IsEmission draft := by
  rw [techniqueStart]
  split
  · exact isEmission_error _
  · split
    · exact isEmission_error _
    · refine isEmission_ite (isEmission_error _) (isEmission_ite (isEmission_error _) ?_)
      intro edits hmeaning
      obtain ⟨active, -, hopen⟩ := exists_of_bind_eq_ok hmeaning
      refine isEmission_ite (isEmission_error _)
        (isEmission_ite (isEmission_error _) ?_) edits hopen
      exact isEmission_ok (.quiet rfl)

theorem isEmission_closeBlock (technique : String) (stage : Stage) :
    (closeBlock draft technique stage).IsEmission draft := by
  rw [closeBlock]
  split
  · exact isEmission_error _
  · exact isEmission_ite (isEmission_ok (.quiet rfl)) (isEmission_error _)

theorem isEmission_techniqueEnd (args : List String) :
    (techniqueEnd draft args).IsEmission draft := by
  rw [techniqueEnd]
  repeat' split
  · exact isEmission_error _
  · exact isEmission_error _
  · exact isEmission_closeBlock _ _
  · exact isEmission_closeBlock _ _
  · exact isEmission_error _

theorem isEmission_library (args : List String) : (library draft args).IsEmission draft := by
  rw [library]
  split
  · exact isEmission_ite (isEmission_error _) (isEmission_ok (.quiet rfl))
  · exact isEmission_error _

theorem isEmission_rayType (args : List String) : (rayType draft args).IsEmission draft := by
  rw [rayType]
  repeat' split
  · exact isEmission_error _
  · exact isEmission_error _
  · exact isEmission_error _
  · exact isEmission_ok (.quiet rfl)
  · exact isEmission_error _

theorem isEmission_structStart (args : List String) :
    (structStart site args).IsEmission draft := by
  rw [structStart]
  split
  · next name _ =>
    split
    · next hidentifier => exact isEmission_ok (.opening hidentifier site)
    · exact isEmission_error _
  · exact isEmission_error _

theorem isEmission_member (args : List String) : (member draft args).IsEmission draft := by
  rw [member]
  split
  · exact isEmission_error _
  · next struct hopen =>
    split
    · next typeToken name _ =>
      rw [addMember]
      split
      · exact isEmission_error _
      · next type hknown =>
        split
        · exact isEmission_error _
        · next hidentifier =>
          refine isEmission_ite (isEmission_error _) (isEmission_ok ?_)
          exact .member hopen hknown (by simpa using hidentifier)
    · exact isEmission_error _

theorem isEmission_structEnd (args : List String) : (structEnd draft args).IsEmission draft := by
  rw [structEnd]
  split
  · exact isEmission_error _
  · next struct hopen =>
    refine isEmission_ite (isEmission_error _) (isEmission_ite (isEmission_error _) ?_)
    exact isEmission_ok (.closing hopen)

end

/-- Every command that is carried out makes one edit and the lines that come with it. -/
theorem isEmission_meaning (settings : Settings) (draft : Draft) (site : Location)
    (args : List String) : (meaning settings draft site args).IsEmission draft := by
  cases args with
  | nil => exact isEmission_error _
  | cons name args =>
    rw [meaning, named]
    refine isEmission_ite (isEmission_outsideStruct (isEmission_map _ fun _ => rfl)) ?_
    refine isEmission_ite (isEmission_outsideStruct (isEmission_techniqueStart args)) ?_
    refine isEmission_ite (isEmission_outsideStruct (isEmission_techniqueEnd args)) ?_
    refine isEmission_ite (isEmission_outsideStruct (isEmission_map _ fun _ => rfl)) ?_
    refine isEmission_ite (isEmission_outsideStruct (isEmission_map _ fun _ => rfl)) ?_
    refine isEmission_ite (isEmission_outsideStruct (isEmission_library args)) ?_
    refine isEmission_ite (isEmission_outsideStruct (isEmission_rayType args)) ?_
    refine isEmission_ite (isEmission_outsideStruct (isEmission_structStart args)) ?_
    refine isEmission_ite (isEmission_member args) ?_
    refine isEmission_ite (isEmission_structEnd args) ?_
    refine isEmission_ite (isEmission_ite (isEmission_error _) ?_) (isEmission_error _)
    exact isEmission_ok (.quiet rfl)

/-- A meaning that is made of the edits that commands can make. -/
def Meaning.HasParts (meaning : Meaning) (draft : Draft) : Prop :=
  ∀ edits, meaning = .ok edits → ∀ edit ∈ edits, Part draft edit

theorem Emits.part {draft : Draft} {edit : Edit} {texts : List String}
    (hemits : Emits draft edit texts) : Part draft edit := by
  cases hemits with
  | quiet hquiet =>
    refine .quiet ?_ ?_
    · cases edit <;> first | rfl | cases hquiet
    · rintro path rfl
      cases hquiet
  | opening => exact .quiet rfl (by simp)
  | member => exact .quiet rfl (by simp)
  | closing => exact .quiet rfl (by simp)

theorem Emits.part_expansion {draft : Draft} {edit : Edit} {texts : List String}
    (hemits : Emits draft edit texts) {text : String} (htext : text ∈ texts) :
    Part draft (.append (.expansion text)) := by
  cases hemits with
  | quiet => cases htext
  | opening hidentifier =>
    rw [List.mem_singleton.mp htext]
    exact .opening hidentifier
  | member hopen hknown hidentifier => exact .member hopen hknown hidentifier htext
  | closing hopen => exact .closing hopen htext

/-- Every command that is carried out is made of such parts. -/
theorem hasParts_meaning (settings : Settings) (draft : Draft) (site : Location)
    (args : List String) : (meaning settings draft site args).HasParts draft := by
  intro edits hmeaning other hother
  obtain ⟨edit, texts, hemits, rfl⟩ := isEmission_meaning settings draft site args edits hmeaning
  obtain rfl | hlater := List.mem_cons.mp hother
  · exact hemits.part
  · obtain ⟨text, htext, rfl⟩ := List.mem_map.mp hlater
    exact hemits.part_expansion htext

variable {settings : Settings} {draft : Draft} {site : Location} {args : List String}
  {edits : List Edit}

/-- No command opens an include guard. -/
theorem guard_notMem_of_meaning (hmeaning : meaning settings draft site args = .ok edits)
    (path : String) : .guard path ∉ edits := by
  intro hguard
  cases hasParts_meaning settings draft site args edits hmeaning _ hguard with
  | quiet _ hnone => exact hnone path rfl

/-- The lines of a command are those of an expansion. -/
theorem exists_expansion_of_meaning (hmeaning : meaning settings draft site args = .ok edits)
    {line : Line} (hline : .append line ∈ edits) : ∃ text, line = .expansion text := by
  cases hasParts_meaning settings draft site args edits hmeaning _ hline with
  | quiet hnone => cases hnone
  | opening => exact ⟨_, rfl⟩
  | member => exact ⟨_, rfl⟩
  | closing => exact ⟨_, rfl⟩

end Command

end Ubershader
