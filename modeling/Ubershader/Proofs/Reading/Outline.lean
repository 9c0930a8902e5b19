import Ubershader.Proofs.Directive
import Ubershader.Proofs.Reading.Course
import Ubershader.Provider.Catalog

/-!
# Outlines

The lines of a file that opens and closes blocks and structs have an outline: structs hold text and
members, blocks hold text and structs, and a file holds text, structs and blocks. An outline is a
tree that carries what makes it a proper one, namely that the members of a struct have different
names, that the blocks of a file have different keys, and that there is at least one of each. No
other way of nesting can be written down.

The main result says that a file of such lines is read if and only if they are the lines of an
outline. A reading goes through the lines in order and only remembers a `Progress`; what it has seen
of an outline that is not complete yet is a `Sketch`.
-/

namespace Ubershader

/-! ## Kinds of lines -/

/-- What a line is in an outline. -/
inductive LineKind
  | text
  | blockStart (key : BlockKey)
  | blockEnd (key : BlockKey)
  | structStart (name : String)
  | member (type name : String)
  | structEnd
deriving DecidableEq, Repr

/-- The words of a command of some kind, each of them legal for itself. The name of a technique may
be left out. -/
inductive LineKind.Words (settings : Settings) : LineKind → List String → Prop
  | blockStart {technique : String} {stage : Stage} (supported : settings.supports stage = true)
      (identifier : Text.isIdentifier technique = true)
      (noKeyword : technique ≠ Command.usesMutators) :
      Words settings (.blockStart (technique, stage)) ["technique_start", stage.token, technique]
  | unnamedStart {stage : Stage} (supported : settings.supports stage = true) :
      Words settings (.blockStart (Command.unnamedTechnique, stage))
        ["technique_start", stage.token]
  | blockEnd {technique : String} {stage : Stage} (supported : settings.supports stage = true)
      (identifier : Text.isIdentifier technique = true)
      (noKeyword : technique ≠ Command.usesMutators) :
      Words settings (.blockEnd (technique, stage)) ["technique_end", stage.token, technique]
  | unnamedEnd {stage : Stage} (supported : settings.supports stage = true) :
      Words settings (.blockEnd (Command.unnamedTechnique, stage)) ["technique_end", stage.token]
  | structStart {name : String} (identifier : Text.isIdentifier name = true) :
      Words settings (.structStart name) ["struct", name]
  | member {type name : String} (known : (MemberType.ofToken? type).isSome)
      (identifier : Text.isIdentifier name = true) :
      Words settings (.member type name) ["member", type, name]
  | structEnd : Words settings .structEnd ["struct_end"]

/-- How a line of some kind is written. Text mentions no keyword. -/
inductive LineKind.Written (settings : Settings) : LineKind → String → Prop
  | text {line : String} (unmentioned : Directive.isMentioned line = false) :
      Written settings .text line
  | command {kind : LineKind} {words : List String} {line : String}
      (legal : kind.Words settings words) (holds : Directive.IsCommand words line) :
      Written settings kind line

/-! ## Outlines as trees -/

inductive StructItem
  | text
  | member (type name : String)
deriving DecidableEq, Repr

namespace StructItem

def name? : StructItem → Option String
  | text => none
  | member _ name => some name

def kind : StructItem → LineKind
  | text => .text
  | member type name => .member type name

end StructItem

/-- A struct with members of different names, and at least one. Text may stand between the members,
but no block may start or end there. -/
structure StructOutline where
  name : String
  items : List StructItem
  distinct : (items.filterMap StructItem.name?).Nodup
  inhabited : items.filterMap StructItem.name? ≠ []

def StructOutline.kinds (outline : StructOutline) : List LineKind :=
  .structStart outline.name :: (outline.items.map StructItem.kind ++ [.structEnd])

inductive BlockItem
  | text
  | struct (outline : StructOutline)

def BlockItem.kinds : BlockItem → List LineKind
  | text => [.text]
  | struct outline => outline.kinds

inductive FileItem
  | outside (item : BlockItem)
  | block (key : BlockKey) (items : List BlockItem)

namespace FileItem

def key? : FileItem → Option BlockKey
  | outside _ => none
  | block key _ => some key

def kinds : FileItem → List LineKind
  | outside item => item.kinds
  | block key items => .blockStart key :: (items.flatMap BlockItem.kinds ++ [.blockEnd key])

end FileItem

/-- A file with blocks of different keys, and at least one. As an outline is a tree, blocks cannot
stand inside of one another. -/
structure FileOutline where
  items : List FileItem
  distinct : (items.filterMap FileItem.key?).Nodup
  inhabited : items.filterMap FileItem.key? ≠ []

def FileOutline.kinds (outline : FileOutline) : List LineKind :=
  outline.items.flatMap FileItem.kinds

/-! ## Progress through an outline -/

/-- What a reading remembers of the lines so far: the keys of the finished blocks, the key of the
open block, and the names of the members of the open struct. -/
structure Progress where
  finished : List BlockKey := []
  block : Option BlockKey := none
  members : Option (List String) := none
deriving DecidableEq, Repr

namespace Progress

/-- The progress after a line, if it may stand here. -/
def step (progress : Progress) : LineKind → Option Progress
  | .text => some progress
  | .blockStart key =>
    if progress.members = none ∧ progress.block = none ∧ key ∉ progress.finished then
      some { progress with block := some key }
    else none
  | .blockEnd key =>
    if progress.members = none ∧ progress.block = some key then
      some { progress with finished := progress.finished ++ [key], block := none }
    else none
  | .structStart _ =>
    if progress.members = none then some { progress with members := some [] } else none
  | .member _ name =>
    match progress.members with
    | none => none
    | some names =>
      if name ∈ names then none else some { progress with members := some (names ++ [name]) }
  | .structEnd =>
    match progress.members with
    | none => none
    | some names => if names = [] then none else some { progress with members := none }

def run (progress : Progress) (kinds : List LineKind) : Option Progress :=
  kinds.foldlM step progress

@[simp] theorem run_nil (progress : Progress) : progress.run [] = some progress := rfl

theorem run_cons (progress : Progress) (kind : LineKind) (kinds : List LineKind) :
    progress.run (kind :: kinds) = (progress.step kind).bind (·.run kinds) := rfl

theorem run_append (progress : Progress) (front back : List LineKind) :
    progress.run (front ++ back) = (progress.run front).bind (·.run back) := by
  simp [run, Option.bind_eq_bind, Option.bind]

/-- All is closed, and there is a block. -/
structure IsComplete (progress : Progress) : Prop where
  inhabited : progress.finished ≠ []
  noBlock : progress.block = none
  noStruct : progress.members = none

/-- What a reading remembers at every moment: keys and names that are different. -/
structure IsProper (progress : Progress) : Prop where
  finished : progress.finished.Nodup
  block : ∀ key, progress.block = some key → key ∉ progress.finished
  members : ∀ names, progress.members = some names → names.Nodup

theorem IsProper.step {progress after : Progress} (hproper : progress.IsProper) {kind : LineKind}
    (hstep : progress.step kind = some after) : after.IsProper := by
  cases kind with
  | text =>
    cases hstep
    exact hproper
  | blockStart key =>
    rw [Progress.step] at hstep
    split at hstep
    · next hfree =>
      cases hstep
      refine ⟨hproper.finished, ?_, hproper.members⟩
      rintro _ ⟨⟩
      exact hfree.2.2
    · cases hstep
  | blockEnd key =>
    rw [Progress.step] at hstep
    split at hstep
    · next hopen =>
      cases hstep
      have hfinished := hproper.finished.concat (hproper.block key hopen.2)
      exact ⟨List.concat_eq_append ▸ hfinished, by simp, hproper.members⟩
    · cases hstep
  | structStart name =>
    rw [Progress.step] at hstep
    split at hstep
    · cases hstep
      refine ⟨hproper.finished, hproper.block, ?_⟩
      rintro _ ⟨⟩
      exact List.nodup_nil
    · cases hstep
  | member type name =>
    rw [Progress.step] at hstep
    split at hstep
    · cases hstep
    · next names hnames =>
      split at hstep
      · cases hstep
      · next hfresh =>
        cases hstep
        refine ⟨hproper.finished, hproper.block, ?_⟩
        rintro _ ⟨⟩
        exact List.concat_eq_append ▸ (hproper.members names hnames).concat hfresh
  | structEnd =>
    rw [Progress.step] at hstep
    split at hstep
    · cases hstep
    · split at hstep
      · cases hstep
      · cases hstep
        exact ⟨hproper.finished, hproper.block, by simp⟩

/-! ### The lines of an outline -/

theorem run_structItems (finished : List BlockKey) (block : Option BlockKey) (names : List String)
    {items : List StructItem} (hdistinct : (names ++ items.filterMap StructItem.name?).Nodup) :
    run ⟨finished, block, some names⟩ (items.map StructItem.kind) =
      some ⟨finished, block, some (names ++ items.filterMap StructItem.name?)⟩ := by
  induction items generalizing names with
  | nil => simp
  | cons item items ih =>
    cases item with
    | text => exact ih names hdistinct
    | member type name =>
      have hitems : (StructItem.member type name :: items).filterMap StructItem.name? =
          name :: items.filterMap StructItem.name? := rfl
      rw [hitems, List.append_cons] at hdistinct ⊢
      have hfresh : name ∉ names := fun hold =>
        List.disjoint_of_nodup_append hdistinct.of_append_left hold (List.mem_singleton_self name)
      have hstep : step ⟨finished, block, some names⟩ (.member type name) =
          some ⟨finished, block, some (names ++ [name])⟩ := by
        simp [step, hfresh]
      rw [List.map_cons, StructItem.kind, run_cons, hstep]
      exact ih (names ++ [name]) hdistinct

/-- A struct that is complete leaves no trace. -/
theorem run_struct (finished : List BlockKey) (block : Option BlockKey) (outline : StructOutline) :
    run ⟨finished, block, none⟩ outline.kinds = some ⟨finished, block, none⟩ := by
  have hitems : run ⟨finished, block, some []⟩ (outline.items.map StructItem.kind) =
      some ⟨finished, block, some (outline.items.filterMap StructItem.name?)⟩ :=
    run_structItems finished block [] outline.distinct
  have hend : step ⟨finished, block, some (outline.items.filterMap StructItem.name?)⟩ .structEnd =
      some ⟨finished, block, none⟩ := by
    rw [step]
    exact if_neg outline.inhabited
  rw [StructOutline.kinds, run_cons, step, if_pos rfl, Option.bind_some, run_append, hitems,
    Option.bind_some, run_cons, hend]
  rfl

theorem run_blockItems (finished : List BlockKey) (block : Option BlockKey)
    (items : List BlockItem) :
    run ⟨finished, block, none⟩ (items.flatMap BlockItem.kinds) = some ⟨finished, block, none⟩ := by
  induction items with
  | nil => rfl
  | cons item items ih =>
    have hitem : run ⟨finished, block, none⟩ item.kinds = some ⟨finished, block, none⟩ := by
      cases item with
      | text => rfl
      | struct outline => exact run_struct finished block outline
    rw [List.flatMap_cons, run_append, hitem]
    exact ih

/-- A block that is complete leaves its key. -/
theorem run_block {finished : List BlockKey} {key : BlockKey} (hfresh : key ∉ finished)
    (items : List BlockItem) :
    run ⟨finished, none, none⟩ (FileItem.block key items).kinds =
      some ⟨finished ++ [key], none, none⟩ := by
  rw [FileItem.kinds, run_cons, step, if_pos ⟨rfl, rfl, hfresh⟩, Option.bind_some, run_append,
    run_blockItems, Option.bind_some, run_cons, step, if_pos ⟨rfl, rfl⟩]
  rfl

theorem run_fileItems (finished : List BlockKey) {items : List FileItem}
    (hdistinct : (finished ++ items.filterMap FileItem.key?).Nodup) :
    run ⟨finished, none, none⟩ (items.flatMap FileItem.kinds) =
      some ⟨finished ++ items.filterMap FileItem.key?, none, none⟩ := by
  induction items generalizing finished with
  | nil => simp
  | cons item items ih =>
    rw [List.flatMap_cons, run_append]
    cases item with
    | outside item =>
      have hitem := run_blockItems finished none [item]
      rw [List.flatMap_singleton] at hitem
      rw [FileItem.kinds, hitem]
      exact ih finished hdistinct
    | block key inner =>
      have hitems : (FileItem.block key inner :: items).filterMap FileItem.key? =
          key :: items.filterMap FileItem.key? := rfl
      rw [hitems, List.append_cons] at hdistinct ⊢
      have hfresh : key ∉ finished := fun hold =>
        List.disjoint_of_nodup_append hdistinct.of_append_left hold (List.mem_singleton_self key)
      rw [run_block hfresh]
      exact ih (finished ++ [key]) hdistinct

/-- The lines of an outline bring a reading to its end. -/
theorem exists_run_of_outline (outline : FileOutline) :
    ∃ progress, run {} outline.kinds = some progress ∧ progress.IsComplete :=
  ⟨_, run_fileItems [] outline.distinct, outline.inhabited, rfl, rfl⟩

end Progress

/-! ### Outlines that are not complete yet -/

/-- What has been seen of an outline: complete items, and items of a block and of a struct that are
still open. -/
structure Sketch where
  items : List FileItem := []
  block : Option (BlockKey × List BlockItem) := none
  struct : Option (String × List StructItem) := none

namespace Sketch

def blockKinds : Option (BlockKey × List BlockItem) → List LineKind
  | none => []
  | some (key, items) => .blockStart key :: items.flatMap BlockItem.kinds

def structKinds : Option (String × List StructItem) → List LineKind
  | none => []
  | some (name, items) => .structStart name :: items.map StructItem.kind

def kinds (sketch : Sketch) : List LineKind :=
  sketch.items.flatMap FileItem.kinds ++ blockKinds sketch.block ++ structKinds sketch.struct

def progress (sketch : Sketch) : Progress where
  finished := sketch.items.filterMap FileItem.key?
  block := sketch.block.map Prod.fst
  members := sketch.struct.map fun struct => struct.2.filterMap StructItem.name?

def push (sketch : Sketch) (item : BlockItem) : Sketch :=
  match sketch.block with
  | none => { sketch with items := sketch.items ++ [.outside item] }
  | some (key, items) => { sketch with block := some (key, items ++ [item]) }

variable {sketch : Sketch}

theorem kinds_push (hstruct : sketch.struct = none) (item : BlockItem) :
    (sketch.push item).kinds = sketch.kinds ++ item.kinds := by
  rw [push]
  split
  · next hblock => simp [kinds, hstruct, hblock, blockKinds, structKinds, FileItem.kinds]
  · next key items hblock => simp [kinds, hstruct, hblock, blockKinds, structKinds]

theorem progress_push (sketch : Sketch) (item : BlockItem) :
    (sketch.push item).progress = sketch.progress := by
  rw [push]
  split
  · simp [progress, FileItem.key?]
  · next key items hblock => simp [progress, hblock]

/-- A line that may stand here takes a sketch to one that has this line too. -/
theorem exists_of_step {after : Progress} (hproper : sketch.progress.IsProper) {kind : LineKind}
    (hstep : sketch.progress.step kind = some after) :
    ∃ next : Sketch, next.progress = after ∧ next.kinds = sketch.kinds ++ [kind] := by
  cases kind with
  | text =>
    cases hstep
    cases hstruct : sketch.struct with
    | none => exact ⟨sketch.push .text, progress_push sketch .text, kinds_push hstruct .text⟩
    | some struct =>
      refine ⟨{ sketch with struct := some (struct.1, struct.2 ++ [.text]) }, ?_, ?_⟩
      · simp [progress, hstruct, StructItem.name?]
      · simp [kinds, hstruct, structKinds, StructItem.kind]
  | blockStart key =>
    rw [Progress.step] at hstep
    split at hstep
    · next hfree =>
      cases hstep
      have hstruct : sketch.struct = none := by simpa [progress] using hfree.1
      have hblock : sketch.block = none := by simpa [progress] using hfree.2.1
      refine ⟨{ sketch with block := some (key, []) }, rfl, ?_⟩
      simp [kinds, hstruct, hblock, blockKinds, structKinds]
    · cases hstep
  | blockEnd key =>
    rw [Progress.step] at hstep
    split at hstep
    · next hopen =>
      cases hstep
      have hstruct : sketch.struct = none := by simpa [progress] using hopen.1
      obtain ⟨block, hblock, rfl⟩ := Option.map_eq_some_iff.mp hopen.2
      refine ⟨{ sketch with items := sketch.items ++ [.block block.1 block.2], block := none },
        ?_, ?_⟩
      · simp [progress, FileItem.key?]
      · simp [kinds, hstruct, hblock, blockKinds, structKinds, FileItem.kinds]
    · cases hstep
  | structStart name =>
    rw [Progress.step] at hstep
    split at hstep
    · next hfree =>
      cases hstep
      have hstruct : sketch.struct = none := by simpa [progress] using hfree
      refine ⟨{ sketch with struct := some (name, []) }, rfl, ?_⟩
      simp [kinds, hstruct, structKinds]
    · cases hstep
  | member type name =>
    rw [Progress.step] at hstep
    split at hstep
    · cases hstep
    · next names hnames =>
      obtain ⟨struct, hstruct, rfl⟩ := Option.map_eq_some_iff.mp hnames
      split at hstep
      · cases hstep
      · cases hstep
        refine ⟨{ sketch with struct := some (struct.1, struct.2 ++ [.member type name]) }, ?_, ?_⟩
        · simp [progress, StructItem.name?]
        · simp [kinds, hstruct, structKinds, StructItem.kind]
  | structEnd =>
    rw [Progress.step] at hstep
    split at hstep
    · cases hstep
    · next names hnames =>
      obtain ⟨struct, hstruct, rfl⟩ := Option.map_eq_some_iff.mp hnames
      split at hstep
      · cases hstep
      · next hinhabited =>
        cases hstep
        let outline : StructOutline :=
          ⟨struct.1, struct.2, hproper.members _ hnames, hinhabited⟩
        refine ⟨push { sketch with struct := none } (.struct outline), ?_, ?_⟩
        · rw [progress_push]
          rfl
        · rw [kinds_push rfl]
          simp [kinds, hstruct, structKinds, BlockItem.kinds, StructOutline.kinds, outline]

theorem exists_of_run {kinds : List LineKind} {after : Progress}
    (hproper : sketch.progress.IsProper) (hrun : sketch.progress.run kinds = some after) :
    ∃ next : Sketch, next.progress = after ∧ after.IsProper ∧
      next.kinds = sketch.kinds ++ kinds := by
  induction kinds generalizing sketch with
  | nil =>
    cases hrun
    exact ⟨sketch, rfl, hproper, by simp⟩
  | cons kind kinds ih =>
    rw [Progress.run_cons] at hrun
    obtain ⟨middle, hstep, hrest⟩ := Option.bind_eq_some_iff.mp hrun
    obtain ⟨next, rfl, hkinds⟩ := exists_of_step hproper hstep
    obtain ⟨final, hprogress, hafter, hall⟩ := ih (hproper.step hstep) hrest
    exact ⟨final, hprogress, hafter, by rw [hall, hkinds, List.append_assoc]; rfl⟩

end Sketch

/-- Lines bring a reading to its end exactly if they are the lines of an outline. -/
theorem exists_outline_iff {kinds : List LineKind} :
    (∃ progress, Progress.run {} kinds = some progress ∧ progress.IsComplete) ↔
      ∃ outline : FileOutline, outline.kinds = kinds := by
  constructor
  · rintro ⟨progress, hrun, hcomplete⟩
    have hstart : ({} : Sketch).progress.IsProper := ⟨List.nodup_nil, by simp [Sketch.progress],
      by simp [Sketch.progress]⟩
    obtain ⟨sketch, rfl, hproper, hkinds⟩ := Sketch.exists_of_run hstart hrun
    refine ⟨⟨sketch.items, hproper.finished, hcomplete.inhabited⟩, ?_⟩
    have hblock : sketch.block = none := by simpa [Sketch.progress] using hcomplete.noBlock
    have hstruct : sketch.struct = none := by simpa [Sketch.progress] using hcomplete.noStruct
    simpa [FileOutline.kinds, Sketch.kinds, hblock, hstruct, Sketch.blockKinds,
      Sketch.structKinds] using hkinds
  · rintro ⟨outline, rfl⟩
    exact Progress.exists_run_of_outline outline

/-! ## Drafts and their progress -/

namespace Draft

def progress (draft : Draft) : Progress where
  finished := draft.blocks.map Block.key
  block := draft.openBlock.map OpenBlock.key
  members := draft.openStruct.map fun struct => struct.struct.members.map Member.name

@[simp] theorem progress_append (draft : Draft) (line : Line) :
    (draft.apply (.append line)).progress = draft.progress := by
  rw [apply, modifyCurrent]
  split
  · rfl
  · next block hblock => simp [progress, hblock, OpenBlock.key]

@[simp] theorem progress_appendAll {α : Type} (draft : Draft) (toLine : α → Line) (list : List α) :
    (draft.applyAll (list.map fun a => .append (toLine a))).progress = draft.progress := by
  induction list generalizing draft with
  | nil => rfl
  | cons a list ih => rw [List.map_cons, applyAll_cons, ih, progress_append]

@[simp] theorem progress_markers (draft : Draft) (settings : Settings) (number : Nat)
    (file : String) :
    (draft.applyAll (Walk.markers settings number file)).progress = draft.progress := by
  rw [Walk.markers]
  split
  · simp
  · rfl

end Draft

namespace Command

def Meaning.progress (meaning : Meaning) (draft : Draft) : Option Progress :=
  meaning.toOption.map fun edits => (draft.applyAll edits).progress

@[simp] theorem Meaning.progress_ok (edits : List Edit) (draft : Draft) :
    Meaning.progress (.ok edits) draft = some (draft.applyAll edits).progress := rfl

@[simp] theorem Meaning.progress_error (complaint : Complaint) (draft : Draft) :
    Meaning.progress (.error complaint) draft = none := rfl

variable {draft : Draft}

/-- A command that may not stand inside of a struct needs to be looked at outside only. -/
theorem progress_outsideStruct {meaning : Meaning} {kind : LineKind}
    (hinside : ∀ progress : Progress, progress.members ≠ none → progress.step kind = none)
    (houtside : draft.openStruct = none → meaning.progress draft = draft.progress.step kind) :
    (outsideStruct draft meaning).progress draft = draft.progress.step kind := by
  rw [outsideStruct]
  split
  · next hopen =>
    rw [hinside draft.progress (by simpa [Draft.progress, Option.isSome_iff_ne_none] using hopen)]
    rfl
  · next hopen => exact houtside (by simpa using hopen)

theorem progress_openBlock (hstruct : draft.openStruct = none) (site : Location)
    (technique : String) (stage : Stage) (active : MutatorMask) :
    (openBlock draft site technique stage active).progress draft =
      draft.progress.step (.blockStart (technique, stage)) := by
  have hmembers : draft.progress.members = none := by simp [Draft.progress, hstruct]
  rw [openBlock, Progress.step]
  split
  · next hopen =>
    have hblock : draft.progress.block ≠ none := by
      simpa [Draft.progress, Option.isSome_iff_ne_none] using hopen
    rw [if_neg fun hfree => hblock hfree.2.1]
    rfl
  · next hopen =>
    have hblock : draft.progress.block = none := by simpa [Draft.progress] using hopen
    split
    · next hold =>
      rw [if_neg ?_]
      · rfl
      · rintro ⟨-, -, hfresh⟩
        rw [Draft.hasBlock_eq_false_iff.mpr hfresh] at hold
        cases hold
    · next hnew =>
      have hfresh := Draft.hasBlock_eq_false_iff.mp (by simpa using hnew)
      rw [if_pos ⟨hmembers, hblock, hfresh⟩]
      rfl

theorem progress_closeBlock (hstruct : draft.openStruct = none) (technique : String)
    (stage : Stage) :
    (closeBlock draft technique stage).progress draft =
      draft.progress.step (.blockEnd (technique, stage)) := by
  have hmembers : draft.progress.members = none := by simp [Draft.progress, hstruct]
  rw [closeBlock, Progress.step]
  split
  · next hblock => simp [Draft.progress, hblock]
  · next block hblock =>
    have hkey : draft.progress.block = some (block.technique, block.stage) := by
      simp [Draft.progress, hblock, OpenBlock.key]
    split
    · next hsame =>
      obtain ⟨rfl, rfl⟩ := hsame
      rw [if_pos ⟨hmembers, hkey⟩]
      simp [Draft.progress, Draft.apply, hblock, Block.key, OpenBlock.close]
    · next hother =>
      rw [if_neg ?_]
      · rfl
      · rintro ⟨-, hsame⟩
        rw [hkey] at hsame
        cases hsame
        exact hother ⟨rfl, rfl⟩

theorem progress_structStart (hstruct : draft.openStruct = none) (site : Location)
    {args : List String} {name : String} (hargs : Text.beforeComment args = [name])
    (hname : Text.isIdentifier name = true) :
    (structStart site args).progress draft = draft.progress.step (.structStart name) := by
  have hmembers : draft.progress.members = none := by simp [Draft.progress, hstruct]
  rw [structStart, hargs, Progress.step, if_pos hmembers]
  dsimp only
  rw [if_pos hname, Meaning.progress_ok, Draft.applyAll_cons, Draft.applyAll_cons,
    Draft.applyAll_nil, Draft.progress_append]
  rfl

theorem progress_member {args : List String} {type name : String}
    (hargs : Text.beforeComment args = [type, name]) (htype : (MemberType.ofToken? type).isSome)
    (hname : Text.isIdentifier name = true) :
    (member draft args).progress draft = draft.progress.step (.member type name) := by
  rw [member, Progress.step]
  cases hopen : draft.openStruct with
  | none => simp [Draft.progress, hopen]
  | some struct =>
    obtain ⟨layout, hlayout⟩ := Option.isSome_iff_exists.mp htype
    have hmembers : draft.progress.members = some (struct.struct.members.map Member.name) := by
      simp [Draft.progress, hopen]
    have hknown : struct.struct.hasMember name = true ↔
        name ∈ struct.struct.members.map Member.name := by
      simp [PackedStruct.hasMember]
    simp only [hargs, addMember, hlayout, hname, hmembers, Bool.not_true, Bool.false_eq_true,
      if_false, hknown]
    split
    · rfl
    · rw [Meaning.progress_ok, Draft.applyAll_cons, Draft.progress_appendAll]
      simp [Draft.progress, Draft.apply, hopen, PackedStruct.push, PackedStruct.nextMember]

theorem progress_structEnd {args : List String} (hargs : Text.beforeComment args = []) :
    (structEnd draft args).progress draft = draft.progress.step .structEnd := by
  rw [structEnd, Progress.step]
  cases hopen : draft.openStruct with
  | none => simp [Draft.progress, hopen]
  | some struct =>
    have hmembers : draft.progress.members = some (struct.struct.members.map Member.name) := by
      simp [Draft.progress, hopen]
    simp only [hargs, hmembers, ne_eq, not_true_eq_false, if_false, List.map_eq_nil_iff]
    split
    · rfl
    · rw [Meaning.progress_ok, Draft.applyAll_cons, Draft.progress_appendAll]
      rfl

theorem opensComment_token (stage : Stage) : Text.opensComment stage.token = false := by
  cases stage <;> rfl

theorem opensComment_of_memberType {token : String} (htoken : (MemberType.ofToken? token).isSome) :
    Text.opensComment token = false := by
  unfold MemberType.ofToken? at htoken
  split at htoken
  all_goals first | rfl | cases htoken

/-- A block without a list of mutators sees all of them. -/
theorem techniqueStart_eq_openBlock {settings : Settings} {site : Location} {stage : Stage}
    {technique : String} {args names : List String}
    (hargs : Text.beforeComment args = stage.token :: names)
    (hnames : techniqueName names = (technique, [])) (hsupported : settings.supports stage = true)
    (hidentifier : Text.isIdentifier technique = true) :
    techniqueStart settings draft site args =
      openBlock draft site technique stage (BitVec.allOnes 64) := by
  rw [techniqueStart, hargs]
  simp only [Stage.ofToken?_token, hnames, hsupported, hidentifier, Bool.not_true,
    Bool.false_eq_true, if_false]
  rfl

theorem progress_techniqueStart {settings : Settings} {site : Location} {stage : Stage}
    {technique : String} {args names : List String}
    (hargs : Text.beforeComment args = stage.token :: names)
    (hnames : techniqueName names = (technique, [])) (hsupported : settings.supports stage = true)
    (hidentifier : Text.isIdentifier technique = true) :
    (outsideStruct draft (techniqueStart settings draft site args)).progress draft =
      draft.progress.step (.blockStart (technique, stage)) := by
  rw [techniqueStart_eq_openBlock hargs hnames hsupported hidentifier]
  refine progress_outsideStruct ?_ fun hstruct => progress_openBlock hstruct _ _ _ _
  intro progress hmembers
  rw [Progress.step, if_neg fun hfree => hmembers hfree.1]

theorem progress_techniqueEnd {stage : Stage} {technique : String} {args : List String}
    (hargs : Text.beforeComment args = [stage.token, technique] ∨
      Text.beforeComment args = [stage.token] ∧ technique = unnamedTechnique) :
    (outsideStruct draft (techniqueEnd draft args)).progress draft =
      draft.progress.step (.blockEnd (technique, stage)) := by
  have hclose : techniqueEnd draft args = closeBlock draft technique stage := by
    obtain hargs | ⟨hargs, rfl⟩ := hargs
    · simp only [techniqueEnd, hargs, Stage.ofToken?_token]
    · simp only [techniqueEnd, hargs, Stage.ofToken?_token]
  rw [hclose]
  refine progress_outsideStruct ?_ fun hstruct => progress_closeBlock hstruct _ _
  intro progress hmembers
  rw [Progress.step, if_neg fun hfree => hmembers hfree.1]

/-- A command of a kind that outlines know of is carried out exactly if its line may stand here. -/
theorem progress_meaning {settings : Settings} {site : Location} {kind : LineKind}
    {words comment : List String} (hwords : kind.Words settings words)
    (hcomment : Text.IsComment comment) :
    (meaning settings draft site (words ++ comment)).progress draft = draft.progress.step kind := by
  cases hwords with
  | @blockStart technique stage hsupported hidentifier hkeyword =>
    have hargs : Text.beforeComment ([stage.token, technique] ++ comment) =
        [stage.token, technique] :=
      Text.beforeComment_append
        (by simp [opensComment_token, Text.opensComment_of_isIdentifier hidentifier]) hcomment
    exact progress_techniqueStart hargs (if_neg hkeyword) hsupported hidentifier
  | @unnamedStart stage hsupported =>
    have hargs : Text.beforeComment ([stage.token] ++ comment) = [stage.token] :=
      Text.beforeComment_append (by simp [opensComment_token]) hcomment
    exact progress_techniqueStart hargs rfl hsupported rfl
  | @blockEnd technique stage hsupported hidentifier hkeyword =>
    have hargs : Text.beforeComment ([stage.token, technique] ++ comment) =
        [stage.token, technique] :=
      Text.beforeComment_append
        (by simp [opensComment_token, Text.opensComment_of_isIdentifier hidentifier]) hcomment
    exact progress_techniqueEnd (.inl hargs)
  | @unnamedEnd stage hsupported =>
    have hargs : Text.beforeComment ([stage.token] ++ comment) = [stage.token] :=
      Text.beforeComment_append (by simp [opensComment_token]) hcomment
    exact progress_techniqueEnd (.inr ⟨hargs, rfl⟩)
  | @structStart name hidentifier =>
    have hargs : Text.beforeComment ([name] ++ comment) = [name] :=
      Text.beforeComment_append (by simp [Text.opensComment_of_isIdentifier hidentifier]) hcomment
    refine progress_outsideStruct ?_ fun hstruct =>
      progress_structStart hstruct site hargs hidentifier
    intro progress hmembers
    rw [Progress.step, if_neg hmembers]
  | @member type name hknown hidentifier =>
    have hargs : Text.beforeComment ([type, name] ++ comment) = [type, name] :=
      Text.beforeComment_append (by simp [opensComment_of_memberType hknown,
        Text.opensComment_of_isIdentifier hidentifier]) hcomment
    exact progress_member hargs hknown hidentifier
  | structEnd => exact progress_structEnd (Text.beforeComment_append (by simp) hcomment)

end Command

/-! ## Files and their outlines -/

/-- A line of an outline is copied if it is text, and is otherwise a command that is carried out
exactly if its line may stand here. -/
theorem LineKind.Written.ofLine {settings : Settings} {kind : LineKind} {line : String}
    (hwritten : kind.Written settings line) :
    (kind = .text ∧ Directive.ofLine line = .plain) ∨
      ∃ args, Directive.ofLine line = .command args ∧ ∀ draft site,
        (Command.meaning settings draft site args).progress draft = draft.progress.step kind := by
  cases hwritten with
  | text hunmentioned =>
    refine .inl ⟨rfl, ?_⟩
    rw [Directive.ofLine, hunmentioned]
    rfl
  | command hwords hholds =>
    obtain ⟨comment, hcomment, hline⟩ := hholds.exists_ofLine
    exact .inr ⟨_, hline, fun draft site => Command.progress_meaning hwords hcomment⟩

section

variable {κ : Type} {settings : Settings} {promise : Event κ → Prop}

/-- A course through the lines of an outline makes the progress that they make. -/
theorem Course.progress_eq {kinds : List LineKind} {lines : List String} {room : Nat}
    {file : Target κ} {number : Nat} {once after : Bool} {draft last : Draft}
    (course : Course settings promise room file number once lines draft after last)
    (hwritten : List.Forall₂ (LineKind.Written settings) kinds lines) :
    after = once ∧ draft.progress.run kinds = some last.progress := by
  induction course generalizing kinds with
  | done =>
    cases hwritten
    exact ⟨rfl, rfl⟩
  | plain hline _ ih =>
    cases hwritten with
    | cons hhead hrest =>
      obtain ⟨rfl, -⟩ | ⟨args, hcommand, -⟩ := hhead.ofLine
      · have hlast := ih hrest
        rw [Draft.progress_append] at hlast
        exact hlast
      · rw [hline] at hcommand
        cases hcommand
  | @command room file number once after line lines args edits draft last hline hmeaning _ ih =>
    cases hwritten with
    | cons hhead hrest =>
      obtain ⟨-, hplain⟩ | ⟨_, hcommand, hstep⟩ := hhead.ofLine
      · rw [hline] at hplain
        cases hplain
      · rw [hline] at hcommand
        cases hcommand
        have hdone := hstep draft ⟨file.path, number, line⟩
        rw [hmeaning, Command.Meaning.progress_ok] at hdone
        have hlast := ih hrest
        rw [Draft.applyAll_append, Draft.progress_markers] at hlast
        rw [Progress.run_cons, ← hdone]
        exact hlast
  | once hline | leftOut hline | included hline =>
    cases hwritten with
    | cons hhead hrest =>
      obtain ⟨-, hplain⟩ | ⟨args, hcommand, -⟩ := hhead.ofLine
      · rw [hline] at hplain
        cases hplain
      · rw [hline] at hcommand
        cases hcommand

/-- Lines that may stand one after the other have a course, which needs no room for other files. -/
theorem Course.exists_of_run {kinds : List LineKind} {lines : List String}
    (hwritten : List.Forall₂ (LineKind.Written settings) kinds lines) (file : Target κ)
    (number : Nat) (once : Bool) {draft : Draft} {progress : Progress}
    (hrun : draft.progress.run kinds = some progress) :
    ∃ last, Course settings promise 0 file number once lines draft once last ∧
      last.progress = progress := by
  induction hwritten generalizing number draft with
  | nil =>
    cases hrun
    exact ⟨draft, .done, rfl⟩
  | @cons kind line kinds lines hhead hrest ih =>
    rw [Progress.run_cons] at hrun
    obtain ⟨middle, hstep, hrun⟩ := Option.bind_eq_some_iff.mp hrun
    obtain ⟨rfl, hline⟩ | ⟨args, hline, hprogress⟩ := hhead.ofLine
    · cases hstep
      rw [← Draft.progress_append draft (.copied file.path number line)] at hrun
      obtain ⟨last, course, hlast⟩ := ih (number + 1) hrun
      exact ⟨last, .plain hline course, hlast⟩
    · rw [← hprogress draft ⟨file.path, number, line⟩] at hstep
      cases hmeaning : Command.meaning settings draft ⟨file.path, number, line⟩ args with
      | error complaint =>
        rw [hmeaning] at hstep
        cases hstep
      | ok edits =>
        rw [hmeaning, Command.Meaning.progress_ok] at hstep
        cases hstep
        rw [← Draft.progress_markers _ settings (number + 1) file.path,
          ← Draft.applyAll_append] at hrun
        obtain ⟨last, course, hlast⟩ := ih (number + 1) hrun
        exact ⟨last, .command hline hmeaning course, hlast⟩

end

/-- A draft gives a program exactly if an outline could end with it. -/
theorem Program.exists_ofDraft_iff {settings : Settings} {entry : String} {draft : Draft} :
    (∃ program, Program.ofDraft settings entry draft = .ok program) ↔
      draft.progress.IsComplete := by
  constructor
  · rintro ⟨program, hprogram⟩
    rw [Program.ofDraft] at hprogram
    split at hprogram
    · cases hprogram
    · cases hprogram
    · cases hprogram
    · next hblock hstruct hblocks =>
      refine ⟨?_, ?_, ?_⟩
      · simpa [Draft.progress] using hblocks
      · simp [Draft.progress, hblock]
      · simp [Draft.progress, hstruct]
  · rintro ⟨hblocks, hblock, hstruct⟩
    simp only [Draft.progress, ne_eq, List.map_eq_nil_iff, Option.map_eq_none_iff]
      at hblocks hblock hstruct
    obtain ⟨first, rest, hblocks⟩ := List.exists_cons_of_ne_nil hblocks
    rw [Program.ofDraft, hblock, hstruct, hblocks]
    exact ⟨_, rfl⟩

/-- A file of lines that are all legal for themselves is read without a fault if and only if they
are the lines of an outline. The size of a struct is not bounded here. -/
theorem exists_outcome_iff_exists_outline {σ κ : Type} {settings : Settings}
    {provider : Provider σ κ} {entry : String} {context : κ} {world : σ} {target : Target κ}
    {text : String} {kinds : List LineKind}
    (hgives : provider.Gives entry context world target text)
    (hwritten : List.Forall₂ (LineKind.Written settings) kinds (Text.lines text)) :
    (∃ program, (read settings provider entry context world).outcome = .ok program) ↔
      ∃ outline : FileOutline, outline.kinds = kinds := by
  have hstart : (({} : Draft).applyAll (Walk.markers settings 1 target.path)).progress = {} :=
    Draft.progress_markers {} settings 1 target.path
  rw [← exists_outline_iff]
  constructor
  · rintro ⟨program, hread⟩
    have hpromise : ∀ event ∈ (read settings provider entry context world).session.journal,
        (fun _ : Event κ => True) event := fun _ _ => trivial
    obtain ⟨_, _, guarded, last, hgiven, -, -, course, hprogram⟩ := course_of_read hread hpromise
    obtain ⟨rfl, rfl⟩ := hgives.unique hgiven
    obtain ⟨rfl, hrun⟩ := course.progress_eq hwritten
    rw [hstart] at hrun
    exact ⟨last.progress, hrun, Program.exists_ofDraft_iff.mp ⟨program, hprogram⟩⟩
  · rintro ⟨progress, hrun, hcomplete⟩
    rw [← hstart] at hrun
    obtain ⟨last, course, rfl⟩ : ∃ last, Course settings (fun _ => True) 0 target 1 false
        (Text.lines text) (({} : Draft).applyAll (Walk.markers settings 1 target.path)) false last ∧
          last.progress = progress := Course.exists_of_run hwritten target 1 false hrun
    rw [read_of_course hgives course]
    exact Program.exists_ofDraft_iff.mpr hcomplete

/-- A file with a struct inside of a block. -/
def packedBlock : String :=
  "#pragma anki technique_start comp // tiles\n#pragma anki struct Tile\n" ++
    "# pragma anki member F32 depth\n\n#pragma anki struct_end\n" ++
    "#pragma anki technique_end comp Unnamed\n"

theorem exists_outcome_packedBlock :
    ∃ program, (read {} (Catalog.provider { files := [("main", packedBlock)] }) "main" ""
      ()).outcome = .ok program := by
  let struct : StructOutline :=
    ⟨"Tile", [.member "F32" "depth", .text], by decide, by decide⟩
  let outline : FileOutline :=
    ⟨[.block ("Unnamed", .compute) [.struct struct]], by decide, by decide⟩
  have hgives : (Catalog.provider { files := [("main", packedBlock)] }).Gives "main" "" ()
      ⟨"main", ""⟩ packedBlock := ⟨rfl, rfl⟩
  have hlines : Text.lines packedBlock =
      ["#pragma anki technique_start comp // tiles", "#pragma anki struct Tile",
        "# pragma anki member F32 depth", "", "#pragma anki struct_end",
        "#pragma anki technique_end comp Unnamed"] := by
    decide +kernel
  have hwritten : List.Forall₂ (LineKind.Written {}) outline.kinds (Text.lines packedBlock) := by
    rw [hlines]
    refine .cons (.command (.unnamedStart rfl) (.attached ["//", "tiles"] rfl ?_)) ?_
    · decide +kernel
    refine .cons (.command (.structStart (by decide)) (.attached [] trivial ?_)) ?_
    · decide +kernel
    refine .cons (.command (.member rfl rfl) (.alone [] trivial ?_)) ?_
    · decide +kernel
    refine .cons (.text (by decide +kernel)) ?_
    refine .cons (.command .structEnd (.attached [] trivial ?_)) ?_
    · decide +kernel
    refine .cons (.command (.blockEnd rfl rfl ?_) (.attached [] trivial ?_)) .nil
    · decide
    · decide +kernel
  exact (exists_outcome_iff_exists_outline hgives hwritten).mpr ⟨outline, rfl⟩

end Ubershader
