import Ubershader.Proofs.Reading.Outcome
import Ubershader.Proofs.Roster.Basic

/-!
# Rosters represent drafts

A roster represents a draft if it has a technique for every name of a block, if each technique has
at every stage the block of that name and stage, and if its place and its opening line are those of
the open block. Every edit that the draft allows goes through on the roster without a crash, and
the rosters and drafts after it correspond again.

The finished blocks of a draft remember their lines only. The buffers of a roster stay as they were
when the block was closed, so what they were included once for is not compared.
-/

namespace Ubershader

theorem Block.find?_key_eq_none {blocks : List Block} {key : BlockKey}
    (hkey : key ∉ blocks.map Block.key) : blocks.find? (fun block => block.key = key) = none := by
  rw [List.find?_eq_none]
  intro block hblock hsame
  refine hkey ?_
  rw [← of_decide_eq_true hsame]
  exact List.mem_map_of_mem hblock

namespace Draft

def allBlocks (draft : Draft) : List Block :=
  draft.blocks ++ (draft.openBlock.map OpenBlock.close).toList

def block? (draft : Draft) (key : BlockKey) : Option Block :=
  draft.allBlocks.find? fun block => block.key = key

/-- The names of the techniques, in the order of their first blocks. -/
def names (draft : Draft) : List String :=
  (Technique.ofBlocks draft.allBlocks).map Technique.name

variable {draft : Draft} {block : OpenBlock}

theorem allBlocks_of_none (hopen : draft.openBlock = none) : draft.allBlocks = draft.blocks := by
  simp [allBlocks, hopen]

theorem allBlocks_of_some (hopen : draft.openBlock = some block) :
    draft.allBlocks = draft.blocks ++ [block.close] := by
  simp [allBlocks, hopen]

theorem nodup_names (draft : Draft) : draft.names.Nodup :=
  (Technique.names_ofBlocks draft.allBlocks).1

theorem mem_names {name : String} :
    name ∈ draft.names ↔ ∃ block ∈ draft.allBlocks, block.technique = name := by
  rw [names, (Technique.names_ofBlocks draft.allBlocks).2, List.mem_map]

theorem names_of_some (hopen : draft.openBlock = some block) :
    draft.names =
      if block.technique ∈ (Technique.ofBlocks draft.blocks).map Technique.name then
        (Technique.ofBlocks draft.blocks).map Technique.name
      else (Technique.ofBlocks draft.blocks).map Technique.name ++ [block.technique] := by
  rw [names, allBlocks_of_some hopen, Technique.ofBlocks_concat, Technique.map_name_file]
  rfl

theorem block?_eq_none_of_not_mem_names {name : String} (hname : name ∉ draft.names)
    (stage : Stage) : draft.block? (name, stage) = none := by
  rw [block?, List.find?_eq_none]
  intro block hblock hkey
  refine hname (mem_names.mpr ⟨block, hblock, ?_⟩)
  exact congrArg Prod.fst (of_decide_eq_true hkey)

theorem block?_of_none (hopen : draft.openBlock = none) (key : BlockKey) :
    draft.block? key = draft.blocks.find? fun block => block.key = key := by
  rw [block?, allBlocks_of_none hopen]

/-- No finished block has the key of the open one, so the open one is found under it. -/
theorem block?_of_some (hdraft : draft.WellFormed) (hopen : draft.openBlock = some block)
    (key : BlockKey) :
    draft.block? key =
      if block.key = key then some block.close
      else draft.blocks.find? fun block => block.key = key := by
  rw [block?, allBlocks_of_some hopen, List.find?_append]
  split
  · next hkey =>
    have hnone := Block.find?_key_eq_none (hdraft.openKey block hopen)
    simp [← hkey, hnone]
  · next hkey => simp [hkey]

theorem isSome_block? (hopen : draft.openBlock = none) (technique : String) (stage : Stage) :
    (draft.block? (technique, stage)).isSome = draft.hasBlock technique stage := by
  rw [block?_of_none hopen, List.isSome_find?, hasBlock]
  congr
  funext block
  rw [Bool.eq_iff_iff]
  simp [Block.key]

end Draft

/-! ## One technique -/

/-- An entry has a buffer for each stage of its set, and the blocks that are found under its
name. -/
structure Entry.Represents (entry : Entry) (block? : BlockKey → Option Block) : Prop where
  slots : ∀ stage, entry.stages.contains stage = (entry.buffers stage).isSome
  blocks : ∀ stage, entry.block? stage = block? (entry.name, stage)

namespace Entry

variable {entry : Entry} {draft next : Draft}

theorem Represents.congr (hentry : entry.Represents draft.block?)
    (hblocks : ∀ stage, next.block? (entry.name, stage) = draft.block? (entry.name, stage)) :
    entry.Represents next.block? where
  slots := hentry.slots
  blocks := by
    intro stage
    rw [hblocks]
    exact hentry.blocks stage

theorem represents_blank {name : String} (hname : name ∉ draft.names) :
    ({ name := name } : Entry).Represents draft.block? where
  slots := by simp
  blocks := by
    intro stage
    rw [Draft.block?_eq_none_of_not_mem_names hname]
    simp [block?]

theorem Represents.contains_eq (hentry : entry.Represents draft.block?) (stage : Stage) :
    entry.stages.contains stage = (draft.block? (entry.name, stage)).isSome := by
  have hslot := hentry.slots stage
  rw [← hentry.blocks, block?]
  split
  · next hstage =>
    rw [Option.isSome_map, ← hslot]
  · next hstage => simpa using hstage

/-- The entry of the open block follows a change of its buffer. -/
theorem Represents.setBuffer (hentry : entry.Represents draft.block?) (hdraft : draft.WellFormed)
    {block : OpenBlock} (hopen : draft.openBlock = some block)
    (hname : entry.name = block.technique) (change : Buffer → Buffer) :
    (entry.setBuffer block.stage (change block.buffer)).Represents
      (draft.modifyCurrent change).block? := by
  have hnext : (draft.modifyCurrent change).openBlock =
      some { block with buffer := change block.buffer } := by
    simp [Draft.modifyCurrent, hopen]
  have hold : entry.block? block.stage = some block.close := by
    rw [hentry.blocks, Draft.block?_of_some hdraft hopen, if_pos (by rw [hname]; rfl)]
  have hset : entry.stages.contains block.stage = true := by
    rw [hentry.contains_eq, ← hentry.blocks, hold]
    rfl
  have hactive : entry.active block.stage = block.active := by
    rw [block?, if_pos hset] at hold
    obtain ⟨buffer, -, hclose⟩ := Option.map_eq_some_iff.mp hold
    exact congrArg Block.active hclose
  constructor
  · intro stage
    by_cases hstage : stage = block.stage
    · subst hstage
      simpa [Entry.setBuffer] using hset
    · simpa [Entry.setBuffer, hstage] using hentry.slots stage
  · intro stage
    rw [Draft.block?_of_some (hdraft.modifyCurrent change) hnext]
    by_cases hstage : stage = block.stage
    · subst hstage
      rw [if_pos (by rw [name_setBuffer, hname]; rfl)]
      simp [block?, Entry.setBuffer, hset, hactive, hname, OpenBlock.close]
    · have hkey : block.key ≠ (entry.name, stage) := fun heq =>
        hstage (congrArg Prod.snd heq).symm
      have hblock : (entry.setBuffer block.stage (change block.buffer)).block? stage =
          entry.block? stage := by
        simp [block?, Entry.setBuffer, hstage]
      have hblocks : (draft.modifyCurrent change).blocks = draft.blocks := by
        simp [Draft.modifyCurrent, hopen]
      rw [hblock, hentry.blocks, Draft.block?_of_some hdraft hopen, if_neg hkey, hblocks]
      exact (if_neg hkey).symm

/-- Opening a stage that has no block does not crash. -/
theorem Represents.openStage_eq_ok (hentry : entry.Represents draft.block?) {stage : Stage}
    (hopen : draft.openBlock = none) (hfresh : draft.hasBlock entry.name stage = false)
    (active : MutatorMask) (common : Buffer) :
    entry.openStage stage active common = .ok (entry.addStage stage active common) := by
  have hset : entry.stages.contains stage = false := by
    rw [hentry.contains_eq, Draft.isSome_block? hopen, hfresh]
  rw [openStage, if_neg (by simp [hset])]

theorem Represents.addStage (hentry : entry.Represents draft.block?) {stage : Stage}
    {active : MutatorMask} {site : Location} (hopen : draft.openBlock = none)
    (hnext : (draft.apply (.openBlock entry.name stage active site)).WellFormed) :
    (entry.addStage stage active draft.common).Represents
      (draft.apply (.openBlock entry.name stage active site)).block? := by
  constructor
  · intro other
    by_cases hstage : stage = other
    · simp [Entry.addStage, hstage]
    · have hother : other ≠ stage := fun heq => hstage heq.symm
      simpa [Entry.addStage, hstage, hother] using hentry.slots other
  · intro other
    rw [Draft.block?_of_some hnext rfl]
    by_cases hstage : stage = other
    · subst hstage
      simp [block?, Entry.addStage, OpenBlock.key, OpenBlock.close]
    · have hother : other ≠ stage := fun heq => hstage heq.symm
      have hblock : (entry.addStage stage active draft.common).block? other =
          entry.block? other := by
        simp [block?, Entry.addStage, hstage, hother]
      rw [hblock, hentry.blocks, Draft.block?_of_none hopen,
        if_neg fun heq => hstage (congrArg Prod.snd heq)]
      rfl

end Entry

/-! ## The whole table -/

namespace Roster

/-- The place and the opening line are those of the open block, and the buffer at that place is
its buffer. -/
def Holds (roster : Roster) : Option OpenBlock → Prop
  | none => roster.place = .common ∧ roster.opened = none
  | some block => roster.opened = some block.site ∧
      ∃ index entry, roster.place = .entry index block.stage ∧
        roster.entries[index]? = some entry ∧ entry.name = block.technique ∧
        entry.buffers block.stage = some block.buffer

/-- A roster and a draft know the same. Techniques are compared by their names and their order,
and blocks by their techniques and stages. -/
structure Represents (roster : Roster) (draft : Draft) : Prop where
  space : roster.space = draft.space
  common : roster.common = draft.common
  names : roster.entries.map Entry.name = draft.names
  entries : ∀ entry ∈ roster.entries, entry.Represents draft.block?
  block : roster.Holds draft.openBlock
  openStruct : roster.openStruct = draft.openStruct
  library : roster.library = draft.library
  rayType : roster.rayType = draft.rayType
  sixteenBit : roster.sixteenBit = draft.sixteenBit

theorem represents_empty : Represents {} {} where
  space := rfl
  common := rfl
  names := rfl
  entries := by simp
  block := ⟨rfl, rfl⟩
  openStruct := rfl
  library := rfl
  rayType := rfl
  sixteenBit := rfl

/-- Names tell entries apart, so a replaced entry is not found any more. -/
theorem eq_or_mem_of_mem_set {entries : List Entry} (hnames : (entries.map Entry.name).Nodup)
    {index : Nat} {entry : Entry} (hentry : entries[index]? = some entry) {changed other : Entry}
    (hother : other ∈ entries.set index changed) :
    other = changed ∨ other ∈ entries ∧ other.name ≠ entry.name := by
  obtain ⟨position, hposition⟩ := List.mem_iff_getElem?.mp hother
  by_cases hindex : index = position
  · left
    subst hindex
    simpa [(List.getElem?_eq_some_iff.mp hentry).1] using hposition.symm
  · right
    rw [List.getElem?_set_ne hindex] at hposition
    refine ⟨List.mem_of_getElem? hposition, fun hname => hindex ?_⟩
    have hlt : index < (entries.map Entry.name).length := by
      simpa using (List.getElem?_eq_some_iff.mp hentry).1
    refine (List.getElem?_inj hlt hnames).mp ?_
    rw [List.getElem?_map, List.getElem?_map, hentry, hposition, Option.map_some, Option.map_some,
      hname]

theorem map_name_set {entries : List Entry} {index : Nat} {entry changed : Entry}
    (hentry : entries[index]? = some entry) (hname : changed.name = entry.name) :
    (entries.set index changed).map Entry.name = entries.map Entry.name := by
  obtain ⟨hindex, hget⟩ := List.getElem?_eq_some_iff.mp hentry
  have hlt : index < (entries.map Entry.name).length := by simpa using hindex
  have hsame : entry.name = (entries.map Entry.name)[index] := by simp [hget]
  rw [List.map_set, hname, hsame, List.set_getElem_self]

variable {roster : Roster} {draft : Draft}

theorem Represents.nodup_names (hroster : roster.Represents draft) :
    (roster.entries.map Entry.name).Nodup :=
  hroster.names ▸ draft.nodup_names

theorem Represents.current_eq_ok (hroster : roster.Represents draft) :
    roster.current = .ok draft.current := by
  have hblock := hroster.block
  rw [current, Draft.current]
  cases hopen : draft.openBlock with
  | none =>
    rw [hopen] at hblock
    rw [hblock.1, hroster.common]
  | some block =>
    rw [hopen] at hblock
    obtain ⟨-, index, entry, hplace, hentry, -, hbuffer⟩ := hblock
    rw [hplace]
    simp [Checked.element_eq_ok hentry, Entry.buffer, hbuffer]

/-- Changing the current buffer finds a buffer to change. -/
theorem Represents.exists_modifyCurrent (hroster : roster.Represents draft)
    (hdraft : draft.WellFormed) (change : Buffer → Buffer) :
    ∃ next, roster.modifyCurrent change = .ok next ∧
      next.Represents (draft.modifyCurrent change) := by
  have hblock := hroster.block
  cases hopen : draft.openBlock with
  | none =>
    rw [hopen] at hblock
    have hnext : draft.modifyCurrent change = { draft with common := change draft.common } := by
      simp [Draft.modifyCurrent, hopen]
    refine ⟨{ roster with common := change roster.common }, by rw [modifyCurrent, hblock.1], ?_⟩
    rw [hnext]
    exact { hroster with common := congrArg change hroster.common }
  | some block =>
    rw [hopen] at hblock
    obtain ⟨hopened, index, entry, hplace, hentry, hname, hbuffer⟩ := hblock
    have hnext : draft.modifyCurrent change =
        { draft with openBlock := some { block with buffer := change block.buffer } } := by
      simp [Draft.modifyCurrent, hopen]
    have hindex : index < roster.entries.length := (List.getElem?_eq_some_iff.mp hentry).1
    have hchanged := (hroster.entries entry (List.mem_of_getElem? hentry)).setBuffer hdraft hopen
      hname change
    refine ⟨{ roster with
      entries := roster.entries.set index
        (entry.setBuffer block.stage (change block.buffer)) }, ?_, ?_⟩
    · rw [modifyCurrent, hplace]
      simp [Checked.element_eq_ok hentry, Checked.replace_eq_ok hindex, Entry.buffer, hbuffer]
    · rw [hnext] at hchanged ⊢
      refine ⟨hroster.space, hroster.common, ?_, ?_, ?_, hroster.openStruct, hroster.library,
        hroster.rayType, hroster.sixteenBit⟩
      · have hnames : (roster.entries.set index
            (entry.setBuffer block.stage (change block.buffer))).map Entry.name = draft.names :=
          (map_name_set hentry (entry.name_setBuffer _ _)).trans hroster.names
        rw [Draft.names_of_some hopen] at hnames
        rw [Draft.names_of_some rfl]
        exact hnames
      · intro other hother
        obtain rfl | ⟨hold, hne⟩ := eq_or_mem_of_mem_set hroster.nodup_names hentry hother
        · exact hchanged
        · -- The other techniques have none of their blocks changed.
          refine (hroster.entries other hold).congr fun stage => ?_
          have hkey : block.key ≠ (other.name, stage) := fun heq =>
            hne ((congrArg Prod.fst heq).symm.trans hname.symm)
          rw [Draft.block?_of_some hdraft hopen, if_neg hkey,
            Draft.block?_of_some (hnext ▸ hdraft.modifyCurrent change) rfl]
          exact if_neg hkey
      · exact ⟨hopened, index, entry.setBuffer block.stage (change block.buffer), hplace,
          by simp [hindex], hname, by simp [Entry.setBuffer]⟩

theorem exists_entry_of_findIdx? {entries : List Entry} {technique : String} {index : Nat}
    (hindex : entries.findIdx? (fun entry => entry.name == technique) = some index) :
    ∃ entry, entries[index]? = some entry ∧ entry.name = technique := by
  obtain ⟨hlt, hname, -⟩ := List.findIdx?_eq_some_iff_getElem.mp hindex
  exact ⟨_, List.getElem?_eq_getElem hlt, beq_iff_eq.mp hname⟩

theorem Represents.not_mem_names (hroster : roster.Represents draft) {technique : String}
    (hnone : roster.entries.findIdx? (fun entry => entry.name == technique) = none) :
    technique ∉ draft.names := by
  rw [← hroster.names, List.mem_map]
  rintro ⟨entry, hentry, hname⟩
  simpa [hname] using List.findIdx?_eq_none_iff.mp hnone entry hentry

/-- A technique is found in the table, or is added to it without a block. -/
theorem Represents.of_provideEntry (hroster : roster.Represents draft) {technique : String}
    {index : Nat} {entries : List Entry}
    (hprovide : roster.provideEntry technique = (index, entries)) :
    (∃ entry, entries[index]? = some entry ∧ entry.name = technique) ∧
      (∀ entry ∈ entries, entry.Represents draft.block?) ∧
      entries.map Entry.name =
        if technique ∈ draft.names then draft.names else draft.names ++ [technique] := by
  rw [provideEntry] at hprovide
  split at hprovide
  · next position hposition =>
    cases hprovide
    obtain ⟨entry, hentry, rfl⟩ := exists_entry_of_findIdx? hposition
    have hmem : entry.name ∈ draft.names := by
      rw [← hroster.names]
      exact List.mem_map_of_mem (List.mem_of_getElem? hentry)
    refine ⟨⟨entry, hentry, rfl⟩, hroster.entries, ?_⟩
    rw [if_pos hmem, hroster.names]
  · next hnone =>
    cases hprovide
    have hmem := hroster.not_mem_names hnone
    refine ⟨⟨{ name := technique }, by simp, rfl⟩, ?_, ?_⟩
    · intro entry hentry
      obtain hold | hlast := List.mem_append.mp hentry
      · exact hroster.entries entry hold
      · rw [List.mem_singleton.mp hlast]
        exact Entry.represents_blank hmem
    · rw [if_neg hmem, List.map_append, hroster.names]
      rfl

/-- A block that the draft allows is opened without a crash: the technique is at its index, and the
stage is not open yet. -/
theorem Represents.exists_openBlock (hroster : roster.Represents draft) {technique : String}
    {stage : Stage} {active : MutatorMask} {site : Location} (hopen : draft.openBlock = none)
    (hfresh : draft.hasBlock technique stage = false)
    (hnext : (draft.apply (.openBlock technique stage active site)).WellFormed) :
    ∃ next, roster.openBlock technique stage active site = .ok next ∧
      next.Represents (draft.apply (.openBlock technique stage active site)) := by
  obtain ⟨⟨index, entries⟩, hprovide⟩ : ∃ found, roster.provideEntry technique = found := ⟨_, rfl⟩
  obtain ⟨⟨entry, hentry, rfl⟩, hentries, hnames⟩ := hroster.of_provideEntry hprovide
  have hindex : index < entries.length := (List.getElem?_eq_some_iff.mp hentry).1
  have hrepresents := hentries entry (List.mem_of_getElem? hentry)
  have hallNames : draft.names = (Technique.ofBlocks draft.blocks).map Technique.name := by
    rw [Draft.names, Draft.allBlocks_of_none hopen]
  have hnextOpen : (draft.apply (.openBlock entry.name stage active site)).openBlock =
      some ⟨entry.name, stage, active, draft.common, site⟩ := rfl
  have hnextNames : entries.map Entry.name =
      (draft.apply (.openBlock entry.name stage active site)).names := by
    rw [hnames, hallNames, Draft.names_of_some hnextOpen]
    rfl
  refine ⟨{ roster with
    entries := entries.set index (entry.addStage stage active roster.common)
    place := .entry index stage
    opened := some site }, ?_, ?_⟩
  · simp [openBlock, hprovide, Checked.element_eq_ok hentry, Checked.replace_eq_ok hindex,
      hrepresents.openStage_eq_ok hopen hfresh]
  · refine ⟨hroster.space, hroster.common, ?_, ?_, ?_, hroster.openStruct, hroster.library,
      hroster.rayType, hroster.sixteenBit⟩
    · exact (map_name_set hentry (entry.name_addStage _ _ _)).trans hnextNames
    · intro other hother
      have hnodup : (entries.map Entry.name).Nodup := hnextNames ▸ Draft.nodup_names _
      obtain rfl | ⟨hold, hne⟩ := eq_or_mem_of_mem_set hnodup hentry hother
      · rw [hroster.common]
        exact hrepresents.addStage hopen hnext
      · refine (hentries other hold).congr fun stage => ?_
        rw [Draft.block?_of_some hnext hnextOpen, Draft.block?_of_none hopen]
        exact if_neg fun heq => hne (congrArg Prod.fst heq).symm
    · exact ⟨rfl, index, entry.addStage stage active roster.common, rfl, by simp [hindex], rfl,
        by simp [Entry.addStage, hroster.common]⟩

theorem Represents.closeBlock (hroster : roster.Represents draft) {block : OpenBlock}
    (hopen : draft.openBlock = some block) :
    Represents { roster with place := .common, opened := none } (draft.apply .closeBlock) := by
  have hnext : draft.apply .closeBlock =
      { draft with blocks := draft.blocks ++ [block.close], openBlock := none } := by
    simp [Draft.apply, hopen]
  have hblocks : (draft.apply .closeBlock).allBlocks = draft.allBlocks := by
    rw [hnext, Draft.allBlocks_of_some hopen]
    exact Draft.allBlocks_of_none rfl
  rw [hnext] at hblocks ⊢
  refine ⟨hroster.space, hroster.common, ?_, ?_, ⟨rfl, rfl⟩, hroster.openStruct, hroster.library,
    hroster.rayType, hroster.sixteenBit⟩
  · rw [Draft.names, hblocks]
    exact hroster.names
  · intro entry hentry
    refine (hroster.entries entry hentry).congr fun stage => ?_
    rw [Draft.block?, hblocks]
    rfl

/-- Every edit that a draft allows goes through on a roster that represents it. -/
theorem Represents.exists_apply {settings : Settings} {edit : Edit}
    (hroster : roster.Represents draft) (hdraft : draft.WellFormed)
    (hallows : draft.Allows settings edit) :
    ∃ next, roster.apply edit = .ok next ∧ next.Represents (draft.apply edit) := by
  have hnext := hdraft.apply hallows
  cases hallows with
  | append line => exact hroster.exists_modifyCurrent hdraft (·.push line)
  | guard path => exact hroster.exists_modifyCurrent hdraft (·.guard path)
  | openBlock _ hopen hfresh => exact hroster.exists_openBlock hopen hfresh hnext
  | closeBlock _ hopen => exact ⟨_, rfl, hroster.closeBlock hopen⟩
  | addMutator =>
    exact ⟨_, rfl, { hroster with space := congrArg (Space.addMutator · _) hroster.space }⟩
  | addSkip => exact ⟨_, rfl, { hroster with space := congrArg (Space.addSkip · _) hroster.space }⟩
  | addReplacement =>
    exact ⟨_, rfl, { hroster with space := congrArg (Space.addReplacement · _) hroster.space }⟩
  | openStruct => exact ⟨_, rfl, { hroster with openStruct := rfl }⟩
  | addMember =>
    exact ⟨_, rfl, { hroster with openStruct := congrArg (Option.map _) hroster.openStruct }⟩
  | closeStruct => exact ⟨_, rfl, { hroster with openStruct := rfl }⟩
  | setLibrary => exact ⟨_, rfl, { hroster with library := rfl }⟩
  | setRayType => exact ⟨_, rfl, { hroster with rayType := rfl }⟩
  | allowSixteenBit => exact ⟨_, rfl, { hroster with sixteenBit := rfl }⟩

/-- The edits of a trace can be replayed on a roster, which represents what they add up to. -/
theorem exists_applyAll_of_trace {settings : Settings} {edits : List Edit}
    (trace : Trace settings edits) :
    ∃ roster, applyAll {} edits = .ok roster ∧
      roster.Represents (({} : Draft).applyAll edits) := by
  induction trace with
  | nil => exact ⟨{}, rfl, represents_empty⟩
  | @snoc edits edit trace hallows ih =>
    obtain ⟨roster, hroster, hrepresents⟩ := ih
    obtain ⟨next, hnext, hnextRepresents⟩ :=
      hrepresents.exists_apply (Draft.wellFormed_of_trace trace) hallows
    refine ⟨next, ?_, by simpa using hnextRepresents⟩
    rw [applyAll_append, hroster]
    simp [applyAll, hnext]

end Roster

/-! ## The finished program -/

def Technique.inPipelineOrder (technique : Technique) : Technique :=
  ⟨technique.name, Stage.all.filterMap technique.block?⟩

def Program.inPipelineOrder (program : Program) : Program :=
  { program with techniques := program.techniques.map Technique.inPipelineOrder }

theorem Technique.find?_filterMap_block? (technique : Technique) (stages : List Stage)
    (stage : Stage) :
    (stages.filterMap technique.block?).find? (fun block => block.stage == stage) =
      if stage ∈ stages then technique.block? stage else none := by
  induction stages with
  | nil => rfl
  | cons first stages ih =>
    cases hblock : technique.block? first with
    | none =>
      rw [List.filterMap_cons_none hblock, ih]
      by_cases hstage : stage = first
      · simp [hstage, hblock]
      · simp [hstage]
    | some block =>
      have hown : block.stage = first := by simpa using List.find?_some hblock
      rw [List.filterMap_cons_some hblock, List.find?_cons, hown, ih]
      by_cases hstage : stage = first
      · simp [hstage, hblock]
      · have hother : (first == stage) = false := by simpa using fun heq => hstage heq.symm
        simp [hstage, hother]

/-- The order of the blocks is all that changes. -/
@[simp] theorem Technique.block?_inPipelineOrder (technique : Technique) (stage : Stage) :
    technique.inPipelineOrder.block? stage = technique.block? stage := by
  refine (technique.find?_filterMap_block? Stage.all stage).trans ?_
  simp

theorem Draft.block?_eq {draft : Draft} (hdraft : draft.WellFormed)
    (hopen : draft.openBlock = none) {technique : Technique}
    (htechnique : technique ∈ Technique.ofBlocks draft.blocks) (stage : Stage) :
    draft.block? (technique.name, stage) = technique.block? stage := by
  refine Option.ext fun block => ?_
  rw [Technique.block?_eq_some_iff hdraft.keys htechnique, block?_of_none hopen]
  constructor
  · intro hfound
    have hkey := List.find?_some hfound
    exact ⟨List.mem_of_find?_eq_some hfound, of_decide_eq_true hkey⟩
  · rintro ⟨hblock, hkey⟩
    cases hfound : draft.blocks.find? fun block => block.key = (technique.name, stage) with
    | none =>
      have hne := List.find?_eq_none.mp hfound block hblock
      simp [hkey] at hne
    | some other =>
      have hother := List.find?_some hfound
      rw [List.inj_on_of_nodup_map hdraft.keys (List.mem_of_find?_eq_some hfound) hblock
        ((of_decide_eq_true hother).trans hkey.symm)]

namespace Roster

variable {roster : Roster} {draft : Draft}

theorem Represents.map_technique (hroster : roster.Represents draft) (hdraft : draft.WellFormed)
    (hopen : draft.openBlock = none) :
    roster.entries.map Entry.technique =
      (Technique.ofBlocks draft.blocks).map Technique.inPipelineOrder := by
  have hnames : roster.entries.map Entry.name =
      (Technique.ofBlocks draft.blocks).map Technique.name := by
    rw [hroster.names, Draft.names, Draft.allBlocks_of_none hopen]
  -- Entries and techniques have the same names in the same places, and a name has the same
  -- blocks on both sides.
  refine List.ext_getElem (by simpa using congrArg List.length hnames) fun index hleft hright => ?_
  rw [List.length_map] at hleft hright
  have hname : roster.entries[index].name = (Technique.ofBlocks draft.blocks)[index].name := by
    simpa [hleft, hright] using congrArg (·[index]?) hnames
  have hblocks : roster.entries[index].block? =
      (Technique.ofBlocks draft.blocks)[index].block? := by
    funext stage
    rw [(hroster.entries _ (List.getElem_mem hleft)).blocks, hname,
      Draft.block?_eq hdraft hopen (List.getElem_mem hright)]
  rw [List.getElem_map, List.getElem_map, Entry.technique, Technique.inPipelineOrder, hname,
    hblocks]

theorem Represents.entries_eq_nil_iff (hroster : roster.Represents draft) :
    roster.entries = [] ↔ draft.allBlocks = [] := by
  rw [← List.map_eq_nil_iff, hroster.names, List.eq_nil_iff_forall_not_mem]
  constructor
  · intro hnone
    refine List.eq_nil_iff_forall_not_mem.mpr fun block hblock => ?_
    exact hnone _ (Draft.mem_names.mpr ⟨block, hblock, rfl⟩)
  · intro hnone name hname
    obtain ⟨block, hblock, -⟩ := Draft.mem_names.mp hname
    simp [hnone] at hblock

/-- A roster comes to the program that the draft comes to, or to the same fault. -/
theorem Represents.finish_eq (hroster : roster.Represents draft) (hdraft : draft.WellFormed)
    (settings : Settings) (file : String) :
    roster.finish settings file =
      (Program.ofDraft settings file draft).map Program.inPipelineOrder := by
  have hblock := hroster.block
  cases hopen : draft.openBlock with
  | some block =>
    rw [hopen] at hblock
    obtain ⟨hopened, index, entry, hplace, hentry, -⟩ := hblock
    have hne : roster.entries.isEmpty = false := by
      rw [List.isEmpty_eq_false_iff]
      exact List.ne_nil_of_mem (List.mem_of_getElem? hentry)
    simp [finish, Program.ofDraft, hne, hplace, hopened, hopen, Except.map]
  | none =>
    rw [hopen] at hblock
    have hempty := hroster.entries_eq_nil_iff
    rw [Draft.allBlocks_of_none hopen] at hempty
    cases hblocks : draft.blocks with
    | nil => simp [finish, Program.ofDraft, hopen, hblocks, hempty.mpr hblocks, Except.map]
    | cons first rest =>
      have hne : roster.entries.isEmpty = false := by
        rw [List.isEmpty_eq_false_iff, Ne, hempty, hblocks]
        simp
      cases hstruct : draft.openStruct with
      | some struct =>
        simp [finish, Program.ofDraft, hne, hblock.1, hopen, hblocks, hroster.openStruct, hstruct,
          Except.map]
      | none =>
        have htechniques := hroster.map_technique hdraft hopen
        simp [finish, Program.ofDraft, hne, hblock.1, hopen, hblocks, hroster.openStruct, hstruct,
          Except.map, program, Program.inPipelineOrder, htechniques, hroster.space,
          hroster.common, hroster.library, hroster.rayType, hroster.sixteenBit]

end Roster

end Ubershader
