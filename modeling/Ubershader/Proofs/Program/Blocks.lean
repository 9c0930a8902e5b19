import Mathlib.Data.List.Induction
import Mathlib.Data.List.Nodup
import Ubershader.Program.Basic

/-!
# Blocks and techniques

Grouping blocks into techniques loses nothing and mixes nothing up: a technique has exactly the
blocks of its name, in their order, every block is in a technique, and no two techniques share a
name. When no two blocks share both name and stage, the block of a technique for a stage is the
one block with that name and stage. Blocks can be changed before or after they are grouped, as long
as they keep their names.
-/

namespace Ubershader

/-- What tells blocks apart: the technique and the stage that they are written for. -/
abbrev BlockKey := String × Stage

def Block.key (block : Block) : BlockKey :=
  (block.technique, block.stage)

def OpenBlock.key (block : OpenBlock) : BlockKey :=
  (block.technique, block.stage)

@[simp] theorem OpenBlock.key_close (block : OpenBlock) : block.close.key = block.key := rfl

theorem Draft.hasBlock_eq_false_iff {draft : Draft} {technique : String} {stage : Stage} :
    draft.hasBlock technique stage = false ↔
      (technique, stage) ∉ draft.blocks.map Block.key := by
  rw [Draft.hasBlock, List.any_eq_false, List.mem_map]
  constructor
  · rintro hnone ⟨block, hblock, hkey⟩
    cases hkey
    exact hnone block hblock (by simp)
  · intro hnone block hblock hmatch
    simp only [Bool.and_eq_true, beq_iff_eq] at hmatch
    exact hnone ⟨block, hblock, by rw [Block.key, hmatch.1, hmatch.2]⟩

namespace Technique

theorem map_name_file (block : Block) (techniques : List Technique) :
    (file block techniques).map name =
      if block.technique ∈ techniques.map name then techniques.map name
      else techniques.map name ++ [block.technique] := by
  induction techniques with
  | nil => rfl
  | cons technique rest ih =>
    rw [file]
    by_cases hname : technique.name = block.technique
    · simp [hname]
    · rw [if_neg hname, List.map_cons, ih]
      have hother : block.technique ≠ technique.name := fun heq => hname heq.symm
      by_cases hmem : block.technique ∈ rest.map name <;> simp [hother, hmem]

/-- Filing a block changes the technique of its name only. -/
theorem mem_file {block : Block} {techniques : List Technique} {technique : Technique}
    (hnames : (techniques.map name).Nodup) (hmem : technique ∈ file block techniques) :
    (technique ∈ techniques ∧ technique.name ≠ block.technique) ∨
      (∃ old ∈ techniques, old.name = block.technique ∧
        technique = { old with blocks := old.blocks ++ [block] }) ∨
      (block.technique ∉ techniques.map name ∧ technique = ⟨block.technique, [block]⟩) := by
  induction techniques with
  | nil => exact .inr (.inr ⟨by simp, by simpa [file] using hmem⟩)
  | cons first rest ih =>
    obtain ⟨hfresh, hrest⟩ := List.nodup_cons.mp hnames
    rw [file] at hmem
    split at hmem
    · next hname =>
      obtain rfl | hlater := List.mem_cons.mp hmem
      · exact .inr (.inl ⟨first, by simp, hname, rfl⟩)
      · refine .inl ⟨List.mem_cons_of_mem _ hlater, ?_⟩
        intro heq
        exact hfresh (hname ▸ heq ▸ List.mem_map_of_mem hlater)
    · next hname =>
      obtain rfl | hlater := List.mem_cons.mp hmem
      · exact .inl ⟨by simp, hname⟩
      · obtain ⟨hold, hne⟩ | ⟨old, hold, hsame, htechnique⟩ | ⟨hnew, htechnique⟩ := ih hrest hlater
        · exact .inl ⟨List.mem_cons_of_mem _ hold, hne⟩
        · exact .inr (.inl ⟨old, List.mem_cons_of_mem _ hold, hsame, htechnique⟩)
        · refine .inr (.inr ⟨?_, htechnique⟩)
          simp only [List.map_cons, List.mem_cons, not_or]
          exact ⟨fun heq => hname heq.symm, hnew⟩

theorem ofBlocks_concat (blocks : List Block) (block : Block) :
    ofBlocks (blocks ++ [block]) = file block (ofBlocks blocks) := by
  simp [ofBlocks]

/-- The names of the techniques are those of the blocks, each once. -/
theorem names_ofBlocks (blocks : List Block) :
    ((ofBlocks blocks).map name).Nodup ∧
      ∀ word, word ∈ (ofBlocks blocks).map name ↔ word ∈ blocks.map Block.technique := by
  induction blocks using List.reverseRec with
  | nil => simp [ofBlocks]
  | append_singleton blocks block ih =>
    obtain ⟨hnodup, hmem⟩ := ih
    rw [ofBlocks_concat, map_name_file]
    split
    · next hold =>
      refine ⟨hnodup, fun word => ?_⟩
      have hword : word = block.technique → word ∈ blocks.map Block.technique := by
        rintro rfl
        exact (hmem _).mp hold
      rw [hmem, List.map_append, List.mem_append, List.map_singleton, List.mem_singleton]
      exact (or_iff_left_of_imp hword).symm
    · next hnew =>
      refine ⟨?_, fun word => by simp [← hmem]⟩
      rw [List.nodup_append]
      refine ⟨hnodup, by simp, ?_⟩
      intro word hword other hother heq
      rw [List.mem_singleton.mp hother] at heq
      exact hnew (heq ▸ hword)

/-- A technique has the blocks of its name, in their order. -/
theorem blocks_of_mem_ofBlocks {blocks : List Block} {technique : Technique}
    (hmem : technique ∈ ofBlocks blocks) :
    technique.blocks = blocks.filter fun block => block.technique = technique.name := by
  induction blocks using List.reverseRec generalizing technique with
  | nil => simp [ofBlocks] at hmem
  | append_singleton blocks block ih =>
    obtain ⟨hnodup, hnames⟩ := names_ofBlocks blocks
    rw [ofBlocks_concat] at hmem
    rw [List.filter_append]
    obtain ⟨hold, hne⟩ | ⟨old, hold, hname, rfl⟩ | ⟨hnew, rfl⟩ := mem_file hnodup hmem
    · simp [ih hold, hne.symm]
    · simp [ih hold, hname]
    · -- The first block of a technique finds no earlier ones.
      have hnone : blocks.filter (fun other => other.technique = block.technique) = [] := by
        rw [List.filter_eq_nil_iff]
        intro other hother heq
        refine hnew ((hnames _).mpr ?_)
        exact of_decide_eq_true heq ▸ List.mem_map_of_mem hother
      simp [hnone]

theorem mem_blocks_iff {blocks : List Block} {technique : Technique} {block : Block}
    (hmem : technique ∈ ofBlocks blocks) :
    block ∈ technique.blocks ↔ block ∈ blocks ∧ block.technique = technique.name := by
  simp [blocks_of_mem_ofBlocks hmem]

/-- The block of a technique for a stage is the one with that name and stage. -/
theorem block?_eq_some_iff {blocks : List Block} {technique : Technique} {stage : Stage}
    {block : Block} (hkeys : (blocks.map Block.key).Nodup) (hmem : technique ∈ ofBlocks blocks) :
    technique.block? stage = some block ↔
      block ∈ blocks ∧ block.key = (technique.name, stage) := by
  constructor
  · intro hblock
    obtain ⟨hold, hname⟩ := (mem_blocks_iff hmem).mp (List.mem_of_find?_eq_some hblock)
    have hstage : block.stage = stage := by simpa using List.find?_some hblock
    exact ⟨hold, by rw [Block.key, hname, hstage]⟩
  · rintro ⟨hold, hkey⟩
    have hname : block.technique = technique.name := congrArg Prod.fst hkey
    have hstage : block.stage = stage := congrArg Prod.snd hkey
    have hown : block ∈ technique.blocks := (mem_blocks_iff hmem).mpr ⟨hold, hname⟩
    cases hfound : technique.block? stage with
    | none =>
      have := List.find?_eq_none.mp hfound block hown
      simp [hstage] at this
    | some other =>
      obtain ⟨hother, hothername⟩ := (mem_blocks_iff hmem).mp (List.mem_of_find?_eq_some hfound)
      have hotherstage : other.stage = stage := by simpa using List.find?_some hfound
      have hsame : other.key = block.key := by rw [hkey, Block.key, hothername, hotherstage]
      rw [List.inj_on_of_nodup_map hkeys hother hold hsame]

/-- Every block is the one of some technique for its stage. -/
theorem exists_block?_eq_some {blocks : List Block} {block : Block}
    (hkeys : (blocks.map Block.key).Nodup) (hblock : block ∈ blocks) :
    ∃ technique ∈ ofBlocks blocks, technique.block? block.stage = some block := by
  obtain ⟨-, hnames⟩ := names_ofBlocks blocks
  obtain ⟨technique, hmem, hname⟩ :=
    List.mem_map.mp ((hnames block.technique).mpr (List.mem_map_of_mem hblock))
  refine ⟨technique, hmem, (block?_eq_some_iff hkeys hmem).mpr ⟨hblock, ?_⟩⟩
  rw [Block.key, hname]

/-! ## Changing blocks -/

def mapBlocks (change : Block → Block) (technique : Technique) : Technique :=
  { technique with blocks := technique.blocks.map change }

section

variable (change : Block → Block)

theorem file_mapBlocks (hname : ∀ block, (change block).technique = block.technique)
    (block : Block) (techniques : List Technique) :
    file (change block) (techniques.map (mapBlocks change)) =
      (file block techniques).map (mapBlocks change) := by
  induction techniques with
  | nil => simp [file, mapBlocks, hname]
  | cons technique techniques ih =>
    rw [List.map_cons, file, file, ih]
    have hsame : ((technique.mapBlocks change).name = (change block).technique) =
        (technique.name = block.technique) := by
      rw [hname]
      rfl
    simp only [hsame]
    split
    · simp [mapBlocks]
    · rfl

/-- Blocks can be changed before they are grouped or after it. -/
theorem ofBlocks_map (hname : ∀ block, (change block).technique = block.technique)
    (blocks : List Block) :
    ofBlocks (blocks.map change) = (ofBlocks blocks).map (mapBlocks change) := by
  induction blocks using List.reverseRec with
  | nil => rfl
  | append_singleton blocks block ih =>
    rw [List.map_append, List.map_singleton, ofBlocks_concat, ih, file_mapBlocks change hname,
      ofBlocks_concat]

theorem stages_mapBlocks (hstage : ∀ block, (change block).stage = block.stage)
    (technique : Technique) : (technique.mapBlocks change).stages = technique.stages := by
  rw [stages, stages, mapBlocks, List.map_map]
  exact congrArg (StageSet.ofList <| technique.blocks.map ·) (funext hstage)

theorem block?_mapBlocks (hstage : ∀ block, (change block).stage = block.stage)
    (technique : Technique) (stage : Stage) :
    (technique.mapBlocks change).block? stage = (technique.block? stage).map change := by
  rw [block?, block?, mapBlocks, List.find?_map]
  simp only [Function.comp_def, hstage]

theorem activeMutators_mapBlocks (hstage : ∀ block, (change block).stage = block.stage)
    (hactive : ∀ block, (change block).active = block.active) (technique : Technique)
    (stage : Stage) :
    (technique.mapBlocks change).activeMutators stage = technique.activeMutators stage := by
  rw [activeMutators, activeMutators, block?_mapBlocks change hstage, Option.map_map]
  simp only [Function.comp_def, hactive]

end

end Technique

end Ubershader
