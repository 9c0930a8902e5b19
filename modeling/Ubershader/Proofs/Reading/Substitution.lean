import Ubershader.Proofs.Buffers
import Ubershader.Proofs.Lines
import Ubershader.Proofs.Program.Identity
import Ubershader.Proofs.Reading.Course
import Ubershader.Provider.Catalog

/-!
# Including is substituting

A file that is included takes the place of the line that includes it, and nothing else happens:
neither the program nor its fingerprint tell how a text was split into files. The main result is
about providers that answer the same question always in the same way, without line markers and
without include guards, because those two do show where one file ends and the next one starts.

Every line remembers its place, so two readings of the same text are compared after their places
are forgotten (`unplaced`). No command looks at places.
-/

namespace Ubershader

/-! ## Forgetting places -/

/-- A line without the file that it was copied from. The text stays, which is all that a source has
of the line. -/
def Line.unplaced : Line → Line
  | .copied _ _ text => .copied "" 0 text
  | line => line

def Location.nowhere : Location := ⟨"", 0, ""⟩

def Buffer.unplaced (buffer : Buffer) : Buffer :=
  { buffer with lines := buffer.lines.map Line.unplaced }

def Block.unplaced (block : Block) : Block :=
  { block with lines := block.lines.map Line.unplaced }

def OpenBlock.unplaced (block : OpenBlock) : OpenBlock :=
  { block with buffer := block.buffer.unplaced, site := .nowhere }

def OpenStruct.unplaced (struct : OpenStruct) : OpenStruct :=
  { struct with site := .nowhere }

def Draft.unplaced (draft : Draft) : Draft :=
  { draft with
    common := draft.common.unplaced
    blocks := draft.blocks.map Block.unplaced
    openBlock := draft.openBlock.map OpenBlock.unplaced
    openStruct := draft.openStruct.map OpenStruct.unplaced }

def Edit.unplaced : Edit → Edit
  | .append line => .append line.unplaced
  | .openBlock technique stage active _ => .openBlock technique stage active .nowhere
  | .openStruct name _ => .openStruct name .nowhere
  | edit => edit

def Technique.unplaced (technique : Technique) : Technique :=
  { technique with blocks := technique.blocks.map Block.unplaced }

def Program.unplaced (program : Program) : Program :=
  { program with
    common := program.common.map Line.unplaced
    techniques := program.techniques.map Technique.unplaced }

@[simp] theorem Line.text_unplaced (line : Line) : line.unplaced.text = line.text := by
  cases line <;> rfl

@[simp] theorem Line.text_comp_unplaced : Line.text ∘ Line.unplaced = Line.text :=
  funext Line.text_unplaced

namespace Draft

theorem unplaced_modifyCurrent (draft : Draft) (change changed : Buffer → Buffer)
    (hchange : ∀ buffer, (change buffer).unplaced = changed buffer.unplaced) :
    (draft.modifyCurrent change).unplaced = draft.unplaced.modifyCurrent changed := by
  cases hopen : draft.openBlock with
  | none => simp [modifyCurrent, unplaced, hopen, hchange]
  | some block => simp [modifyCurrent, unplaced, hopen, OpenBlock.unplaced, hchange]

theorem unplaced_apply (draft : Draft) (edit : Edit) :
    (draft.apply edit).unplaced = draft.unplaced.apply edit.unplaced := by
  cases edit with
  | append line =>
    refine draft.unplaced_modifyCurrent (·.push line) (·.push line.unplaced) fun buffer => ?_
    simp [Buffer.unplaced, Buffer.push]
  | guard path =>
    exact draft.unplaced_modifyCurrent (·.guard path) (·.guard path) fun buffer => rfl
  | closeBlock =>
    cases hopen : draft.openBlock with
    | none => simp [apply, unplaced, hopen, Edit.unplaced]
    | some block =>
      simp [apply, unplaced, hopen, Edit.unplaced, OpenBlock.close, Block.unplaced,
        OpenBlock.unplaced, Buffer.unplaced]
  | addMember member =>
    cases hopen : draft.openStruct <;>
      simp [apply, unplaced, hopen, Edit.unplaced, OpenStruct.unplaced]
  | _ => rfl

theorem unplaced_applyAll (draft : Draft) (edits : List Edit) :
    (draft.applyAll edits).unplaced = draft.unplaced.applyAll (edits.map Edit.unplaced) := by
  induction edits generalizing draft with
  | nil => rfl
  | cons edit edits ih =>
    rw [List.map_cons, applyAll_cons, applyAll_cons, ih, unplaced_apply]

@[simp] theorem hasBlock_unplaced (draft : Draft) (technique : String) (stage : Stage) :
    draft.unplaced.hasBlock technique stage = draft.hasBlock technique stage := by
  rw [hasBlock, hasBlock, unplaced, List.any_map]
  rfl

end Draft

/-! ## Commands and places -/

namespace Command

def Meaning.unplaced (meaning : Meaning) : Meaning :=
  meaning.map (List.map Edit.unplaced)

@[simp] theorem Meaning.unplaced_ok (edits : List Edit) :
    Meaning.unplaced (.ok edits) = .ok (edits.map Edit.unplaced) := rfl

theorem map_unplaced_expansions (texts : List String) :
    (texts.map fun text => Edit.append (.expansion text)).map Edit.unplaced =
      texts.map fun text => .append (.expansion text) := by
  rw [List.map_map]
  rfl

variable (settings : Settings) (draft : Draft) (site : Location) (args : List String)

theorem outsideStruct_unplaced {meaning other : Meaning} (hmeaning : other = meaning.unplaced) :
    outsideStruct draft.unplaced other = (outsideStruct draft meaning).unplaced := by
  rw [hmeaning, outsideStruct, outsideStruct, Draft.unplaced, Option.isSome_map]
  split <;> rfl

theorem map_unplaced {α : Type} (declaration : Except Complaint α) {toEdit : α → Edit}
    (hedit : ∀ a, (toEdit a).unplaced = toEdit a) :
    declaration.map (fun a => [toEdit a]) =
      Meaning.unplaced (declaration.map fun a => [toEdit a]) := by
  cases declaration with
  | error complaint => rfl
  | ok a => simp [Except.map, Meaning.unplaced, hedit]

theorem techniqueStart_unplaced :
    techniqueStart settings draft.unplaced .nowhere args =
      (techniqueStart settings draft site args).unplaced := by
  have hopen : ∀ technique stage active, openBlock draft.unplaced .nowhere technique stage active =
      (openBlock draft site technique stage active).unplaced := by
    intro technique stage active
    have hsome : draft.unplaced.openBlock.isSome = draft.openBlock.isSome := Option.isSome_map
    rw [openBlock, openBlock, hsome, Draft.hasBlock_unplaced]
    repeat' split
    all_goals rfl
  have hspace : draft.unplaced.space = draft.space := rfl
  rw [techniqueStart, techniqueStart, hspace]
  split
  · rfl
  · split
    · rfl
    · dsimp only
      repeat' split
      · rfl
      · rfl
      · next names _ _ _ _ _ _ =>
        cases activeMask draft.space (techniqueName names).2 with
        | error complaint => rfl
        | ok active => exact hopen _ _ active

theorem techniqueEnd_unplaced :
    techniqueEnd draft.unplaced args = (techniqueEnd draft args).unplaced := by
  have hclose : ∀ technique stage, closeBlock draft.unplaced technique stage =
      (closeBlock draft technique stage).unplaced := by
    intro technique stage
    rw [closeBlock, closeBlock, Draft.unplaced]
    cases hopen : draft.openBlock with
    | none => rfl
    | some block =>
      simp only [Option.map_some, OpenBlock.unplaced]
      split <;> rfl
  rw [techniqueEnd, techniqueEnd]
  repeat' split
  · rfl
  · rfl
  · exact hclose _ _
  · exact hclose _ _
  · rfl

theorem library_unplaced : library draft.unplaced args = (library draft args).unplaced := by
  have hlibrary : draft.unplaced.library = draft.library := rfl
  rw [library, library, hlibrary]
  repeat' split
  all_goals rfl

theorem rayType_unplaced : rayType draft.unplaced args = (rayType draft args).unplaced := by
  have hrayType : draft.unplaced.rayType = draft.rayType := rfl
  rw [rayType, rayType, hrayType]
  repeat' split
  all_goals rfl

theorem structStart_unplaced :
    structStart .nowhere args = (structStart site args).unplaced := by
  rw [structStart, structStart]
  repeat' split
  all_goals rfl

theorem member_unplaced : member draft.unplaced args = (member draft args).unplaced := by
  rw [member, member, Draft.unplaced]
  cases hopen : draft.openStruct with
  | none => rfl
  | some struct =>
    simp only [Option.map_some, OpenStruct.unplaced]
    split
    · rw [addMember]
      repeat' split
      · rfl
      · rfl
      · rfl
      · rw [Meaning.unplaced_ok, List.map_cons, map_unplaced_expansions]
        rfl
    · rfl

theorem structEnd_unplaced : structEnd draft.unplaced args = (structEnd draft args).unplaced := by
  rw [structEnd, structEnd, Draft.unplaced]
  cases hopen : draft.openStruct with
  | none => rfl
  | some struct =>
    simp only [Option.map_some, OpenStruct.unplaced]
    repeat' split
    · rfl
    · rfl
    · rw [Meaning.unplaced_ok, List.map_cons, map_unplaced_expansions]
      rfl

theorem ite_unplaced {condition : Prop} [Decidable condition]
    {first second firstBefore secondBefore : Meaning} (hfirst : first = firstBefore.unplaced)
    (hsecond : second = secondBefore.unplaced) :
    (if condition then first else second) =
      Meaning.unplaced (if condition then firstBefore else secondBefore) := by
  split
  · exact hfirst
  · exact hsecond

/-- No command looks at places. -/
theorem meaning_unplaced :
    meaning settings draft.unplaced .nowhere args =
      (meaning settings draft site args).unplaced := by
  cases args with
  | nil => rfl
  | cons name args =>
    rw [meaning, meaning, named, named]
    refine ite_unplaced (outsideStruct_unplaced draft (map_unplaced _ fun _ => rfl)) ?_
    refine ite_unplaced (outsideStruct_unplaced draft
      (techniqueStart_unplaced settings draft site args)) ?_
    refine ite_unplaced (outsideStruct_unplaced draft (techniqueEnd_unplaced draft args)) ?_
    refine ite_unplaced (outsideStruct_unplaced draft (map_unplaced _ fun _ => rfl)) ?_
    refine ite_unplaced (outsideStruct_unplaced draft (map_unplaced _ fun _ => rfl)) ?_
    refine ite_unplaced (outsideStruct_unplaced draft (library_unplaced draft args)) ?_
    refine ite_unplaced (outsideStruct_unplaced draft (rayType_unplaced draft args)) ?_
    refine ite_unplaced (outsideStruct_unplaced draft (structStart_unplaced site args)) ?_
    refine ite_unplaced (member_unplaced draft args) ?_
    refine ite_unplaced (structEnd_unplaced draft args) ?_
    exact ite_unplaced (ite_unplaced rfl rfl) rfl

variable {settings draft args}

/-- A command does the same to drafts that differ in places only. -/
theorem exists_meaning_of_unplaced_eq {other : Draft} {edits : List Edit}
    (hother : other.unplaced = draft.unplaced)
    (hmeaning : meaning settings draft site args = .ok edits) (elsewhere : Location) :
    ∃ others, meaning settings other elsewhere args = .ok others ∧
      (other.applyAll others).unplaced = (draft.applyAll edits).unplaced := by
  have hsame : (meaning settings other elsewhere args).unplaced =
      .ok (edits.map Edit.unplaced) := by
    rw [← meaning_unplaced, hother, meaning_unplaced settings draft site, hmeaning]
    rfl
  cases hothers : meaning settings other elsewhere args with
  | error complaint =>
    rw [hothers] at hsame
    cases hsame
  | ok others =>
    rw [hothers] at hsame
    refine ⟨others, rfl, ?_⟩
    rw [Draft.unplaced_applyAll, Draft.unplaced_applyAll, hother, Except.ok.inj hsame]

end Command

/-! ## Flattening -/

/-- A provider whose answers do not depend on its world. -/
structure Provider.Follows {σ κ : Type} (provider : Provider σ κ)
    (resolve : String → κ → Except String (Target κ)) (fetch : String → Except String String) :
    Prop where
  resolve : ∀ path context world, (provider.resolve path context world).1 = resolve path context
  fetch : ∀ path world, (provider.fetch path world).1 = fetch path

section

variable {κ : Type}

/-- Lines in which each line that includes a file is replaced by the lines of that file, in which
the same has been done. The paths in the lines are written in a context. -/
inductive Flattens (resolve : String → κ → Except String (Target κ))
    (fetch : String → Except String String) : κ → List String → List String → Prop
  | nil {context : κ} : Flattens resolve fetch context [] []
  | keep {context : κ} {line : String} {lines flat : List String}
      (isOther : ∀ path, Directive.ofLine line ≠ .inclusion path)
      (rest : Flattens resolve fetch context lines flat) :
      Flattens resolve fetch context (line :: lines) (line :: flat)
  | replace {context : κ} {line path text : String} {target : Target κ}
      {lines inner flat : List String}
      (isInclusion : Directive.ofLine line = .inclusion (some path))
      (resolved : resolve path context = .ok target) (fetched : fetch target.path = .ok text)
      (inside : Flattens resolve fetch target.context (Text.lines text) inner)
      (rest : Flattens resolve fetch context lines flat) :
      Flattens resolve fetch context (line :: lines) (inner ++ flat)

variable {resolve : String → κ → Except String (Target κ)} {fetch : String → Except String String}

theorem Flattens.unique {context : κ} {lines flat other : List String}
    (first : Flattens resolve fetch context lines flat)
    (second : Flattens resolve fetch context lines other) : flat = other := by
  induction first generalizing other with
  | nil =>
    cases second
    rfl
  | keep hother _ ih =>
    cases second with
    | keep _ rest => rw [ih rest]
    | replace hinclusion => exact absurd hinclusion (hother _)
  | replace hinclusion hresolved hfetched _ _ ihInside ihRest =>
    cases second with
    | keep hother => exact absurd hinclusion (hother _)
    | replace hagain hsame hfetch inside rest =>
      rw [hinclusion] at hagain
      cases hagain
      rw [hresolved] at hsame
      cases hsame
      rw [hfetched] at hfetch
      cases hfetch
      rw [ihInside inside, ihRest rest]

/-- Flattening makes no new lines. -/
theorem Flattens.isLine {context : κ} {lines flat : List String}
    (flattens : Flattens resolve fetch context lines flat)
    (hlines : ∀ line ∈ lines, Text.IsLine line) : ∀ line ∈ flat, Text.IsLine line := by
  induction flattens with
  | nil => exact hlines
  | keep _ _ ih =>
    obtain ⟨hline, hrest⟩ := List.forall_mem_cons.mp hlines
    exact List.forall_mem_cons.mpr ⟨hline, ih hrest⟩
  | replace _ _ _ _ _ ihInside ihRest =>
    rw [List.forall_mem_append]
    exact ⟨ihInside fun line => Text.isLine_of_mem_lines,
      ihRest (List.forall_mem_cons.mp hlines).2⟩

end

/-! ## Courses through flat lines -/

/-- A course through some lines may be followed by one through more lines of the same file. -/
theorem Course.append {κ : Type} {settings : Settings} {promise : Event κ → Prop} {room : Nat}
    {file : Target κ} {number : Nat} {once middle after : Bool} {front back : List String}
    {draft between last : Draft}
    (first : Course settings promise room file number once front draft middle between)
    (second : Course settings promise room file (number + front.length) middle back between after
      last) :
    Course settings promise room file number once (front ++ back) draft after last := by
  have hnumber : ∀ number (line : String) (lines : List String),
      number + (line :: lines).length = number + 1 + lines.length := by
    intro number line lines
    rw [List.length_cons]
    omega
  induction first with
  | done => exact second
  | plain hline _ ih =>
    rw [hnumber] at second
    exact .plain hline (ih second)
  | once hline _ ih =>
    rw [hnumber] at second
    exact .once hline (ih second)
  | command hline hmeaning _ ih =>
    rw [hnumber] at second
    exact .command hline hmeaning (ih second)
  | leftOut hline hresolved hheld _ ih =>
    rw [hnumber] at second
    exact .leftOut hline hresolved hheld (ih second)
  | included hline hresolved hfresh hfetched inner _ _ ih =>
    rw [hnumber] at second
    exact .included hline hresolved hfresh hfetched inner (ih second)

/-- What is known of the answers of a provider that always answers in the same way, if its files
have no include guards. -/
structure PlainAnswers {κ : Type} (promise : Event κ → Prop)
    (resolve : String → κ → Except String (Target κ)) (fetch : String → Except String String) :
    Prop where
  resolve : ∀ path context target, promise (.resolve path context (.ok target)) →
    resolve path context = .ok target
  fetch : ∀ path depth text, promise (.fetch path depth (.ok text)) → fetch path = .ok text
  noOnce : ∀ path depth text, promise (.fetch path depth (.ok text)) →
    ∀ line ∈ Text.lines text, ∀ alone, Directive.ofLine line ≠ .once alone

section

variable {κ : Type} {settings : Settings} {promise : Event κ → Prop}
  {resolve : String → κ → Except String (Target κ)} {fetch : String → Except String String}

/-- A course through lines that include others is also one through what they are flattened to, as
the lines of a file anywhere. -/
theorem Course.exists_flat (hanswers : PlainAnswers promise resolve fetch)
    (hmarkers : settings.lineMarkers = false) {room : Nat} {file : Target κ} {number : Nat}
    {once after : Bool} {lines : List String} {draft last : Draft}
    (course : Course settings promise room file number once lines draft after last)
    (hlines : ∀ line ∈ lines, ∀ alone, Directive.ofLine line ≠ .once alone)
    (hdraft : draft.Holds fun buffer => buffer.once = []) :
    after = once ∧ (last.Holds fun buffer => buffer.once = []) ∧
      ∃ flat, Flattens resolve fetch file.context lines flat ∧
        ∀ {κ' : Type} (promise' : Event κ' → Prop) (other : Target κ') (start : Nat)
          (before : Draft), before.unplaced = draft.unplaced →
            ∃ final, Course settings promise' 0 other start false flat before false final ∧
              final.unplaced = last.unplaced := by
  have hnone := Walk.markers_eq_nil hmarkers
  induction course with
  | done => exact ⟨rfl, hdraft, [], .nil, fun _ _ _ before hbefore => ⟨before, .done, hbefore⟩⟩
  | @plain room file number once after line lines draft last hline rest ih =>
    have hrest := (List.forall_mem_cons.mp hlines).2
    obtain ⟨rfl, hlast, flat, hflat, hcourse⟩ := ih hrest (hdraft.append hdraft.current)
    refine ⟨rfl, hlast, line :: flat, .keep (by simp [hline]) hflat, ?_⟩
    intro κ' promise' other start before hbefore
    obtain ⟨final, course', hfinal⟩ := hcourse promise' other (start + 1)
      (before.apply (.append (.copied other.path start line)))
      (by rw [Draft.unplaced_apply, Draft.unplaced_apply, hbefore]; rfl)
    exact ⟨final, .plain hline course', hfinal⟩
  | once hline => exact absurd hline (hlines _ List.mem_cons_self _)
  | @command room file number once after line lines args edits draft last hline hmeaning rest ih =>
    have hrest := (List.forall_mem_cons.mp hlines).2
    have hguards := Command.guard_notMem_of_meaning hmeaning
    rw [hnone, List.append_nil] at ih
    obtain ⟨rfl, hlast, flat, hflat, hcourse⟩ := ih hrest
      (hdraft.applyAll (fun line _ buffer hbuffer => hbuffer) hguards)
    refine ⟨rfl, hlast, line :: flat, .keep (by simp [hline]) hflat, ?_⟩
    intro κ' promise' other start before hbefore
    obtain ⟨others, hothers, hsame⟩ := Command.exists_meaning_of_unplaced_eq _ hbefore hmeaning
      ⟨other.path, start, line⟩
    obtain ⟨final, course', hfinal⟩ := hcourse promise' other (start + 1) _ hsame
    refine ⟨final, .command hline hothers ?_, hfinal⟩
    rw [hnone, List.append_nil]
    exact course'
  | leftOut _ _ hheld =>
    rw [Buffer.holdsOnce, hdraft.current] at hheld
    cases hheld
  | @included room file target number once guarded after line path text lines draft middle last
      hline hresolved _ hfetched inner rest ihInner ihRest =>
    have hrest := (List.forall_mem_cons.mp hlines).2
    rw [hnone, Draft.applyAll_nil] at ihInner
    obtain ⟨rfl, hmiddle, inside, hinside, hinnerCourse⟩ :=
      ihInner (hanswers.noOnce _ _ _ hfetched) hdraft
    rw [hnone] at ihRest
    obtain ⟨rfl, hlast, flat, hflat, hcourse⟩ := ihRest hrest hmiddle
    refine ⟨rfl, hlast, inside ++ flat, .replace hline (hanswers.resolve _ _ _ hresolved)
      (hanswers.fetch _ _ _ hfetched) hinside hflat, ?_⟩
    intro κ' promise' other start before hbefore
    obtain ⟨between, front, hbetween⟩ := hinnerCourse promise' other start before hbefore
    obtain ⟨final, back, hfinal⟩ :=
      hcourse promise' other (start + inside.length) between hbetween
    exact ⟨final, front.append back, hfinal⟩

end

/-! ## Programs and places -/

namespace Technique

theorem ofBlocks_unplaced (blocks : List Block) :
    ofBlocks (blocks.map Block.unplaced) = (ofBlocks blocks).map unplaced :=
  ofBlocks_map Block.unplaced (fun _ => rfl) blocks

@[simp] theorem stages_unplaced (technique : Technique) :
    technique.unplaced.stages = technique.stages :=
  stages_mapBlocks Block.unplaced (fun _ => rfl) technique

theorem block?_unplaced (technique : Technique) (stage : Stage) :
    technique.unplaced.block? stage = (technique.block? stage).map Block.unplaced :=
  block?_mapBlocks Block.unplaced (fun _ => rfl) technique stage

@[simp] theorem activeMutators_unplaced (technique : Technique) (stage : Stage) :
    technique.unplaced.activeMutators stage = technique.activeMutators stage :=
  activeMutators_mapBlocks Block.unplaced (fun _ => rfl) (fun _ => rfl) technique stage

@[simp] theorem source?_unplaced (technique : Technique) (stage : Stage) :
    technique.unplaced.source? stage = technique.source? stage := by
  have hsource : ∀ block : Block, block.unplaced.source = block.source := by
    intro block
    simp [Block.source, Block.unplaced]
  rw [source?, source?, block?_unplaced, Option.map_map]
  exact congrArg (Option.map · (technique.block? stage)) (funext hsource)

theorem alike_of_unplaced_eq {left right : Technique} (hsame : left.unplaced = right.unplaced) :
    left.Alike right where
  name := show left.unplaced.name = right.unplaced.name by rw [hsame]
  stages := by rw [← stages_unplaced, hsame, stages_unplaced]
  activeMutators stage := by rw [← activeMutators_unplaced, hsame, activeMutators_unplaced]
  source stage := by rw [← source?_unplaced, hsame, source?_unplaced]

theorem bytes_unplaced (technique : Technique) : technique.unplaced.bytes = technique.bytes := by
  have hstage : technique.unplaced.stageBytes = technique.stageBytes := by
    funext stage
    rw [stageBytes, stageBytes, activeMutators_unplaced, source?_unplaced]
  rw [bytes, bytes, stages_unplaced, hstage]
  rfl

end Technique

namespace Program

@[simp] theorem commonSource_unplaced (program : Program) :
    program.unplaced.commonSource = program.commonSource := by
  simp [commonSource, unplaced]

theorem fingerprint_unplaced (program : Program) :
    program.unplaced.fingerprint = program.fingerprint := by
  have htechniques : program.unplaced.techniques.flatMap Technique.bytes =
      program.techniques.flatMap Technique.bytes := by
    rw [unplaced, List.flatMap_map]
    exact congrArg (program.techniques.flatMap ·) (funext Technique.bytes_unplaced)
  rw [fingerprint, fingerprint, bytes, bytes, commonSource_unplaced, htechniques]
  rfl

theorem alike_of_unplaced_eq {left right : Program} (hsame : left.unplaced = right.unplaced) :
    left.Alike right where
  common := by rw [← commonSource_unplaced, hsame, commonSource_unplaced]
  techniques := by
    have hmap : left.techniques.map Technique.unplaced = right.techniques.map Technique.unplaced :=
      congrArg Program.techniques hsame
    rw [← List.forall₂_eq_eq_eq, List.forall₂_map_left_iff, List.forall₂_map_right_iff] at hmap
    exact hmap.imp fun _ _ => Technique.alike_of_unplaced_eq
  library := show left.unplaced.library = right.unplaced.library by rw [hsame]
  rayType := show left.unplaced.rayType = right.unplaced.rayType by rw [hsame]
  sixteenBit := show left.unplaced.sixteenBit = right.unplaced.sixteenBit by rw [hsame]
  settings := by
    have hsettings : left.settings = right.settings :=
      show left.unplaced.settings = right.unplaced.settings by rw [hsame]
    rw [hsettings]
    exact ⟨rfl, rfl, rfl, rfl, rfl, rfl, rfl⟩

/-- Whether a draft gives a program, and which one, does not depend on places. -/
theorem toOption_ofDraft_unplaced (settings : Settings) (entry other : String) (draft : Draft) :
    (ofDraft settings other draft.unplaced).toOption =
      (ofDraft settings entry draft).toOption.map unplaced := by
  rw [ofDraft, ofDraft, Draft.unplaced]
  cases hblock : draft.openBlock with
  | some block => rfl
  | none =>
    cases hblocks : draft.blocks with
    | nil => rfl
    | cons block blocks =>
      cases hstruct : draft.openStruct with
      | some struct => rfl
      | none =>
        have htechniques := Technique.ofBlocks_unplaced (block :: blocks)
        rw [List.map_cons] at htechniques
        simp only [Option.map_none, List.map_cons, htechniques]
        rfl

theorem exists_ofDraft_of_unplaced_eq {settings : Settings} {entry : String} {draft other : Draft}
    {program : Program} (hother : other.unplaced = draft.unplaced)
    (hprogram : ofDraft settings entry draft = .ok program) (name : String) :
    ∃ same, ofDraft settings name other = .ok same ∧ same.unplaced = program.unplaced := by
  have hsame := toOption_ofDraft_unplaced settings name entry other
  rw [hother, toOption_ofDraft_unplaced settings entry entry draft, hprogram] at hsame
  cases hofDraft : ofDraft settings name other with
  | error fault =>
    rw [hofDraft] at hsame
    cases hsame
  | ok same =>
    rw [hofDraft] at hsame
    exact ⟨same, rfl, (Option.some.inj hsame).symm⟩

end Program

/-! ## The main result -/

/-- An event that is an answer which a provider gives whatever its world is. -/
def Event.IsAnswer {κ : Type} (resolve : String → κ → Except String (Target κ))
    (fetch : String → Except String String) : Event κ → Prop
  | .resolve path context answer => answer = resolve path context
  | .fetch path _ answer => answer = fetch path
  | _ => True

/-- All answers in a journal are those that the provider gives whatever its world is. -/
theorem stepRelation_isAnswer {σ κ : Type} (settings : Settings) {provider : Provider σ κ}
    {resolve : String → κ → Except String (Target κ)} {fetch : String → Except String String}
    (hfollows : provider.Follows resolve fetch) :
    StepRelation settings provider fun earlier later =>
      (∀ event ∈ earlier.journal, event.IsAnswer resolve fetch) →
        ∀ event ∈ later.journal, event.IsAnswer resolve fetch where
  refl _ hearlier := hearlier
  trans hfirst hsecond hearlier := hsecond (hfirst hearlier)
  record event hcall _ session hearlier := by
    have hevent : event.IsAnswer resolve fetch := by
      cases event with
      | resolve | fetch => cases hcall
      | _ => trivial
    simpa [or_imp, forall_and, hevent] using hearlier
  append line session hearlier := by
    simpa [Walk.endSession, or_imp, forall_and, Event.IsAnswer] using hearlier
  guard path session hearlier := by
    simpa [or_imp, forall_and, Event.IsAnswer] using hearlier
  command session _ _ edits _ _ hearlier := by
    simpa [or_imp, forall_and, Event.IsAnswer] using hearlier
  resolve path context session hearlier := by
    simpa [Walk.resolve, or_imp, forall_and, Event.IsAnswer, hfollows.resolve] using hearlier
  fetch path depth session hearlier := by
    simpa [Walk.fetch, or_imp, forall_and, Event.IsAnswer, hfollows.fetch] using hearlier

/-- An include is textual substitution. If a program is read from files without include guards and
without line markers, the lines of its entry file can be flattened in exactly one way. The flat
lines are those of a text, and wherever a file of theirs is read in place of the entry file, under
any name and in any context, it gives the same program with the same fingerprint. -/
theorem exists_flat_of_read {σ κ : Type} {settings : Settings} {provider : Provider σ κ}
    {resolve : String → κ → Except String (Target κ)} {fetch : String → Except String String}
    {entry : String} {context : κ} {world : σ} {program : Program}
    (hfollows : provider.Follows resolve fetch) (hmarkers : settings.lineMarkers = false)
    (honce : ∀ path depth text,
      .fetch path depth (.ok text) ∈ (read settings provider entry context world).session.journal →
        ∀ line ∈ Text.lines text, ∀ alone, Directive.ofLine line ≠ .once alone)
    (hread : (read settings provider entry context world).outcome = .ok program) :
    ∃ target text flat, resolve entry context = .ok target ∧ fetch target.path = .ok text ∧
      Flattens resolve fetch target.context (Text.lines text) flat ∧
      (∀ other, Flattens resolve fetch target.context (Text.lines text) other → other = flat) ∧
      (∃ whole, Text.lines whole = flat) ∧
      ∀ {σ' κ' : Type} (single : Provider σ' κ') (name : String) (place : κ') (start : σ')
        (file : Target κ') (whole : String), single.Gives name place start file whole →
          Text.lines whole = flat →
            ∃ same, (read settings single name place start).outcome = .ok same ∧
              same.fingerprint = program.fingerprint ∧ same.space = program.space ∧
              same.Alike program := by
  let journal := (read settings provider entry context world).session.journal
  have hanswer : ∀ event ∈ journal, event.IsAnswer resolve fetch := by
    have hwalk := (stepRelation_isAnswer settings hfollows).respects_visit
      (settings.maxIncludeDepth.toNat + 1) ⟨entry, 0, ""⟩ entry context { world := world }
    rw [← session_read] at hwalk
    exact hwalk (by simp)
  have hanswers : PlainAnswers (· ∈ journal) resolve fetch :=
    { resolve := fun path place target hevent => (hanswer _ hevent).symm
      fetch := fun path depth text hevent => (hanswer _ hevent).symm
      noOnce := honce }
  obtain ⟨target, text, guarded, last, -, hresolved, hfetched, course, hprogram⟩ :=
    course_of_read hread fun event hevent => hevent
  rw [Walk.markers_eq_nil hmarkers] at course
  obtain ⟨rfl, -, flat, hflat, hcourse⟩ := course.exists_flat hanswers hmarkers
    (hanswers.noOnce _ _ _ hfetched) (Draft.Holds.empty rfl)
  refine ⟨target, text, flat, hanswers.resolve _ _ _ hresolved, hanswers.fetch _ _ _ hfetched,
    hflat, fun other hother => hother.unique hflat, ⟨Text.ended flat, Text.lines_ended ?_⟩, ?_⟩
  · exact hflat.isLine fun line => Text.isLine_of_mem_lines
  · intro σ' κ' single name place start file whole hgives hwhole
    obtain ⟨final, alone, hfinal⟩ := hcourse (fun _ => True) file 1 {} rfl
    have course' : Course settings (fun _ => True) 0 file 1 false (Text.lines whole)
        (({} : Draft).applyAll (Walk.markers settings 1 file.path)) false final := by
      rw [Walk.markers_eq_nil hmarkers, hwhole]
      exact alone
    obtain ⟨same, hsame, hunplaced⟩ :=
      Program.exists_ofDraft_of_unplaced_eq hfinal hprogram name
    refine ⟨same, ?_, ?_, ?_, Program.alike_of_unplaced_eq hunplaced⟩
    · rw [read_of_course hgives course', ← hsame]
      rfl
    · rw [← Program.fingerprint_unplaced, hunplaced, Program.fingerprint_unplaced]
    · show same.unplaced.space = program.unplaced.space
      rw [hunplaced]

/-- A block that is opened in one file and closed in another, with text from a third one. -/
def scatteredBlock : Catalog where
  files :=
    [("main", "#include \"lib/vertex\"\n#pragma anki technique_end vert\n"),
     ("lib/vertex", "#pragma anki technique_start vert\n#include \"types\"\nint v;\n"),
     ("lib/types", "int t;\n")]
  relative := true

theorem exists_flat_of_read_scatteredBlock :
    ∃ program whole same, (read {} scatteredBlock.provider "main" "" ()).outcome = .ok program ∧
      (read {} (Catalog.provider { files := [("flat", whole)] }) "flat" "" ()).outcome = .ok same ∧
      same.fingerprint = program.fingerprint ∧ same.space = program.space ∧
      same.Alike program := by
  have hcheck : (read {} scatteredBlock.provider "main" "" ()).outcome.toOption.isSome = true := by
    decide +kernel
  obtain ⟨program, hprogram⟩ := Option.isSome_iff_exists.mp hcheck
  have hread := eq_ok_of_toOption hprogram
  have hfollows : scatteredBlock.provider.Follows scatteredBlock.resolve scatteredBlock.fetch :=
    ⟨fun _ _ _ => rfl, fun _ _ => rfl⟩
  have honce : ∀ path depth text, .fetch path depth (.ok text) ∈
      (read {} scatteredBlock.provider "main" "" ()).session.journal →
        ∀ line ∈ Text.lines text, ∀ alone, Directive.ofLine line ≠ .once alone := by
    have hjournal : ((read {} scatteredBlock.provider "main" "" ()).session.journal.all fun event =>
        event.text?.all fun text => (Text.lines text).all fun line =>
          decide (∀ alone, Directive.ofLine line ≠ .once alone)) = true := by
      decide +kernel
    intro path depth text hevent line hline
    have htext := Event.of_all_text? hjournal hevent
    exact of_decide_eq_true (List.all_eq_true.mp htext line hline)
  obtain ⟨_, _, flat, -, -, -, -, ⟨whole, hwhole⟩, hsingle⟩ :=
    exists_flat_of_read hfollows rfl honce hread
  obtain ⟨same, hsame, halike⟩ := hsingle (Catalog.provider { files := [("flat", whole)] }) "flat"
    "" () ⟨"flat", ""⟩ whole ⟨rfl, rfl⟩ hwhole
  exact ⟨program, whole, same, hread, hsame, halike⟩

end Ubershader
