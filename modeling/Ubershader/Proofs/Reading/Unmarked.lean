import Ubershader.Proofs.Reading.Markers
import Ubershader.Proofs.Reading.Simulation

/-!
# Readings without markers

Line markers are additions to the sources and to nothing else. A reading with markers and one
without go through the same files in step; the draft of the second one is always that of the first
one with the markers taken out of all its buffers at once (`Draft.unmarked`). No command looks at
the lines of a buffer, and the include guards are kept apart from them, so both readings take the
same turns and end alike.

That the markers can also be found again in the text of a source, and nothing else is mistaken for
one, needs to be known of the files: none of their lines is a marker, and no path has a line feed.
-/

namespace Ubershader

/-! ## Taking markers out -/

/-- The lines of a buffer or block that are no markers. -/
def Line.unmarked (lines : Array Line) : Array Line :=
  lines.filter fun line => !line.isMarker

def Buffer.unmarked (buffer : Buffer) : Buffer :=
  { buffer with lines := Line.unmarked buffer.lines }

def Block.unmarked (block : Block) : Block :=
  { block with lines := Line.unmarked block.lines }

def OpenBlock.unmarked (block : OpenBlock) : OpenBlock :=
  { block with buffer := block.buffer.unmarked }

def Draft.unmarked (draft : Draft) : Draft :=
  { draft with
    common := draft.common.unmarked
    blocks := draft.blocks.map Block.unmarked
    openBlock := draft.openBlock.map OpenBlock.unmarked }

/-- A session without markers in its draft, and without the edits that made them. -/
def Session.unmarked {σ κ : Type} (session : Session σ κ) : Session σ κ :=
  { session with
    draft := session.draft.unmarked
    journal := session.journal.filter fun event => !event.edit?.any Edit.isMarker }

def Program.unmarked (program : Program) : Program :=
  { program with
    settings := program.settings.withLineMarkers false
    common := Line.unmarked program.common
    techniques := program.techniques.map (Technique.mapBlocks Block.unmarked) }

namespace Buffer

theorem unmarked_push {line : Line} (hline : line.isMarker = false) (buffer : Buffer) :
    (buffer.push line).unmarked = buffer.unmarked.push line := by
  simp [unmarked, push, Line.unmarked, hline]

theorem unmarked_push_marker (number : Nat) (file : String) (buffer : Buffer) :
    (buffer.push (.marker number file)).unmarked = buffer.unmarked := by
  simp [unmarked, push, Line.unmarked, Line.isMarker]

end Buffer

namespace Draft

theorem current_unmarked (draft : Draft) : draft.unmarked.current = draft.current.unmarked := by
  rw [current, current, unmarked]
  cases draft.openBlock <;> rfl

theorem unmarked_modifyCurrent (draft : Draft) (change changed : Buffer → Buffer)
    (hchange : ∀ buffer, (change buffer).unmarked = changed buffer.unmarked) :
    (draft.modifyCurrent change).unmarked = draft.unmarked.modifyCurrent changed := by
  cases hopen : draft.openBlock with
  | none => simp [modifyCurrent, unmarked, hopen, hchange]
  | some block => simp [modifyCurrent, unmarked, hopen, OpenBlock.unmarked, hchange]

/-- An edit does the same without markers, if it is none itself. -/
theorem unmarked_apply {edit : Edit} (hedit : edit.isMarker = false) (draft : Draft) :
    (draft.apply edit).unmarked = draft.unmarked.apply edit := by
  cases edit with
  | append line =>
    exact draft.unmarked_modifyCurrent (·.push line) (·.push line) (Buffer.unmarked_push hedit)
  | guard path =>
    exact draft.unmarked_modifyCurrent (·.guard path) (·.guard path) fun buffer => rfl
  | closeBlock =>
    cases hopen : draft.openBlock with
    | none => simp [apply, unmarked, hopen]
    | some block =>
      simp [apply, unmarked, hopen, OpenBlock.close, Block.unmarked, OpenBlock.unmarked,
        Buffer.unmarked]
  | _ => rfl

theorem unmarked_apply_marker (number : Nat) (file : String) (draft : Draft) :
    (draft.apply (.append (.marker number file))).unmarked = draft.unmarked := by
  have hsame : draft.unmarked.modifyCurrent id = draft.unmarked := by
    rw [modifyCurrent]
    split
    · rfl
    · next block hopen => rw [id, ← hopen]
  rw [apply, draft.unmarked_modifyCurrent _ id (Buffer.unmarked_push_marker number file), hsame]

theorem hasBlock_unmarked (draft : Draft) (technique : String) (stage : Stage) :
    draft.unmarked.hasBlock technique stage = draft.hasBlock technique stage := by
  rw [hasBlock, hasBlock, unmarked, List.any_map]
  rfl

end Draft

namespace Command

variable (settings : Settings) (draft : Draft) (site : Location) (args : List String)

theorem techniqueStart_unmarked :
    techniqueStart settings draft.unmarked site args =
      techniqueStart settings draft site args := by
  have hopen : openBlock draft.unmarked site = openBlock draft site := by
    funext technique stage active
    have hsome : draft.unmarked.openBlock.isSome = draft.openBlock.isSome := Option.isSome_map
    rw [openBlock, openBlock, hsome, Draft.hasBlock_unmarked]
  rw [techniqueStart, techniqueStart, hopen]
  rfl

theorem techniqueEnd_unmarked :
    techniqueEnd draft.unmarked args = techniqueEnd draft args := by
  have hclose : closeBlock draft.unmarked = closeBlock draft := by
    funext technique stage
    rw [closeBlock, closeBlock, Draft.unmarked]
    cases draft.openBlock <;> rfl
  rw [techniqueEnd, techniqueEnd, hclose]

/-- No command looks at the lines of a buffer. -/
theorem meaning_unmarked :
    meaning settings draft.unmarked site args = meaning settings draft site args := by
  cases args with
  | nil => rfl
  | cons name args =>
    rw [meaning, meaning, named, named, techniqueStart_unmarked, techniqueEnd_unmarked]
    rfl

end Command

/-! ## The two readings -/

section

variable {σ κ : Type}

theorem Session.unmarked_perform {edit : Edit} (hedit : edit.isMarker = false)
    (session : Session σ κ) :
    ((Walk.perform edit).endSession session).unmarked =
      (Walk.perform edit).endSession session.unmarked := by
  simp [Session.unmarked, Walk.endSession, Draft.unmarked_apply hedit, Event.edit?, hedit]

theorem Session.unmarked_perform_marker (number : Nat) (file : String) (session : Session σ κ) :
    ((Walk.perform (.append (.marker number file))).endSession session).unmarked =
      session.unmarked := by
  have hmarker : Edit.isMarker (.append (.marker number file)) = true := rfl
  simp [Session.unmarked, Walk.endSession, Draft.unmarked_apply_marker, Event.edit?, hmarker]

/-- A reading with markers and one without, side by side. -/
theorem comparison_unmarked (settings : Settings) :
    Comparison (settings.withLineMarkers true) (settings.withLineMarkers false)
      (fun session other : Session σ κ => other = session.unmarked) (fun _ => False) 0 where
  depth := rfl
  tooDeep hslack := absurd rfl hslack
  world := by
    rintro session _ rfl
    rfl
  holdsOnce := by
    rintro session _ rfl path
    show session.draft.unmarked.current.holdsOnce path = _
    rw [Draft.current_unmarked]
    rfl
  note := by
    rintro session _ rfl event hedit world
    simp [Session.unmarked, hedit]
  perform := by
    rintro edit hedit session _ rfl
    exact .ok (Session.unmarked_perform hedit session).symm
  mark := by
    rintro number file session _ rfl
    exact .ok (Session.unmarked_perform_marker number file session).symm
  command := by
    rintro session _ rfl site args
    exact .inl (Command.meaning_unmarked _ session.draft site args)

end

theorem Program.ofDraft_unmarked (settings : Settings) (entry : String) (draft : Draft) :
    Program.ofDraft (settings.withLineMarkers false) entry draft.unmarked =
      (Program.ofDraft (settings.withLineMarkers true) entry draft).map Program.unmarked := by
  rw [Program.ofDraft, Program.ofDraft, Draft.unmarked]
  cases hblock : draft.openBlock with
  | some block => rfl
  | none =>
    cases hblocks : draft.blocks with
    | nil => rfl
    | cons block blocks =>
      cases hstruct : draft.openStruct with
      | some struct => rfl
      | none =>
        have htechniques :=
          Technique.ofBlocks_map Block.unmarked (fun _ => rfl) (block :: blocks)
        rw [List.map_cons] at htechniques
        simp only [Option.map_none, List.map_cons, htechniques]
        rfl

/-- A reading without markers is the reading with markers, with the markers taken out. -/
theorem read_unmarked {σ κ : Type} (settings : Settings) (provider : Provider σ κ) (entry : String)
    (context : κ) (world : σ) :
    read (settings.withLineMarkers false) provider entry context world =
      ⟨(read (settings.withLineMarkers true) provider entry context world).outcome.map
          Program.unmarked,
        (read (settings.withLineMarkers true) provider entry context world).session.unmarked⟩ := by
  have hstart : ({ world := world } : Session σ κ) = Session.unmarked { world := world } := rfl
  have hends := (comparison_unmarked settings).matches_visit_entry provider entry context hstart
  unfold read
  dsimp only
  generalize (Walk.visit (settings.withLineMarkers true) provider _ _ entry context).run _ =
    markedEnd at hends ⊢
  generalize (Walk.visit (settings.withLineMarkers false) provider _ _ entry context).run _ =
    plainEnd at hends ⊢
  cases hends with
  | ok hsame =>
    subst hsame
    dsimp only
    rw [← Program.ofDraft_unmarked]
    rfl
  | error hsame =>
    subst hsame
    rfl
  | excused hnever => exact hnever.elim

/-! ## Markers in the text of a source -/

/-- A text in which every line is terminated, without those of its lines that are markers. -/
def Text.withoutMarkers (text : String) : String :=
  joined <| (pieces text).dropLast.filter fun line => (Origin.ofMarker? line).isNone

/-- A line that reads as a marker only if it is one. -/
def Line.IsHonest (line : Line) : Prop :=
  line.isMarker = false → Origin.ofMarker? line.text = none

/-- A text that does not start like a marker is none. -/
theorem Origin.ofMarker?_eq_none {text : String} (hfront : text.toList.take 2 ≠ ['#', 'l']) :
    ofMarker? text = none := by
  cases hremainder : Directive.remainder? "#line " text with
  | none =>
    rw [ofMarker?, hremainder]
    rfl
  | some rest =>
    obtain ⟨cs, hprefix, -⟩ := Option.map_eq_some_iff.mp hremainder
    have htext := List.isPrefixOf?_eq_some_iff_append_eq.mp hprefix
    exact absurd (by rw [← htext]; rfl) hfront

namespace PackedStruct

variable {struct : PackedStruct}

theorem ofMarker?_of_mem_memberLines {member : Member} {typeToken text : String}
    (htext : text ∈ struct.memberLines member typeToken) : Origin.ofMarker? text = none := by
  simp only [memberLines, List.mem_cons, List.not_mem_nil, or_false] at htext
  obtain rfl | rfl := htext
  · exact Origin.ofMarker?_eq_none (by simp)
  · exact Origin.ofMarker?_eq_none (by simp)

theorem ofMarker?_of_mem_loadLines {members : List Member} {text : String}
    (htext : text ∈ struct.loadLines members) : Origin.ofMarker? text = none := by
  have hline : ∀ separator member,
      Origin.ofMarker? (struct.loadLine separator member) = none := by
    intro separator member
    -- The equation of this definition is slow to make, because of its long literals.
    delta loadLine
    exact Origin.ofMarker?_eq_none (by simp)
  fun_induction loadLines struct members with
  | case1 => cases htext
  | case2 member =>
    rw [List.mem_singleton.mp htext]
    exact hline "" member
  | case3 member rest _ ih =>
    obtain rfl | hlater := List.mem_cons.mp htext
    · exact hline "," member
    · exact ih hlater

theorem ofMarker?_of_mem_closingLines {text : String} (htext : text ∈ struct.closingLines) :
    Origin.ofMarker? text = none := by
  simp only [closingLines, List.mem_append, List.mem_singleton, List.mem_map] at htext
  obtain (((rfl | htext) | rfl) | ⟨member, -, rfl⟩) | rfl := htext
  · exact Origin.ofMarker?_eq_none (by decide)
  · exact ofMarker?_of_mem_loadLines htext
  · exact Origin.ofMarker?_eq_none (by simp)
  · exact Origin.ofMarker?_eq_none (by simp [aggregateLine])
  · exact Origin.ofMarker?_eq_none (by decide)

end PackedStruct

def Edit.AreHonest (edits : List Edit) : Prop :=
  ∀ line, .append line ∈ edits → line.IsHonest

namespace Edit

theorem areHonest_append {front back : List Edit} (hfront : AreHonest front)
    (hback : AreHonest back) : AreHonest (front ++ back) := by
  intro line hline
  obtain hline | hline := List.mem_append.mp hline
  · exact hfront line hline
  · exact hback line hline

theorem areHonest_markers (settings : Settings) (number : Nat) (file : String) :
    AreHonest (Walk.markers settings number file) := by
  intro line hline hnot
  rw [Walk.markers] at hline
  split at hline
  · cases List.mem_singleton.mp hline
    cases hnot
  · cases hline

theorem areHonest_guardOpening (path : String) : AreHonest (Walk.guardOpening path) := by
  intro line hline _
  simp only [Walk.guardOpening, List.mem_cons, append.injEq, List.not_mem_nil, or_false,
    reduceCtorEq] at hline
  obtain rfl | rfl := hline
  · exact Origin.ofMarker?_eq_none (by simp [Line.text])
  · exact Origin.ofMarker?_eq_none (by simp [Line.text])

theorem areHonest_guardClosing (once : Bool) : AreHonest (Walk.guardClosing once) := by
  intro line hline _
  cases once with
  | false => cases hline
  | true =>
    cases List.mem_singleton.mp hline
    exact Origin.ofMarker?_eq_none (by decide)

theorem areHonest_of_meaning {settings : Settings} {draft : Draft} {site : Location}
    {args : List String} {edits : List Edit}
    (hmeaning : Command.meaning settings draft site args = .ok edits) : AreHonest edits := by
  intro line hline _
  cases Command.hasParts_meaning settings draft site args edits hmeaning _ hline with
  | quiet hnone => cases hnone
  | opening => exact Origin.ofMarker?_eq_none (by simp [Line.text, PackedStruct.openingLine])
  | member _ _ _ htext => exact PackedStruct.ofMarker?_of_mem_memberLines htext
  | closing _ htext => exact PackedStruct.ofMarker?_of_mem_closingLines htext

end Edit

def Buffer.IsHonest (buffer : Buffer) : Prop :=
  ∀ line ∈ buffer.lines.toList, line.IsHonest

theorem Draft.Holds.applyAll_honest {draft : Draft} (hdraft : draft.Holds Buffer.IsHonest)
    {edits : List Edit} (hedits : Edit.AreHonest edits) :
    (draft.applyAll edits).Holds Buffer.IsHonest := by
  induction edits generalizing draft with
  | nil => exact hdraft
  | cons edit edits ih =>
    refine ih ?_ fun line hline => hedits line (List.mem_cons_of_mem _ hline)
    cases edit with
    | append line =>
      refine hdraft.append fun other hother => ?_
      rw [Buffer.toList_lines_push] at hother
      obtain hold | hlast := List.mem_append.mp hother
      · exact hdraft.current other hold
      · rw [List.mem_singleton.mp hlast]
        exact hedits line List.mem_cons_self
    | guard path => exact hdraft.guard hdraft.current
    | _ => exact hdraft.apply_other rfl (by simp)

/-- If no line of a file is a marker, the buffers have honest lines only. -/
theorem Course.honest {κ : Type} {settings : Settings} {promise : Event κ → Prop}
    (hfetch : ∀ path depth text, promise (.fetch path depth (.ok text)) →
      ∀ line ∈ Text.lines text, Origin.ofMarker? line = none)
    {room : Nat} {file : Target κ} {number : Nat} {once after : Bool} {lines : List String}
    {draft last : Draft}
    (course : Course settings promise room file number once lines draft after last)
    (hlines : ∀ line ∈ lines, Origin.ofMarker? line = none)
    (hdraft : draft.Holds Buffer.IsHonest) : last.Holds Buffer.IsHonest := by
  induction course with
  | done => exact hdraft
  | @plain room file number once after line lines draft last _ _ ih =>
    obtain ⟨hline, hlater⟩ := List.forall_mem_cons.mp hlines
    have hcopied : Edit.AreHonest [.append (.copied file.path number line)] := by
      intro other hother _
      cases List.mem_singleton.mp hother
      exact hline
    exact ih hlater (hdraft.applyAll_honest hcopied)
  | once _ _ ih =>
    exact ih (List.forall_mem_cons.mp hlines).2 (hdraft.applyAll_honest
      (Edit.areHonest_append (Edit.areHonest_guardOpening _) (Edit.areHonest_markers _ _ _)))
  | command _ hmeaning _ ih =>
    exact ih (List.forall_mem_cons.mp hlines).2 (hdraft.applyAll_honest
      (Edit.areHonest_append (Edit.areHonest_of_meaning hmeaning) (Edit.areHonest_markers _ _ _)))
  | leftOut _ _ _ _ ih =>
    exact ih (List.forall_mem_cons.mp hlines).2
      (hdraft.applyAll_honest (Edit.areHonest_markers _ _ _))
  | included _ _ _ hfetched _ _ ihInner ihRest =>
    have hmiddle := ihInner (hfetch _ _ _ hfetched)
      (hdraft.applyAll_honest (Edit.areHonest_markers _ _ _))
    exact ihRest (List.forall_mem_cons.mp hlines).2 (hmiddle.applyAll_honest
      (Edit.areHonest_append (Edit.areHonest_guardClosing _) (Edit.areHonest_markers _ _ _)))

/-- The markers of a source can be told from its other lines by their text. -/
theorem Text.withoutMarkers_joined {lines : Array Line}
    (hisLine : ∀ line ∈ lines.toList, IsLine line.text)
    (hhonest : ∀ line ∈ lines.toList, line.IsHonest) :
    withoutMarkers (joined (lines.toList.map Line.text)) =
      joined ((Line.unmarked lines).toList.map Line.text) := by
  have hread : ∀ line ∈ lines.toList,
      (Origin.ofMarker? line.text).isNone = !line.isMarker := by
    intro line hline
    cases line with
    | marker number file => rw [Line.ofMarker?_marker]; rfl
    | _ => rw [hhonest _ hline rfl]; rfl
  rw [withoutMarkers, pieces_joined (by simpa using hisLine), List.dropLast_concat,
    List.filter_map, Line.unmarked, Array.toList_filter]
  exact congrArg (fun kept => joined (kept.map Line.text)) (List.filter_congr hread)

/-! ## The main result -/

/-- A technique is another one, but for the markers in its sources. -/
structure Technique.Unmarks (plain marked : Technique) : Prop where
  name : plain.name = marked.name
  stages : plain.stages = marked.stages
  activeMutators : ∀ stage, plain.activeMutators stage = marked.activeMutators stage
  source : ∀ stage, plain.source? stage = (marked.source? stage).map Text.withoutMarkers

/-- A program is another one, but for the markers in its sources. These are found in the text alone,
as a compiler would find them. -/
structure Program.Unmarks (plain marked : Program) : Prop where
  space : plain.space = marked.space
  common : plain.commonSource = Text.withoutMarkers marked.commonSource
  techniques : List.Forall₂ Technique.Unmarks plain.techniques marked.techniques
  library : plain.library = marked.library
  rayType : plain.rayType = marked.rayType
  sixteenBit : plain.sixteenBit = marked.sixteenBit

/-- Markers can be taken out of the sources of a program by their text if that can be done with
every buffer of the draft that it comes from. -/
theorem Program.unmarks_of_ofDraft {settings : Settings} {entry : String} {draft : Draft}
    {program : Program} {property : String → Nat → String → Prop}
    (hprogram : Program.ofDraft settings entry draft = .ok program)
    (hexact : draft.Exact property) (hhonest : draft.Holds Buffer.IsHonest) :
    program.unmarked.Unmarks program := by
  have hjoined : ∀ lines : Array Line,
      (∃ buffer : Buffer, buffer.Exact property ∧ buffer.lines = lines) →
      (∃ buffer : Buffer, buffer.IsHonest ∧ buffer.lines = lines) →
        Text.joined ((Line.unmarked lines).toList.map Line.text) =
          Text.withoutMarkers (Text.joined (lines.toList.map Line.text)) := by
    rintro _ ⟨buffer, hbuffer, rfl⟩ ⟨other, hother, hlines⟩
    refine (Text.withoutMarkers_joined ?_ (hlines ▸ hother)).symm
    exact fun line hline => hbuffer.isLine line.text (List.mem_map_of_mem hline)
  refine ⟨rfl, ?_, ?_, rfl, rfl, rfl⟩
  · obtain ⟨-, rfl⟩ := Program.of_ofDraft hprogram
    exact hjoined _ ⟨_, hexact.buffers.common, rfl⟩ ⟨_, hhonest.common, rfl⟩
  · refine List.forall₂_map_left_iff.mpr (List.forall₂_same.mpr fun technique htechnique => ?_)
    have hstage : ∀ block : Block, block.unmarked.stage = block.stage := fun _ => rfl
    refine ⟨rfl, Technique.stages_mapBlocks _ hstage technique,
      Technique.activeMutators_mapBlocks _ hstage (fun _ => rfl) technique, ?_⟩
    intro stage
    rw [Technique.source?, Technique.source?, Technique.block?_mapBlocks _ hstage]
    cases hblock : technique.block? stage with
    | none => rfl
    | some block =>
      have hsource : block.unmarked.source = Text.withoutMarkers block.source :=
        hjoined block.lines
          (Program.exists_buffer_of_block? hprogram hexact.buffers htechnique hblock)
          (Program.exists_buffer_of_block? hprogram hhonest htechnique hblock)
      exact congrArg some hsource

/-- Taking out markers leaves the questions to the provider as they are. -/
theorem Session.calls_unmarked {σ κ : Type} (session : Session σ κ) :
    session.unmarked.journal.toList.filterMap Event.call? =
      session.journal.toList.filterMap Event.call? := by
  rw [Session.unmarked, Array.toList_filter, List.filterMap_filter]
  refine List.filterMap_congr fun event _ => ?_
  cases event with
  | edit change => split <;> rfl
  | _ => rfl

section

variable {σ κ : Type} {settings : Settings} {provider : Provider σ κ} {entry : String}
  {context : κ} {world : σ}

/-- Line markers are additions to the sources and to nothing else. Let a program be read with
markers and without them, from files in which no line is a marker of its own and whose resolved
paths are lines. Then the provider is asked the same questions, and the two readings end with the
same fault, or with programs of which the second is the first one with the markers deleted from its
sources. -/
theorem fault_eq_or_unmarks_of_read
    (hpaths : ∀ path place target, .resolve path place (.ok target) ∈
      (read (settings.withLineMarkers true) provider entry context world).session.journal →
        Text.IsLine target.path)
    (htexts : ∀ path depth text, .fetch path depth (.ok text) ∈
      (read (settings.withLineMarkers true) provider entry context world).session.journal →
        ∀ line ∈ Text.lines text, Origin.ofMarker? line = none) :
    (read (settings.withLineMarkers false) provider entry context world).calls =
        (read (settings.withLineMarkers true) provider entry context world).calls ∧
      ((∃ fault,
        (read (settings.withLineMarkers true) provider entry context world).outcome =
          .error fault ∧
        (read (settings.withLineMarkers false) provider entry context world).outcome =
          .error fault) ∨
      ∃ marked plain,
        (read (settings.withLineMarkers true) provider entry context world).outcome =
          .ok marked ∧
        (read (settings.withLineMarkers false) provider entry context world).outcome =
          .ok plain ∧
        plain.Unmarks marked) := by
  rw [read_unmarked]
  refine ⟨Session.calls_unmarked _, ?_⟩
  cases houtcome :
      (read (settings.withLineMarkers true) provider entry context world).outcome with
  | error fault => exact .inl ⟨fault, rfl, rfl⟩
  | ok marked =>
    refine .inr ⟨marked, marked.unmarked, rfl, rfl, ?_⟩
    let journal :=
      (read (settings.withLineMarkers true) provider entry context world).session.journal
    have hanswers : MarkableAnswers (· ∈ journal) fun _ _ _ => True :=
      ⟨hpaths, fun path depth text hevent offset line hline =>
        ⟨htexts path depth text hevent line (List.mem_of_getElem? hline), trivial⟩⟩
    obtain ⟨target, whole, guarded, last, -, hresolved, hfetched, course, hprogram⟩ :=
      course_of_read houtcome fun event hevent => hevent
    have htarget := hanswers.resolve _ _ _ hresolved
    have hexact := course.exact hanswers rfl htarget (fun line => Text.isLine_of_mem_lines)
      (hanswers.fetch _ _ _ hfetched) (Draft.exact_empty.ready rfl htarget 1)
    have hempty : ({} : Draft).Holds Buffer.IsHonest := .empty (by simp [Buffer.IsHonest])
    have hhonest := course.honest htexts (htexts _ _ _ hfetched)
      (hempty.applyAll_honest (Edit.areHonest_markers _ _ _))
    exact Program.unmarks_of_ofDraft hprogram (hexact.guardClosing guarded)
      (hhonest.applyAll_honest (Edit.areHonest_guardClosing guarded))

end

/-- A block with a struct in it, and a file in front of it that is included once only. -/
def structBlock : Catalog where
  files :=
    [("main", "#include \"types\"\n#pragma anki technique_start comp\n#pragma anki struct S\n" ++
        "#pragma anki member U32 a\n#pragma anki struct_end\n#pragma anki technique_end comp\n"),
     ("types", "#pragma once\nint t;\n")]

theorem fault_eq_or_unmarks_of_read_structBlock :
    ∃ marked plain,
      (read { lineMarkers := true } structBlock.provider "main" "" ()).outcome = .ok marked ∧
      (read {} structBlock.provider "main" "" ()).outcome = .ok plain ∧
      marked.common.any Line.isMarker = true ∧ plain.Unmarks marked := by
  have hcheck :
      ((read (Settings.withLineMarkers {} true) structBlock.provider "main" ""
        ()).outcome.toOption.any fun marked => marked.common.any Line.isMarker) = true ∧
      ((read (Settings.withLineMarkers {} true) structBlock.provider "main" ""
        ()).session.journal.all fun event =>
          event.target?.all fun target => decide (Text.IsLine target.path)) = true ∧
      ((read (Settings.withLineMarkers {} true) structBlock.provider "main" ""
        ()).session.journal.all fun event =>
          event.text?.all fun text => (Text.lines text).all fun line =>
            decide (Origin.ofMarker? line = none)) = true := by
    decide +kernel
  obtain ⟨houtcome, htargets, hlines⟩ := hcheck
  obtain ⟨marked, hprogram, hmarker⟩ := (Option.any_eq_true ..).mp houtcome
  have hpaths : ∀ path place target, .resolve path place (.ok target) ∈
      (read (Settings.withLineMarkers {} true) structBlock.provider "main" "" ()).session.journal →
        Text.IsLine target.path :=
    fun path place target hevent => of_decide_eq_true (Event.of_all_target? htargets hevent)
  have htexts : ∀ path depth text, .fetch path depth (.ok text) ∈
      (read (Settings.withLineMarkers {} true) structBlock.provider "main" "" ()).session.journal →
        ∀ line ∈ Text.lines text, Origin.ofMarker? line = none :=
    fun path depth text hevent line hmem =>
      of_decide_eq_true (List.all_eq_true.mp (Event.of_all_text? hlines hevent) line hmem)
  have hread := eq_ok_of_toOption hprogram
  obtain ⟨fault, hfault, -⟩ | ⟨other, plain, hother, hplain, hunmarks⟩ :=
    (fault_eq_or_unmarks_of_read hpaths htexts).2
  · rw [hread] at hfault
    cases hfault
  · rw [hread] at hother
    cases hother
    exact ⟨marked, plain, hread, hplain, hmarker, hunmarks⟩

end Ubershader
