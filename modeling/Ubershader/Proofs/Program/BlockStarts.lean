import Ubershader.Proofs.Program.Header
import Ubershader.Proofs.Reading.Routing
import Ubershader.Proofs.Reading.Visits
import Ubershader.Proofs.Space.Pairs

/-!
# The line that opens a block

A block sees the mutators that the line which opens it lists, and all of them if that line has no
list. The list is turned into a mask when the block is opened, by the positions that its mutators
have at that moment, while more mutators may be declared later and elsewhere. So two things are
followed from the line to the program: the mask goes from the line to the edit that opens the block,
and from there to the finished block, and a mutator keeps its position.
-/

namespace Ubershader

/-! ## What the line says -/

namespace Command

/-- The tokens of the list of mutators that a block sees, which may be left out. -/
def clauseTokens : Option (List String) → List String
  | none => []
  | some names => usesMutators :: names

/-- The arguments of the command that opens a block: the stage, a name that may be left out, and a
list of mutators that may be left out. A word that starts a list is not a name. -/
inductive BlockStart : List String → Stage → String → Option (List String) → Prop
  | unnamed (stage : Stage) (clause : Option (List String)) :
      BlockStart (stage.token :: clauseTokens clause) stage unnamedTechnique clause
  | named (stage : Stage) {name : String} (isName : name ≠ usesMutators)
      (clause : Option (List String)) :
      BlockStart (stage.token :: name :: clauseTokens clause) stage name clause

theorem clauseTokens_inj {clause other : Option (List String)}
    (htokens : clauseTokens clause = clauseTokens other) : clause = other := by
  cases clause with
  | none =>
    cases other with
    | none => rfl
    | some names => cases htokens
  | some names =>
    cases other with
    | none => cases htokens
    | some others => rw [(List.cons.inj htokens).2]

theorem clauseTokens_ne_cons {name : String} (hname : name ≠ usesMutators)
    (clause : Option (List String)) (rest : List String) : clauseTokens clause ≠ name :: rest := by
  cases clause with
  | none =>
    intro htokens
    cases htokens
  | some names =>
    intro htokens
    exact hname (List.cons.inj htokens).1.symm

/-- The arguments tell the list of mutators. -/
theorem BlockStart.clause_unique {args : List String} {stage other : Stage} {name word : String}
    {clause otherClause : Option (List String)} (first : BlockStart args stage name clause)
    (second : BlockStart args other word otherClause) : clause = otherClause := by
  cases first with
  | unnamed =>
    generalize hargs : stage.token :: clauseTokens clause = args at second
    cases second with
    | unnamed => exact clauseTokens_inj (List.cons.inj hargs).2
    | named _ hname => exact absurd (List.cons.inj hargs).2 (clauseTokens_ne_cons hname _ _)
  | named _ hname =>
    generalize hargs : stage.token :: name :: clauseTokens clause = args at second
    cases second with
    | unnamed => exact absurd (List.cons.inj hargs).2.symm (clauseTokens_ne_cons hname _ _)
    | named => exact clauseTokens_inj (List.cons.inj (List.cons.inj hargs).2).2

theorem exists_clause_of_activeMask {space : Space} {args : List String} {active : MutatorMask}
    (hactive : activeMask space args = .ok active) : ∃ clause, args = clauseTokens clause := by
  cases args with
  | nil => exact ⟨none, rfl⟩
  | cons word names =>
    rw [activeMask] at hactive
    split at hactive
    · next hword => exact ⟨some names, hword ▸ rfl⟩
    · cases hactive

/-- The words after the stage are a name and a list, if what is left of them is a list. -/
theorem blockStart_of_techniqueName (stage : Stage) {words : List String}
    {clause : Option (List String)} (hclause : (techniqueName words).2 = clauseTokens clause) :
    BlockStart (stage.token :: words) stage (techniqueName words).1 clause := by
  cases words with
  | nil =>
    obtain rfl : none = clause := clauseTokens_inj hclause
    exact .unnamed stage none
  | cons word words =>
    rw [techniqueName] at hclause ⊢
    split
    · next hword =>
      rw [if_pos hword] at hclause
      dsimp only at hclause
      rw [hclause]
      exact .unnamed stage clause
    · next hword =>
      rw [if_neg hword] at hclause
      dsimp only at hclause
      rw [hclause]
      exact .named stage hword clause

section

variable {settings : Settings} {draft : Draft} {site : Location} {args : List String}
  {edits : List Edit}

/-- A command that opens a block has the form that it should have, and does nothing else. -/
theorem blockStart_of_techniqueStart
    (hmeaning : techniqueStart settings draft site args = .ok edits) :
    ∃ technique stage clause active, BlockStart (Text.beforeComment args) stage technique clause ∧
      activeMask draft.space (clauseTokens clause) = .ok active ∧
      edits = [.openBlock technique stage active site] := by
  rw [techniqueStart] at hmeaning
  split at hmeaning
  · cases hmeaning
  · next token words hwords =>
    rw [hwords]
    split at hmeaning
    · cases hmeaning
    · next stage hstage =>
      obtain rfl := Stage.token_eq_of_ofToken? hstage
      dsimp only at hmeaning
      split at hmeaning
      · cases hmeaning
      · split at hmeaning
        · cases hmeaning
        · obtain ⟨active, hactive, hopen⟩ := exists_of_bind_eq_ok hmeaning
          obtain ⟨clause, hclause⟩ := exists_clause_of_activeMask hactive
          refine ⟨_, stage, clause, active, blockStart_of_techniqueName stage hclause,
            hclause ▸ hactive, ?_⟩
          rw [openBlock] at hopen
          split at hopen
          · cases hopen
          · split at hopen
            · cases hopen
            · exact (Except.ok.inj hopen).symm

/-! ## Commands that open no block -/

/-- A command that stays at whatever line it is put on opens nothing. -/
theorem site?_eq_none_of_staysAt {meaning : Meaning} (hstays : ∀ site, meaning.StaysAt site)
    (hmeaning : meaning = .ok edits) {edit : Edit} (hedit : edit ∈ edits) : edit.site? = none := by
  cases hsite : edit.site? with
  | none => rfl
  | some site =>
    have hmoved := hstays ⟨site.file, site.line + 1, site.text⟩ edits hmeaning edit hedit site hsite
    have hline := congrArg Location.line hmoved
    exact absurd hline (Nat.ne_of_lt (Nat.lt_succ_self _))

/-- All commands but two stay at whatever line they are put on. -/
theorem staysAt_named {name : String} (hstart : name ≠ "technique_start")
    (hstruct : name ≠ "struct") (args : List String) (other : Location) :
    (named settings draft site args name).StaysAt other := by
  rw [named]
  refine staysAt_ite (staysAt_outsideStruct (staysAt_map _ fun _ => rfl)) ?_
  rw [if_neg hstart]
  refine staysAt_ite (staysAt_outsideStruct (staysAt_techniqueEnd args)) ?_
  refine staysAt_ite (staysAt_outsideStruct (staysAt_map _ fun _ => rfl)) ?_
  refine staysAt_ite (staysAt_outsideStruct (staysAt_map _ fun _ => rfl)) ?_
  refine staysAt_ite (staysAt_outsideStruct (staysAt_library args)) ?_
  refine staysAt_ite (staysAt_outsideStruct (staysAt_rayType args)) ?_
  rw [if_neg hstruct]
  refine staysAt_ite (staysAt_member args) ?_
  refine staysAt_ite (staysAt_structEnd args) ?_
  exact staysAt_ite (staysAt_ite (staysAt_error _) (staysAt_singleton rfl)) (staysAt_error _)

theorem openBlock_notMem_structStart (hmeaning : structStart site args = .ok edits)
    (technique : String) (stage : Stage) (active : MutatorMask) (opened : Location) :
    .openBlock technique stage active opened ∉ edits := by
  rw [structStart] at hmeaning
  split at hmeaning
  · split at hmeaning
    · cases hmeaning
      simp
    · cases hmeaning
  · cases hmeaning

/-- A block is opened by one kind of command. -/
theorem exists_techniqueStart_of_meaning (hmeaning : meaning settings draft site args = .ok edits)
    {technique : String} {stage : Stage} {active : MutatorMask} {opened : Location}
    (hopens : .openBlock technique stage active opened ∈ edits) :
    ∃ words, args = "technique_start" :: words ∧
      techniqueStart settings draft site words = .ok edits := by
  cases args with
  | nil => cases hmeaning
  | cons name words =>
    rw [meaning] at hmeaning
    by_cases hstart : name = "technique_start"
    · subst hstart
      rw [named, if_neg (by decide), if_pos rfl] at hmeaning
      exact ⟨words, rfl, (of_outsideStruct hmeaning).2⟩
    · by_cases hstruct : name = "struct"
      · subst hstruct
        have hnamed : named settings draft site words "struct" =
            outsideStruct draft (structStart site words) := rfl
        rw [hnamed] at hmeaning
        exact absurd hopens
          (openBlock_notMem_structStart (of_outsideStruct hmeaning).2 _ _ _ _)
      · have hnone := site?_eq_none_of_staysAt (staysAt_named hstart hstruct words) hmeaning hopens
        cases hnone

/-! ## Masks -/

/-- The mask of a list has the bits of the mutators in the list, all of which are there. -/
theorem of_maskOf {space : Space} (hspace : space.WellFormed) {names : List String}
    {mask : MutatorMask} (hmask : maskOf space names = .ok mask) :
    (∀ name ∈ names, ∃ index, space.mutatorIndex? name = some index) ∧
      ∀ index, mask.getLsbD index = true ↔
        ∃ name ∈ names, space.mutatorIndex? name = some index := by
  induction names generalizing mask with
  | nil =>
    cases hmask
    simp
  | cons name names ih =>
    rw [maskOf] at hmask
    split at hmask
    · cases hmask
    · next place hplace =>
      obtain ⟨rest, hrest, hsum⟩ := exists_of_bind_eq_ok hmask
      obtain ⟨hfound, hbits⟩ := ih hrest
      have hlt : place < 64 :=
        Nat.lt_of_lt_of_le (Space.lt_of_mutatorIndex? hplace) hspace.length_le
      obtain rfl := Except.ok.inj hsum
      refine ⟨List.forall_mem_cons.mpr ⟨⟨place, hplace⟩, hfound⟩, fun index => ?_⟩
      rw [BitVec.getLsbD_or, BitVec.getLsbD_twoPow, Bool.or_eq_true, hbits index]
      simp [hplace, hlt]

end

/-- Whether a list that may be left out has a name in it. Without a list every name counts. -/
def sees : Option (List String) → String → Bool
  | none, _ => true
  | some names, name => names.contains name

theorem sees_iff {clause : Option (List String)} {name : String} :
    sees clause name = true ↔ clause = none ∨ ∃ names, clause = some names ∧ name ∈ names := by
  cases clause with
  | none => simp [sees]
  | some names => simp [sees]

section

variable {space last : Space} {clause : Option (List String)} {active : MutatorMask}

/-- The mask of a block tells its list, also for mutators that are declared later. -/
theorem getLsbD_activeMask_iff (hspace : space.WellFormed) (hlast : last.WellFormed)
    (hmutators : space.mutators <+: last.mutators)
    (hactive : activeMask space (clauseTokens clause) = .ok active) {index : Nat}
    {mutator : Mutator} (hmutator : last.mutators[index]? = some mutator) :
    active.getLsbD index = true ↔ sees clause mutator.name = true := by
  have hlt : index < last.mutators.length := (List.getElem?_eq_some_iff.mp hmutator).1
  cases clause with
  | none =>
    obtain rfl : BitVec.allOnes 64 = active := Except.ok.inj hactive
    have hbit : index < 64 := Nat.lt_of_lt_of_le hlt hlast.length_le
    rw [BitVec.getLsbD_allOnes]
    simp [sees, hbit]
  | some names =>
    rw [clauseTokens, activeMask, if_pos rfl] at hactive
    obtain ⟨hfound, hbits⟩ := of_maskOf hspace hactive
    rw [hbits, sees, List.contains_iff_mem]
    have hposition := hlast.mutatorIndex?_eq_some hmutator
    constructor
    · rintro ⟨name, hname, hindex⟩
      obtain rfl : name = mutator.name :=
        Space.mutatorIndex?_inj (Space.mutatorIndex?_mono hmutators hindex) hposition
      exact hname
    · intro hname
      obtain ⟨place, hplace⟩ := hfound mutator.name hname
      obtain rfl : place = index :=
        Option.some.inj ((Space.mutatorIndex?_mono hmutators hplace).symm.trans hposition)
      exact ⟨mutator.name, hname, hplace⟩

/-- A list sets no bits past the mutators, and names mutators that are there. -/
theorem of_activeMask_some (hspace : space.WellFormed) {names : List String}
    (hactive : activeMask space (clauseTokens (some names)) = .ok active) :
    (∀ index, space.mutators.length ≤ index → active.getLsbD index = false) ∧
      ∀ name ∈ names, ∃ mutator ∈ space.mutators, mutator.name = name := by
  rw [clauseTokens, activeMask, if_pos rfl] at hactive
  obtain ⟨hfound, hbits⟩ := of_maskOf hspace hactive
  constructor
  · intro index hle
    rw [Bool.eq_false_iff, Ne, hbits]
    rintro ⟨name, -, hindex⟩
    exact absurd (Space.lt_of_mutatorIndex? hindex) (Nat.not_lt.mpr hle)
  · intro name hname
    obtain ⟨index, hindex⟩ := hfound name hname
    obtain ⟨mutator, hmutator, hsame⟩ := Space.exists_of_mutatorIndex? hindex
    exact ⟨mutator, List.mem_of_getElem? hmutator, hsame⟩

end

end Command

/-! ## From the line to the edit -/

/-- A line opens a block of a technique and stage, and says which mutators the block sees. -/
def Location.Starts (site : Location) (technique : String) (stage : Stage)
    (clause : Option (List String)) : Prop :=
  ∃ args, Directive.ofLine site.text = .command ("technique_start" :: args) ∧
    Command.BlockStart (Text.beforeComment args) stage technique clause

theorem Location.Starts.clause_unique {site : Location} {technique name : String}
    {stage other : Stage} {clause otherClause : Option (List String)}
    (first : site.Starts technique stage clause) (second : site.Starts name other otherClause) :
    clause = otherClause := by
  obtain ⟨args, hline, hstart⟩ := first
  obtain ⟨words, hsame, hother⟩ := second
  obtain rfl : args = words := by simpa using hline.symm.trans hsame
  exact hstart.clause_unique hother

/-- Every block was opened by a line that the journal shows, and its mask is the one that this line
had at that moment. -/
structure Session.OpensByLines {σ κ : Type} (session : Session σ κ) : Prop where
  draft : session.draft = ({} : Draft).applyAll session.edits
  opened : ∀ position technique stage active site,
    session.edits[position]? = some (.openBlock technique stage active site) →
      site.IsShown session.journal ∧ ∃ clause, site.Starts technique stage clause ∧
        Command.activeMask (({} : Draft).applyAll (session.edits.take position)).space
          (Command.clauseTokens clause) = .ok active

namespace Session.OpensByLines

variable {σ κ : Type} {session later : Session σ κ}

/-- What is not an edit changes nothing. -/
theorem of_edits_eq (hsession : session.OpensByLines) (hedits : later.edits = session.edits)
    (hdraft : later.draft = session.draft)
    (hjournal : ∀ event ∈ session.journal, event ∈ later.journal) : later.OpensByLines where
  draft := by rw [hdraft, hedits, hsession.draft]
  opened := by
    intro position technique stage active site hopen
    rw [hedits] at hopen ⊢
    obtain ⟨hshown, hstart⟩ := hsession.opened position technique stage active site hopen
    exact ⟨hshown.mono hjournal, hstart⟩

theorem performAll (hsession : session.OpensByLines) {edits : List Edit}
    (hnew : ∀ position technique stage active site,
      edits[position]? = some (.openBlock technique stage active site) →
        position = 0 ∧ site.IsShown session.journal ∧ ∃ clause,
          site.Starts technique stage clause ∧
          Command.activeMask session.draft.space (Command.clauseTokens clause) = .ok active) :
    ((Walk.performAll edits).endSession session).OpensByLines where
  draft := by
    rw [edits_performAll, Walk.endSession_performAll, hsession.draft, Draft.applyAll_append]
  opened := by
    intro position technique stage active site hopen
    rw [edits_performAll] at hopen ⊢
    have hgrows : ∀ event ∈ session.journal,
        event ∈ ((Walk.performAll edits).endSession session).journal := by
      intro event hevent
      simp [hevent]
    obtain hlt | hle := Nat.lt_or_ge position session.edits.length
    · rw [List.getElem?_append_left hlt] at hopen
      rw [List.take_append_of_le_length (Nat.le_of_lt hlt)]
      obtain ⟨hshown, hstart⟩ := hsession.opened position technique stage active site hopen
      exact ⟨hshown.mono hgrows, hstart⟩
    · rw [List.getElem?_append_right hle] at hopen
      obtain ⟨hfirst, hshown, clause, hstart, hactive⟩ := hnew _ technique stage active site hopen
      obtain rfl : position = session.edits.length := by omega
      refine ⟨hshown.mono hgrows, clause, hstart, ?_⟩
      rw [List.take_left, ← hsession.draft]
      exact hactive

theorem performAll_quiet (hsession : session.OpensByLines) {edits : List Edit}
    (hnone : ∀ technique stage active site, .openBlock technique stage active site ∉ edits) :
    ((Walk.performAll edits).endSession session).OpensByLines :=
  hsession.performAll fun _ technique stage active site hopen =>
    absurd (List.mem_of_getElem? hopen) (hnone technique stage active site)

/-- The edits of a command open a block only if the command is there to do so. -/
theorem command (hsession : session.OpensByLines) {settings : Settings} {site : Location}
    {args : List String} {edits : List Edit} (hshown : site.IsShown session.journal)
    (hline : Directive.ofLine site.text = .command args)
    (hmeaning : Command.meaning settings session.draft site args = .ok edits) :
    ((Walk.performAll edits).endSession session).OpensByLines := by
  refine hsession.performAll fun position technique stage active opened hopen => ?_
  obtain ⟨words, rfl, hstart⟩ :=
    Command.exists_techniqueStart_of_meaning hmeaning (List.mem_of_getElem? hopen)
  obtain ⟨name, kind, clause, mask, hform, hmask, rfl⟩ :=
    Command.blockStart_of_techniqueStart hstart
  cases position with
  | succ position => cases hopen
  | zero =>
    cases hopen
    exact ⟨rfl, hshown, clause, ⟨words, hline, hform⟩, hmask⟩

end Session.OpensByLines

theorem readingInvariant_opensByLines {σ κ : Type} (settings : Settings) (provider : Provider σ κ)
    (entry : String) (context : κ) (world : σ) :
    ReadingInvariant settings provider entry context world Session.OpensByLines where
  start := ⟨rfl, by simp [Session.edits]⟩
  resolve hsession := hsession.of_edits_eq (by simp [Walk.resolve, Session.edits, Event.edit?])
    (by simp [Walk.resolve]) (by simp +contextual [Walk.resolve])
  fetch _ _ _ hsession := hsession.of_edits_eq (by simp [Walk.fetch, Session.edits, Event.edit?])
    (by simp [Walk.fetch]) (by simp +contextual [Walk.fetch])
  record _ hedit hsession := hsession.of_edits_eq (by simp [Session.edits, hedit]) rfl
    (by simp +contextual)
  append {line session} hsession := by
    show ((Walk.performAll [.append line]).endSession session).OpensByLines
    exact hsession.performAll_quiet (by simp)
  guard _ _ hsession := hsession.performAll_quiet (by simp [Walk.guardOpening])
  command hshown hline hmeaning hsession := hsession.command hshown hline hmeaning

/-! ## From the edit to the program -/

namespace Edit

def mutator? : Edit → Option Mutator
  | addMutator mutator => some mutator
  | _ => none

theorem eq_addMutator {edit : Edit} {mutator : Mutator} (hadds : edit.mutator? = some mutator) :
    edit = .addMutator mutator := by
  cases edit with
  | addMutator other => rw [Option.some.inj hadds]
  | _ => cases hadds

end Edit

namespace Draft

theorem space_modifyCurrent (draft : Draft) (change : Buffer → Buffer) :
    (draft.modifyCurrent change).space = draft.space := by
  rw [modifyCurrent]
  split <;> rfl

theorem mutators_apply (draft : Draft) (edit : Edit) :
    (draft.apply edit).space.mutators = draft.space.mutators ++ edit.mutator?.toList := by
  cases edit with
  | append | guard => simp [apply, Edit.mutator?, space_modifyCurrent]
  | addMutator mutator => rfl
  | closeBlock =>
    rw [apply]
    split <;> simp [Edit.mutator?]
  | _ => exact (List.append_nil _).symm

/-- The mutators of a space are those that were added, in order. -/
theorem mutators_applyAll (draft : Draft) (edits : List Edit) :
    (draft.applyAll edits).space.mutators =
      draft.space.mutators ++ edits.filterMap Edit.mutator? := by
  induction edits generalizing draft with
  | nil => simp
  | cons edit edits ih =>
    rw [applyAll_cons, ih, mutators_apply, List.append_assoc]
    cases hmutator : edit.mutator? <;> simp [hmutator]

/-- A mutator keeps its position. -/
theorem mutators_applyAll_take (edits : List Edit) (position : Nat) :
    (({} : Draft).applyAll (edits.take position)).space.mutators <+:
      (({} : Draft).applyAll edits).space.mutators := by
  rw [mutators_applyAll, mutators_applyAll]
  exact (List.take_prefix position edits).filterMap _

/-- Every block was opened by some edit, with the name, stage and mask that it has. -/
structure OpenedBy (draft : Draft) (edits : List Edit) : Prop where
  finished : ∀ block ∈ draft.blocks,
    ∃ site, .openBlock block.technique block.stage block.active site ∈ edits
  current : ∀ block, draft.openBlock = some block →
    ∃ site, .openBlock block.technique block.stage block.active site ∈ edits

theorem openedBy_applyAll (edits : List Edit) : (({} : Draft).applyAll edits).OpenedBy edits := by
  induction edits using List.reverseRec with
  | nil => exact ⟨by simp, by simp⟩
  | append_singleton edits edit ih =>
    rw [applyAll_append, applyAll_cons, applyAll_nil]
    generalize ({} : Draft).applyAll edits = draft at ih
    have hkept : draft.OpenedBy (edits ++ [edit]) :=
      ⟨fun block hblock => (ih.finished block hblock).imp fun _ => List.mem_append_left _,
        fun block hopen => (ih.current block hopen).imp fun _ => List.mem_append_left _⟩
    cases edit with
    | append | guard =>
      rw [apply, modifyCurrent]
      split
      · exact ⟨hkept.finished, hkept.current⟩
      · next block hopen =>
        refine ⟨hkept.finished, ?_⟩
        rintro _ ⟨⟩
        exact hkept.current block hopen
    | openBlock technique stage active site =>
      refine ⟨hkept.finished, ?_⟩
      rintro _ ⟨⟩
      exact ⟨site, by simp⟩
    | closeBlock =>
      rw [apply]
      split
      · exact hkept
      · next block hopen =>
        refine ⟨fun other hother => ?_, by simp⟩
        obtain hold | hlast := List.mem_append.mp hother
        · exact hkept.finished other hold
        · rw [List.mem_singleton.mp hlast]
          exact hkept.current block hopen
    | _ => exact ⟨hkept.finished, hkept.current⟩

end Draft

namespace Program

/-- The lines of the mutators that a stage sees, if it sees those that are kept. -/
theorem mutatorLines_eq_map_filter {technique : Technique} {stage : Stage} {keep : Mutator → Bool}
    {mutators : List Mutator} {index : Nat}
    (hkeep : ∀ place mutator, mutators[place]? = some mutator →
      technique.usesMutator stage (index + place) = keep mutator) (mutation : Mutation) :
    mutatorLines technique stage index mutators mutation =
      ((mutators.zip mutation).filter fun pair => keep pair.1).map fun pair =>
        defineLine pair.1.name (Text.decimal pair.2) := by
  induction mutators generalizing index mutation with
  | nil => rfl
  | cons mutator mutators ih =>
    cases mutation with
    | nil => rfl
    | cons value mutation =>
      have hfirst : technique.usesMutator stage index = keep mutator := hkeep 0 mutator rfl
      have hlater : ∀ place other, mutators[place]? = some other →
          technique.usesMutator stage (index + 1 + place) = keep other := by
        intro place other hother
        rw [Nat.add_assoc, Nat.add_comm 1 place]
        exact hkeep (place + 1) other hother
      rw [mutatorLines, ih hlater, hfirst, List.zip_cons_cons, List.filter_cons]
      cases keep mutator <;> rfl

theorem consistsOf_mutatorSection {program : Program} (hspace : program.space.WellFormed)
    {technique : Technique} {stage : Stage} (keep : Mutator → Bool)
    (hkeep : ∀ index mutator, program.space.mutators[index]? = some mutator →
      technique.usesMutator stage index = keep mutator) (mutation : Mutation) :
    Text.ConsistsOf (program.mutatorSection mutation technique stage)
      (((program.space.mutators.zip mutation).filter fun pair => keep pair.1).map fun pair =>
        definition pair.1.name (Text.decimal pair.2)) := by
  rw [mutatorSection, mutatorLines_eq_map_filter (by simpa using hkeep)]
  refine consistsOf_defineLines (fun pair hpair => ?_) fun pair _ => Text.isLine_decimal pair.2
  have hmutator := (List.of_mem_zip (List.mem_of_mem_filter hpair)).1
  exact Text.isLine_of_isIdentifier (hspace.mutators pair.1 hmutator).identifier

/-- The block of a technique for a stage was opened once, with the mask that it has. -/
theorem MadeBy.exists_openBlock {settings : Settings} {edits : List Edit} {program : Program}
    (hprogram : program.MadeBy settings edits) {technique : Technique}
    (htechnique : technique ∈ program.techniques) {stage : Stage}
    (hhas : technique.hasStage stage = true) :
    ∃ (position : Nat) (site : Location),
      edits[position]? =
        some (.openBlock technique.name stage (technique.activeMutators stage) site) ∧
      ∀ other, edits[other]?.bind Edit.opening? = some (technique.name, stage) →
        other = position := by
  obtain ⟨block, hblock⟩ := Option.isSome_iff_exists.mp hhas
  obtain ⟨hfinished, hkey⟩ := (hprogram.block?_eq_some_iff htechnique).mp hblock
  obtain ⟨hname, hstage⟩ := Prod.mk.inj hkey
  have hactive : technique.activeMutators stage = block.active := by
    rw [Technique.activeMutators, hblock, Option.map_some, Option.getD_some]
  obtain ⟨site, hmem⟩ := (Draft.openedBy_applyAll edits).finished block hfinished
  obtain ⟨position, hposition⟩ := List.getElem?_of_mem hmem
  obtain ⟨start, _, stretch, -⟩ := hprogram.trace.routed.exists_stretch_of_finished
    (hkey ▸ List.mem_map_of_mem hfinished : ((technique.name, stage), block.lines.toList) ∈ _)
  have hopening : edits[position]?.bind Edit.opening? = some (technique.name, stage) := by
    rw [hposition]
    exact congrArg some hkey
  refine ⟨position, site, ?_, fun other hother => ?_⟩
  · rw [hposition, hactive, hname, hstage]
  · rw [stretch.unique other hother, stretch.unique position hopening]

/-- A stage of a technique sees the mutators of a list, or all of them if there is none. This is
said of the mask as well as of the definitions that a variant starts with. -/
structure SeesListed (program : Program) (technique : Technique) (stage : Stage)
    (clause : Option (List String)) (earlier : List Edit) : Prop where
  /-- A mutator is seen if it is listed, whenever it was declared. -/
  uses_iff : ∀ index mutator, program.space.mutators[index]? = some mutator →
    (technique.usesMutator stage index = true ↔
      clause = none ∨ ∃ names, clause = some names ∧ mutator.name ∈ names)
  /-- A list sets no bits past the mutators. -/
  unused : ∀ names, clause = some names → ∀ index, program.space.mutators.length ≤ index →
    technique.usesMutator stage index = false
  /-- What is listed was declared before. -/
  declared : ∀ names, clause = some names → ∀ name ∈ names,
    ∃ mutator, .addMutator mutator ∈ earlier ∧ mutator.name = name
  /-- A variant defines the mutators that are seen, in the order in which they were declared. -/
  lines : ∀ mutation, program.space.isValid mutation = true →
    program.variant mutation technique stage = .ok (program.settingsSection ++
      program.mutatorSection mutation technique stage ++ program.techniqueSection technique ++
      program.stageSection stage ++ program.engineSection ++
      (technique.source? stage).getD "") ∧
    Text.ConsistsOf (program.mutatorSection mutation technique stage)
      (((program.space.mutators.zip mutation).filter fun pair =>
          Command.sees clause pair.1.name).map fun pair =>
        definition pair.1.name (Text.decimal pair.2))

/-- A stage sees what its block lists, if the mask of the block was made of the list when the block
was opened. -/
theorem MadeBy.seesListed {settings : Settings} {edits : List Edit} {program : Program}
    (hprogram : program.MadeBy settings edits) {technique : Technique} {stage : Stage}
    (hhas : technique.hasStage stage = true) {position : Nat} {clause : Option (List String)}
    (hactive : Command.activeMask (({} : Draft).applyAll (edits.take position)).space
      (Command.clauseTokens clause) = .ok (technique.activeMutators stage)) :
    program.SeesListed technique stage clause (edits.take position) := by
  have hearlier : (({} : Draft).applyAll (edits.take position)).WellFormed :=
    Draft.wellFormed_of_trace
      ((List.take_append_drop position edits).symm ▸ hprogram.trace).of_append
  have hmutators : (({} : Draft).applyAll (edits.take position)).space.mutators <+:
      program.space.mutators := by
    rw [hprogram.space]
    exact Draft.mutators_applyAll_take edits position
  have huses : ∀ index mutator, program.space.mutators[index]? = some mutator →
      (technique.usesMutator stage index = true ↔ Command.sees clause mutator.name = true) :=
    fun index mutator hmutator => Command.getLsbD_activeMask_iff hearlier.space
      hprogram.space_wellFormed hmutators hactive hmutator
  refine ⟨?_, ?_, ?_, ?_⟩
  · intro index mutator hmutator
    rw [huses index mutator hmutator, Command.sees_iff]
  · rintro names rfl index hle
    exact (Command.of_activeMask_some hearlier.space hactive).1 index
      (Nat.le_trans hmutators.length_le hle)
  · rintro names rfl name hname
    obtain ⟨mutator, hmutator, hsame⟩ :=
      (Command.of_activeMask_some hearlier.space hactive).2 name hname
    rw [Draft.mutators_applyAll, List.nil_append] at hmutator
    obtain ⟨edit, hedit, hadds⟩ := List.mem_filterMap.mp hmutator
    exact ⟨mutator, Edit.eq_addMutator hadds ▸ hedit, hsame⟩
  · intro mutation hvalid
    refine ⟨variant_eq_ok hvalid hhas, consistsOf_mutatorSection
      hprogram.space_wellFormed (fun mutator => Command.sees clause mutator.name) ?_ mutation⟩
    intro index mutator hmutator
    exact Bool.eq_iff_iff.mpr (huses index mutator hmutator)

end Program

/-- The edit at a position opens a block, and the line that it comes from says which mutators the
block sees. -/
def Session.OpensAt {σ κ : Type} (session : Session σ κ) (position : Nat) (technique : String)
    (stage : Stage) (clause : Option (List String)) : Prop :=
  ∃ active site, session.edits[position]? = some (.openBlock technique stage active site) ∧
    site.IsShown session.journal ∧ site.Starts technique stage clause

section

variable {σ κ : Type} {settings : Settings} {provider : Provider σ κ} {entry : String}
  {context : κ} {world : σ} {program : Program}

/-- A block sees the mutators that the line which opens it lists. For a program that was read, a
technique of its own and a stage that the technique has, there is a line that opens the block,
anywhere in the files. Whatever line does so, the stage sees exactly the mutators that it lists, or
all of them if it has no list, also those that were declared after it. -/
theorem exists_opensAt_and_seesListed_of_read
    (hread : (read settings provider entry context world).outcome = .ok program)
    {technique : Technique} (htechnique : technique ∈ program.techniques) {stage : Stage}
    (hhas : technique.hasStage stage = true) :
    let session := (read settings provider entry context world).session
    (∃ position clause, session.OpensAt position technique.name stage clause) ∧
    ∀ position clause, session.OpensAt position technique.name stage clause →
      program.SeesListed technique stage clause (session.edits.take position) := by
  intro session
  have hprogram : program.MadeBy settings session.edits := madeBy_of_read hread
  have hlines : session.OpensByLines :=
    (readingInvariant_opensByLines settings provider entry context world).read
  obtain ⟨start, line, hstart, hunique⟩ := hprogram.exists_openBlock htechnique hhas
  obtain ⟨hshown, listed, hline, hactive⟩ := hlines.opened _ _ _ _ _ hstart
  refine ⟨⟨start, listed, _, line, hstart, hshown, hline⟩, ?_⟩
  rintro position clause ⟨active, site, hopen, -, hsite⟩
  -- The block is opened once, so the line is the one that the mask comes from.
  obtain rfl : position = start := hunique position (by rw [hopen]; rfl)
  cases hopen.symm.trans hstart
  obtain rfl := hsite.clause_unique hline
  exact hprogram.seesListed hhas hactive

end

/-- A block in an included file that lists one of two mutators, and a third mutator after it. -/
def listedMutator : Catalog where
  files :=
    [("main", "#pragma anki mutator A 0 1\n#pragma anki mutator B -7 12\n#include \"part\"\n" ++
        "#pragma anki mutator C 3 4\n"),
     ("part", "#pragma anki technique_start comp Lit uses_mutators B // one\n" ++
        "#pragma anki technique_end comp Lit\n")]

theorem exists_opensAt_and_seesListed_listedMutator :
    ∃ program technique position names,
      (read {} listedMutator.provider "main" "" ()).outcome = .ok program ∧
      technique ∈ program.techniques ∧ technique.hasStage .compute = true ∧
      (read {} listedMutator.provider "main" "" ()).session.OpensAt position technique.name .compute
        (some names) ∧
      "A" ∉ names ∧ "B" ∈ names ∧ "C" ∉ names ∧
      program.SeesListed technique .compute (some names)
        ((read {} listedMutator.provider "main" "" ()).session.edits.take position) := by
  have hcheck : ((read {} listedMutator.provider "main" "" ()).outcome.toOption.any fun program =>
      program.techniques.any fun technique => decide (technique.hasStage .compute = true ∧
        program.space.mutators = [⟨"A", [0, 1]⟩, ⟨"B", [-7, 12]⟩, ⟨"C", [3, 4]⟩] ∧
        technique.usesMutator .compute 0 = false ∧ technique.usesMutator .compute 1 = true ∧
        technique.usesMutator .compute 2 = false)) = true := by
    decide +kernel
  obtain ⟨program, hprogram, htechniques⟩ := (Option.any_eq_true ..).mp hcheck
  obtain ⟨technique, htechnique, hfacts⟩ := List.any_eq_true.mp htechniques
  obtain ⟨hhas, hmutators, hfirst, hsecond, hthird⟩ := of_decide_eq_true hfacts
  have hread := eq_ok_of_toOption hprogram
  obtain ⟨⟨position, clause, hopens⟩, hsees⟩ :=
    exists_opensAt_and_seesListed_of_read hread htechnique hhas
  have hlisted := hsees position clause hopens
  have huses := hlisted.uses_iff
  rw [hmutators] at huses
  have hA := huses 0 _ rfl
  have hB := huses 1 _ rfl
  have hC := huses 2 _ rfl
  cases clause with
  | none => simp [hfirst] at hA
  | some names =>
    refine ⟨program, technique, position, names, hread, htechnique, hhas, hopens, ?_, ?_, ?_,
      hlisted⟩
    · simpa [hfirst] using hA
    · simpa [hsecond] using hB
    · simpa [hthird] using hC

end Ubershader
