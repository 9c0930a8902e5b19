import Ubershader.Proofs.Reading.Routing

/-!
# Include guards

A file that is included once only has its lines between a guard that is opened and a guard that is
closed. Counted over all lines of a reading, wherever they go, guards are well nested: every file
closes the guard that it has opened (`Walk.shifts_visit`).

The lines of one block are only some of all lines, so their guards need not be well nested. They
are in every block exactly when no guard is open at the closing of a block, and none at the opening
of a block that another one follows: a guard that is open there is opened in the common lines and
is closed in the block.
-/

namespace Ubershader

/-- The number of open guards after a line, if `depth` are open before it. A guard can be closed
only if one is open. -/
def Line.guardsAfter (depth : Nat) : Line → Option Nat
  | guardOpen _ => some (depth + 1)
  | guardClose => if depth = 0 then none else some (depth - 1)
  | _ => some depth

def guardsAfter (depth : Nat) (lines : List Line) : Option Nat :=
  lines.foldlM Line.guardsAfter depth

/-- Every guard that the lines open is closed further on, and they close no other guards. Otherwise
a compiler would find a test without its end, or an end without its test. -/
def WellNested (lines : List Line) : Prop :=
  guardsAfter 0 lines = some 0

instance (lines : List Line) : Decidable (WellNested lines) :=
  inferInstanceAs (Decidable (guardsAfter 0 lines = some 0))

@[simp] theorem guardsAfter_nil (depth : Nat) : guardsAfter depth [] = some depth := rfl

theorem guardsAfter_append (depth : Nat) (front back : List Line) :
    guardsAfter depth (front ++ back) =
      (guardsAfter depth front).bind fun middle => guardsAfter middle back := by
  simp [guardsAfter, Option.bind_eq_bind]

theorem guardsAfter_cons (depth : Nat) (line : Line) (lines : List Line) :
    guardsAfter depth (line :: lines) =
      (line.guardsAfter depth).bind fun middle => guardsAfter middle lines := by
  simp [guardsAfter, Option.bind_eq_bind]

theorem guardsAfter_add {depth after : Nat} {lines : List Line}
    (hlines : guardsAfter depth lines = some after) (outer : Nat) :
    guardsAfter (outer + depth) lines = some (outer + after) := by
  induction lines generalizing depth with
  | nil =>
    rw [guardsAfter_nil, Option.some_inj] at hlines
    rw [guardsAfter_nil, hlines]
  | cons line lines ih =>
    rw [guardsAfter_cons] at hlines
    obtain ⟨middle, hline, hrest⟩ := Option.bind_eq_some_iff.mp hlines
    have houter : line.guardsAfter (outer + depth) = some (outer + middle) := by
      cases line <;> simp_all [Line.guardsAfter] <;> omega
    rw [guardsAfter_cons, houter]
    exact ih hrest

/-- Lines of which none opens or closes a guard. -/
theorem guardsAfter_of_still {lines : List Line}
    (hstill : ∀ line ∈ lines, ∀ depth, line.guardsAfter depth = some depth) (depth : Nat) :
    guardsAfter depth lines = some depth := by
  induction lines with
  | nil => rfl
  | cons line lines ih =>
    rw [guardsAfter_cons, hstill line (List.mem_cons_self ..)]
    exact ih fun other hother => hstill other (List.mem_cons_of_mem _ hother)

/-- The lines that some edits append, in order and wherever they go. -/
def appended (edits : List Edit) : List Line :=
  edits.filterMap Edit.line?

@[simp] theorem appended_append (front back : List Edit) :
    appended (front ++ back) = appended front ++ appended back := by
  simp [appended]

theorem appended_concat (edits : List Edit) (edit : Edit) :
    appended (edits ++ [edit]) = appended edits ++ edit.line?.toList := by
  cases hline : edit.line? <;> simp [appended, hline]

/-- The number of guards that are open in a session, counted over all lines. -/
def Session.openGuards {σ κ : Type} (session : Session σ κ) : Option Nat :=
  guardsAfter 0 (appended session.edits)

/-- A walk that goes through turns `before` open guards into `after`, whatever is open outside. -/
def Walk.Shifts {σ κ α : Type} (walk : Walk σ κ α) (before : Nat) (after : α → Nat) : Prop :=
  ∀ session last a outer, session.openGuards = some (outer + before) →
    walk.run session = .ok a last → last.openGuards = some (outer + after a)

namespace Walk

variable {σ κ α β : Type} {settings : Settings} {provider : Provider σ κ}

theorem shifts_pure (a : α) (after : α → Nat) :
    Shifts (pure a : Walk σ κ α) (after a) after := by
  intro session last b outer hguards hrun
  cases hrun
  exact hguards

theorem shifts_throw (fault : Fault) (before : Nat) (after : α → Nat) :
    Shifts (throw fault : Walk σ κ α) before after := by
  intro session last a outer hguards hrun
  cases hrun

theorem shifts_get (before : Nat) :
    Shifts (get : Walk σ κ (Session σ κ)) before fun _ => before := by
  intro session last a outer hguards hrun
  cases hrun
  exact hguards

theorem shifts_bind {first : Walk σ κ α} {next : α → Walk σ κ β} {before : Nat}
    {middle : α → Nat} {after : β → Nat} (hfirst : Shifts first before middle)
    (hnext : ∀ a, Shifts (next a) (middle a) after) : Shifts (first >>= next) before after := by
  intro session last b outer hguards hrun
  rw [EStateM.run_bind] at hrun
  cases hfront : first.run session with
  | error fault stop =>
    rw [hfront] at hrun
    cases hrun
  | ok a stop =>
    rw [hfront] at hrun
    have hmiddle := hfirst session stop a outer hguards hfront
    exact hnext a stop last b outer hmiddle hrun

/-- Guards that are open outside stay open. -/
theorem Shifts.add {walk : Walk σ κ α} (hwalk : Shifts walk 0 fun _ => 0) (depth : Nat) :
    Shifts walk depth fun _ => depth := by
  intro session last a outer hguards hrun
  exact hwalk session last a (outer + depth) hguards hrun

theorem shifts_performAll {edits : List Edit} {before after : Nat}
    (hlines : guardsAfter before (appended edits) = some after) :
    Shifts (performAll edits : Walk σ κ Unit) before fun _ => after := by
  intro session last _ outer hguards hrun
  have hlast : last = (performAll edits).endSession session := by
    rw [endSession, hrun]
  have hcount : guardsAfter 0 (appended session.edits) = some (outer + before) := hguards
  rw [Session.openGuards, hlast, Session.edits_performAll, appended_append, guardsAfter_append,
    hcount]
  exact guardsAfter_add hlines outer

theorem shifts_append {line : Line} {before after : Nat}
    (hline : line.guardsAfter before = some after) :
    Shifts (perform (.append line) : Walk σ κ Unit) before fun _ => after := by
  have hlines : guardsAfter before (appended [.append line]) = some after := by
    simp [appended, Edit.line?, guardsAfter, hline]
  exact shifts_performAll hlines

theorem shifts_record {event : Event κ} (hedit : event.edit? = none) :
    Shifts (record event : Walk σ κ Unit) 0 fun _ => 0 := by
  intro session last _ outer hguards hrun
  cases hrun
  simpa [Session.openGuards, Session.edits, hedit] using hguards

theorem shifts_ask (path : String) (question : σ → Except String α × σ)
    {event : Except String α → Event κ} (hevent : ∀ answer, (event answer).edit? = none) :
    Shifts (ask path question event) 0 fun _ => 0 := by
  intro session last a outer hguards hrun
  have hlast : last = (ask path question event).endSession session := by
    rw [endSession, hrun]
  have hedits : last.edits = session.edits := by
    rw [hlast, endSession_ask]
    simp [Session.edits, hevent]
  rw [Session.openGuards, hedits]
  exact hguards

theorem shifts_mark (number : Nat) (file : String) (depth : Nat) :
    Shifts (mark settings number file : Walk σ κ Unit) depth fun _ => depth := by
  rw [mark]
  split
  · exact shifts_append rfl
  · exact shifts_pure () fun _ => depth

/-- A command appends lines of expansions only. -/
theorem shifts_carryOut {site : Location} {args : List String}
    (hline : Directive.ofLine site.text = .command args) :
    Shifts (carryOut settings site args : Walk σ κ Unit) 0 fun _ => 0 := by
  intro session last _ outer hguards hrun
  rw [carryOut, EStateM.run_bind, EStateM.run_get] at hrun
  cases hmeaning : Command.meaning settings session.draft site args with
  | error complaint =>
    simp only [hmeaning] at hrun
    cases hrun
  | ok edits =>
    simp only [hmeaning] at hrun
    obtain ⟨edit, texts, rfl, hedit, -⟩ :=
      Command.isEffect_of_meaning (Directive.ne_empty_of_ofLine hline) hmeaning
    have hlines : appended (edit :: texts.map fun text => .append (.expansion text)) =
        texts.map Line.expansion := by
      rw [appended, List.filterMap_cons_none hedit]
      simp [List.filterMap_map, Function.comp_def, Edit.line?]
    refine shifts_performAll ?_ session last () outer hguards hrun
    rw [hlines]
    refine guardsAfter_of_still ?_ 0
    intro line hmem depth
    obtain ⟨text, -, rfl⟩ := List.mem_map.mp hmem
    rfl

theorem shifts_runCommand {site : Location} {args : List String}
    (hline : Directive.ofLine site.text = .command args) :
    Shifts (runCommand settings site args : Walk σ κ Unit) 0 fun _ => 0 := by
  cases args with
  | nil =>
    rw [runCommand]
    exact shifts_carryOut hline
  | cons name args =>
    rw [runCommand]
    exact shifts_bind (shifts_record rfl) fun _ => shifts_carryOut hline

/-- A guard is opened only if the file has none yet. -/
theorem shifts_runOnce (file : String) (site : Location) (seen alone : Bool) :
    Shifts (runOnce file site seen alone : Walk σ κ Unit) seen.toNat fun _ => 1 := by
  cases seen with
  | true => exact shifts_throw _ _ _
  | false =>
    cases alone with
    | false => exact shifts_throw _ _ _
    | true => exact shifts_performAll rfl

/-- At every line the guard of the file is open if and only if it has been asked for before. -/
theorem shifts_readLine {visit : Visitor σ κ}
    (hvisit : ∀ site path context, Shifts (visit site path context) 0 fun _ => 0)
    (file : Target κ) (once : Bool) (site : Location) :
    Shifts (readLine settings visit file once site) once.toNat Bool.toNat := by
  unfold readLine obey
  split
  · exact shifts_bind (shifts_append rfl) fun _ => shifts_pure once Bool.toNat
  · exact shifts_throw _ _ _
  · exact shifts_bind ((hvisit _ _ _).add _) fun _ =>
      shifts_bind (shifts_mark _ _ _) fun _ => shifts_pure once Bool.toNat
  · exact shifts_bind (shifts_runOnce _ _ _ _) fun _ =>
      shifts_bind (shifts_mark _ _ _) fun _ => shifts_pure true Bool.toNat
  · next hline =>
    exact shifts_bind ((shifts_runCommand hline).add _) fun _ =>
      shifts_bind (shifts_mark _ _ _) fun _ => shifts_pure once Bool.toNat

theorem shifts_readLines {visit : Visitor σ κ}
    (hvisit : ∀ site path context, Shifts (visit site path context) 0 fun _ => 0)
    (file : Target κ) (number : Nat) (once : Bool) (lines : List String) :
    Shifts (readLines settings visit file number once lines) once.toNat Bool.toNat := by
  induction lines generalizing number once with
  | nil => exact shifts_pure once Bool.toNat
  | cons line lines ih =>
    exact shifts_bind (shifts_readLine hvisit file once _) fun _ => ih _ _

theorem shifts_readFile {visit : Visitor σ κ}
    (hvisit : ∀ site path context, Shifts (visit site path context) 0 fun _ => 0)
    (file : Target κ) (text : String) :
    Shifts (readFile settings visit file text) 0 fun _ => 0 := by
  rw [readFile]
  refine shifts_bind (shifts_mark 1 file.path 0) fun _ =>
    shifts_bind (shifts_readLines hvisit file 1 false _) fun once => ?_
  cases once with
  | true => exact shifts_append rfl
  | false => exact shifts_pure () fun _ => 0

/-- A visit leaves as many guards open as there were. -/
theorem shifts_visit (room : Nat) (site : Location) (path : String) (context : κ) :
    Shifts (visit settings provider room site path context) 0 fun _ => 0 := by
  induction room generalizing site path context with
  | zero => exact shifts_throw _ _ _
  | succ room ih =>
    rw [visit]
    refine shifts_bind (shifts_ask _ _ fun _ => rfl) fun file =>
      shifts_bind (shifts_get 0) fun session => ?_
    split
    · exact shifts_record rfl
    · exact shifts_bind (shifts_ask _ _ fun _ => rfl) fun text => shifts_readFile ih file text

end Walk

/-- Over all its lines, a reading that gives a program has well nested guards. -/
theorem wellNested_appended_of_read {σ κ : Type} {settings : Settings} {provider : Provider σ κ}
    {entry : String} {context : κ} {world : σ} {program : Program}
    (hread : (read settings provider entry context world).outcome = .ok program) :
    WellNested (appended (read settings provider entry context world).session.edits) := by
  obtain ⟨hrun, -⟩ := walk_of_read hread
  exact Walk.shifts_visit _ _ _ _ _ _ () 0 rfl hrun

/-! ## Guards and blocks -/

namespace Edit

def opensBlock (edit : Edit) : Bool :=
  edit.opening?.isSome

def closesBlock : Edit → Bool
  | closeBlock => true
  | _ => false

theorem opensBlock_of_still {edit : Edit} (hstill : ∀ current, edit.blockAfter current = current) :
    edit.opensBlock = false ∧ edit.closesBlock = false := by
  have hnone := hstill none
  have hsome := hstill (some ("", .vertex))
  cases edit <;> simp_all [opensBlock, closesBlock, opening?, blockAfter]

end Edit

/-- For each edit of some kind, in order, the edits before it. -/
def editsBefore (kind : Edit → Bool) (edits : List Edit) : List (List Edit) :=
  (List.range edits.length).filterMap fun position =>
    if edits[position]?.any kind then some (edits.take position) else none

theorem editsBefore_concat (kind : Edit → Bool) (edits : List Edit) (edit : Edit) :
    editsBefore kind (edits ++ [edit]) =
      editsBefore kind edits ++ if kind edit then [edits] else [] := by
  have hold : (List.range edits.length).filterMap (fun position =>
      if (edits ++ [edit])[position]?.any kind then some ((edits ++ [edit]).take position)
      else none) = editsBefore kind edits := by
    refine List.filterMap_congr fun position hposition => ?_
    have hlt := List.mem_range.mp hposition
    rw [List.getElem?_append_left hlt, take_concat (Nat.le_of_lt hlt)]
  rw [editsBefore, List.length_append, List.length_singleton, List.range_succ,
    List.filterMap_append, hold]
  cases hkind : kind edit <;> simp [hkind]

theorem editsBefore_concat_of_not {kind : Edit → Bool} {edit : Edit} (hedit : kind edit = false)
    (edits : List Edit) : editsBefore kind (edits ++ [edit]) = editsBefore kind edits := by
  rw [editsBefore_concat, hedit]
  exact List.append_nil _

def ClosesQuietly (edits : List Edit) : Prop :=
  ∀ front ∈ editsBefore Edit.closesBlock edits, WellNested (appended front)

/-- No guard is open when a block is opened that another one follows. -/
def OpensQuietly (edits : List Edit) : Prop :=
  ∀ front ∈ (editsBefore Edit.opensBlock edits).dropLast, WellNested (appended front)

theorem ClosesQuietly.of_concat {edits : List Edit} {edit : Edit}
    (hquiet : ClosesQuietly (edits ++ [edit])) : ClosesQuietly edits := by
  intro front hfront
  refine hquiet front ?_
  rw [editsBefore_concat]
  exact List.mem_append_left _ hfront

theorem closesQuietly_concat_iff {edit : Edit} (hedit : edit.closesBlock = false)
    (edits : List Edit) : ClosesQuietly (edits ++ [edit]) ↔ ClosesQuietly edits := by
  rw [ClosesQuietly, editsBefore_concat_of_not hedit, ClosesQuietly]

theorem opensQuietly_concat_iff {edit : Edit} (hedit : edit.opensBlock = false)
    (edits : List Edit) : OpensQuietly (edits ++ [edit]) ↔ OpensQuietly edits := by
  rw [OpensQuietly, editsBefore_concat_of_not hedit, OpensQuietly]

theorem exists_guardsAfter_of_concat {edits : List Edit} {edit : Edit}
    (htotal : ∃ depth, guardsAfter 0 (appended (edits ++ [edit])) = some depth) :
    ∃ depth, guardsAfter 0 (appended edits) = some depth := by
  obtain ⟨depth, hdepth⟩ := htotal
  rw [appended_concat, guardsAfter_append] at hdepth
  obtain ⟨before, hbefore, -⟩ := Option.bind_eq_some_iff.mp hdepth
  exact ⟨before, hbefore⟩

/-- The open guards of a router when no block has been closed under an open guard: `depth` are
open in the lines of all files, and `debt` guards have been opened in the common lines but closed
in blocks. The open block has `carried` of them from the blocks before it. -/
structure Ledger (edits : List Edit) (router : Router) (depth debt carried : Nat) : Prop where
  total : guardsAfter 0 (appended edits) = some depth
  outside : router.current = none → guardsAfter 0 router.common = some (debt + depth)
  common : ∀ block, router.current = some block → guardsAfter 0 router.common = some debt
  inside : ∀ block, router.current = some block → guardsAfter 0 block.2 = some (carried + depth)
  openings : debt = 0 ↔
    ∀ front ∈ editsBefore Edit.opensBlock edits, WellNested (appended front)
  finished : (∀ block ∈ router.finished, WellNested block.2) ∧
    (router.current ≠ none → carried = 0) ↔ OpensQuietly edits

namespace Ledger

variable {edits : List Edit} {router : Router} {depth debt carried : Nat}

theorem wellNested_iff (ledger : Ledger edits router depth debt carried) :
    WellNested (appended edits) ↔ depth = 0 := by
  rw [WellNested, ledger.total, Option.some_inj]

theorem line (ledger : Ledger edits router depth debt carried) {line : Line} {after : Nat}
    (hline : guardsAfter depth [line] = some after) :
    Ledger (edits ++ [.append line]) (router.push line) after debt carried := by
  have htotal : guardsAfter 0 (appended (edits ++ [.append line])) = some after := by
    rw [appended_append, guardsAfter_append, ledger.total]
    exact hline
  have hpush : ∀ {lines : List Line} {base : Nat}, guardsAfter 0 lines = some (base + depth) →
      guardsAfter 0 (lines ++ [line]) = some (base + after) := by
    intro lines base hlines
    rw [guardsAfter_append, hlines]
    exact guardsAfter_add hline base
  have hopenings := editsBefore_concat_of_not (rfl : (Edit.append line).opensBlock = false) edits
  have hquiet := opensQuietly_concat_iff (rfl : (Edit.append line).opensBlock = false) edits
  cases hcurrent : router.current with
  | none =>
    have hrouter : router.push line = { router with common := router.common ++ [line] } := by
      simp [Router.push, hcurrent]
    rw [hrouter]
    refine ⟨htotal, fun _ => hpush (ledger.outside hcurrent), ?_, ?_, ?_, ?_⟩
    · simp [hcurrent]
    · simp [hcurrent]
    · rw [hopenings]
      exact ledger.openings
    · rw [hquiet]
      exact ledger.finished
  | some block =>
    have hrouter : router.push line =
        { router with current := some (block.1, block.2 ++ [line]) } := by
      simp [Router.push, hcurrent]
    rw [hrouter]
    refine ⟨htotal, by simp, fun _ _ => ledger.common block hcurrent, ?_, ?_, ?_⟩
    · rintro _ ⟨⟩
      exact hpush (ledger.inside block hcurrent)
    · rw [hopenings]
      exact ledger.openings
    · rw [hquiet, ← ledger.finished, hcurrent]
      simp

theorem start (ledger : Ledger edits router depth debt carried) {edit : Edit} {key : BlockKey}
    (hopening : edit.opening? = some key) (hclosed : router.current = none) :
    Ledger (edits ++ [edit]) (router.start key) depth (debt + depth) debt := by
  have hline : edit.line? = none := by
    cases edit <;> simp_all [Edit.opening?, Edit.line?]
  have hopens : edit.opensBlock = true := by
    rw [Edit.opensBlock, hopening]
    rfl
  have hopenings : editsBefore Edit.opensBlock (edits ++ [edit]) =
      editsBefore Edit.opensBlock edits ++ [edits] := by
    rw [editsBefore_concat, hopens]
    rfl
  have hquiet : OpensQuietly (edits ++ [edit]) ↔ debt = 0 := by
    rw [OpensQuietly, hopenings, List.dropLast_concat]
    exact ledger.openings.symm
  refine ⟨?_, by simp [Router.start], fun _ _ => ledger.outside hclosed, ?_, ?_, ?_⟩
  · rw [appended_concat, hline]
    simpa using ledger.total
  · rintro _ ⟨⟩
    exact ledger.outside hclosed
  · rw [hopenings, List.forall_mem_append, ← ledger.openings, List.forall_mem_singleton,
      ledger.wellNested_iff]
    omega
  · rw [hquiet]
    constructor
    · intro hall
      exact hall.2 (by simp [Router.start])
    · intro hdebt
      -- The openings so far are all quiet, so in particular those that have a follower.
      have hold : OpensQuietly edits := by
        intro front hfront
        exact ledger.openings.mp hdebt front ((List.dropLast_subset _) hfront)
      exact ⟨(ledger.finished.mpr hold).1, fun _ => hdebt⟩

theorem finish (ledger : Ledger edits router depth debt carried) {block : BlockKey × List Line}
    (hopen : router.current = some block) (hdepth : depth = 0) :
    Ledger (edits ++ [.closeBlock]) (router.finish block) depth debt carried := by
  have hcloses : Edit.closeBlock.opensBlock = false := rfl
  have hblock : WellNested block.2 ↔ carried = 0 := by
    rw [WellNested, ledger.inside block hopen, Option.some_inj]
    omega
  refine ⟨?_, fun _ => ?_, by simp [Router.finish], by simp [Router.finish], ?_, ?_⟩
  · rw [appended_concat]
    simpa [Edit.line?] using ledger.total
  · rw [hdepth]
    exact ledger.common block hopen
  · rw [editsBefore_concat_of_not hcloses]
    exact ledger.openings
  · rw [opensQuietly_concat_iff hcloses, ← ledger.finished, hopen, Router.finish,
      List.forall_mem_append, List.forall_mem_singleton, hblock]
    simp

theorem other (ledger : Ledger edits router depth debt carried) {edit : Edit}
    (hline : edit.line? = none) (hstill : ∀ current, edit.blockAfter current = current) :
    Ledger (edits ++ [edit]) router depth debt carried := by
  have hopens := (Edit.opensBlock_of_still hstill).1
  refine ⟨?_, ledger.outside, ledger.common, ledger.inside, ?_, ?_⟩
  · rw [appended_concat, hline]
    simpa using ledger.total
  · rw [editsBefore_concat_of_not hopens]
    exact ledger.openings
  · rw [opensQuietly_concat_iff hopens]
    exact ledger.finished

end Ledger

namespace Routed

variable {edits : List Edit} {router : Router}

theorem exists_ledger (routed : Routed edits router)
    (htotal : ∃ depth, guardsAfter 0 (appended edits) = some depth)
    (hquiet : ClosesQuietly edits) :
    ∃ depth debt carried, Ledger edits router depth debt carried := by
  induction routed with
  | nil =>
    exact ⟨0, 0, 0, rfl, fun _ => rfl, by simp, by simp, by simp [editsBefore],
      by simp [OpensQuietly, editsBefore]⟩
  | @line edits router _ line ih =>
    obtain ⟨depth, debt, carried, ledger⟩ :=
      ih (exists_guardsAfter_of_concat htotal) hquiet.of_concat
    obtain ⟨after, hafter⟩ := htotal
    rw [appended_concat, guardsAfter_append, ledger.total] at hafter
    exact ⟨after, debt, carried, ledger.line hafter⟩
  | start _ hopening hclosed _ ih =>
    obtain ⟨depth, debt, carried, ledger⟩ :=
      ih (exists_guardsAfter_of_concat htotal) hquiet.of_concat
    exact ⟨depth, debt + depth, debt, ledger.start hopening hclosed⟩
  | @finish edits router block _ hopen ih =>
    obtain ⟨depth, debt, carried, ledger⟩ :=
      ih (exists_guardsAfter_of_concat htotal) hquiet.of_concat
    have hlast : WellNested (appended edits) := by
      refine hquiet edits ?_
      simp [editsBefore_concat, Edit.closesBlock]
    exact ⟨depth, debt, carried, ledger.finish hopen (ledger.wellNested_iff.mp hlast)⟩
  | other _ hline hstill ih =>
    obtain ⟨depth, debt, carried, ledger⟩ :=
      ih (exists_guardsAfter_of_concat htotal) hquiet.of_concat
    exact ⟨depth, debt, carried, ledger.other hline hstill⟩

/-- A block that is closed while a guard is open has a guard that it does not close. -/
theorem closesQuietly (routed : Routed edits router)
    (htotal : ∃ depth, guardsAfter 0 (appended edits) = some depth)
    (hfinished : ∀ block ∈ router.finished, WellNested block.2) : ClosesQuietly edits := by
  induction routed with
  | nil =>
    intro front hfront
    cases hfront
  | @line edits router _ line ih =>
    refine (closesQuietly_concat_iff rfl edits).mpr (ih (exists_guardsAfter_of_concat htotal) ?_)
    rw [Router.push] at hfinished
    split at hfinished <;> exact hfinished
  | @start edits router edit key _ hopening _ _ ih =>
    have hcloses : edit.closesBlock = false := by
      cases edit <;> simp_all [Edit.opening?, Edit.closesBlock]
    rw [closesQuietly_concat_iff hcloses]
    exact ih (exists_guardsAfter_of_concat htotal) hfinished
  | @finish edits router block routed hopen ih =>
    have hbefore := exists_guardsAfter_of_concat htotal
    obtain ⟨hearlier, hblock⟩ := List.forall_mem_append.mp hfinished
    have hquiet : ClosesQuietly edits := ih hbefore hearlier
    obtain ⟨depth, debt, carried, ledger⟩ := routed.exists_ledger hbefore hquiet
    have hlast : WellNested (appended edits) := by
      have hnested : WellNested block.2 := hblock block (List.mem_singleton_self _)
      rw [WellNested, ledger.inside block hopen, Option.some_inj] at hnested
      exact ledger.wellNested_iff.mpr (by omega)
    rw [ClosesQuietly, editsBefore_concat]
    exact List.forall_mem_append.mpr ⟨hquiet, List.forall_mem_singleton.mpr hlast⟩
  | other _ _ hstill ih =>
    rw [closesQuietly_concat_iff (Edit.opensBlock_of_still hstill).2]
    exact ih (exists_guardsAfter_of_concat htotal) hfinished

theorem wellNested_finished_iff (routed : Routed edits router)
    (htotal : ∃ depth, guardsAfter 0 (appended edits) = some depth)
    (hclosed : router.current = none) :
    (∀ block ∈ router.finished, WellNested block.2) ↔ ClosesQuietly edits ∧ OpensQuietly edits := by
  constructor
  · intro hfinished
    have hquiet := routed.closesQuietly htotal hfinished
    obtain ⟨depth, debt, carried, ledger⟩ := routed.exists_ledger htotal hquiet
    exact ⟨hquiet, ledger.finished.mp ⟨hfinished, fun hopen => absurd hclosed hopen⟩⟩
  · rintro ⟨hcloses, hopens⟩
    obtain ⟨depth, debt, carried, ledger⟩ := routed.exists_ledger htotal hcloses
    exact (ledger.finished.mpr hopens).1

end Routed

/-- The blocks that can be asked for are the finished blocks, so what holds of the lines of the
ones holds of the lines of the others. -/
theorem Program.MadeBy.forall_lines_iff {settings : Settings} {edits : List Edit}
    {program : Program} (hprogram : program.MadeBy settings edits) {property : List Line → Prop} :
    (∀ technique ∈ program.techniques, ∀ stage block, technique.block? stage = some block →
        property block.lines.toList) ↔
      ∀ block ∈ (({} : Draft).applyAll edits).router.finished, property block.2 := by
  constructor
  · intro htechniques entry hentry
    obtain ⟨block, hblock, rfl⟩ := List.mem_map.mp hentry
    obtain ⟨technique, htechnique, hstage⟩ := hprogram.exists_block?_eq_some hblock
    exact htechniques technique htechnique block.stage block hstage
  · intro hfinished technique htechnique stage block hblock
    have hmem := ((hprogram.block?_eq_some_iff htechnique).mp hblock).1
    exact hfinished (block.key, block.lines.toList) (List.mem_map_of_mem hmem)

section

variable {σ κ : Type} {settings : Settings} {provider : Provider σ κ} {entry : String}
  {context : κ} {world : σ} {program : Program}

/-- When include guards are balanced. Over all files of a reading they always are, in the order in
which the lines were appended. The sources of all stages of all techniques have balanced guards,
each for itself, if and only if no guard is open at the closing of a block and none at the opening
of a block that is not the last one. -/
theorem wellNested_blocks_iff
    (hread : (read settings provider entry context world).outcome = .ok program) :
    let edits := (read settings provider entry context world).session.edits
    WellNested (appended edits) ∧
      ((∀ technique ∈ program.techniques, ∀ stage block, technique.block? stage = some block →
          WellNested block.lines.toList) ↔
        ClosesQuietly edits ∧ OpensQuietly edits) := by
  intro edits
  have hprogram : program.MadeBy settings edits := madeBy_of_read hread
  have hnested : WellNested (appended edits) := wellNested_appended_of_read hread
  refine ⟨hnested, ?_⟩
  rw [hprogram.forall_lines_iff]
  refine hprogram.trace.routed.wellNested_finished_iff ⟨0, hnested⟩ ?_
  simp [Draft.router, hprogram.closed]

end

/-- A file that is included once only and has a block of its own. -/
def guardedBlock : Catalog where
  files :=
    [("main", "#pragma once\n#pragma anki technique_start comp\n#pragma anki technique_end comp\n")]

theorem wellNested_blocks_iff_guardedBlock :
    let report := read {} guardedBlock.provider "main" "" ()
    let edits := report.session.edits
    ∃ program, report.outcome = .ok program ∧ WellNested (appended edits) ∧
      ((∀ technique ∈ program.techniques, ∀ stage block, technique.block? stage = some block →
          WellNested block.lines.toList) ↔
        ClosesQuietly edits ∧ OpensQuietly edits) := by
  intro report edits
  have hcheck : report.outcome.toOption.isSome = true := by decide +kernel
  obtain ⟨program, hprogram⟩ := Option.isSome_iff_exists.mp hcheck
  have hread : report.outcome = .ok program := eq_ok_of_toOption hprogram
  exact ⟨program, hread, wellNested_blocks_iff hread⟩

/-- The guard of such a file is opened in the block and closed behind it. -/
theorem not_wellNested_guardedBlock :
    let report := read {} guardedBlock.provider "main" "" ()
    ∃ program technique block, report.outcome = .ok program ∧ technique ∈ program.techniques ∧
      technique.block? .compute = some block ∧ ¬ WellNested block.lines.toList := by
  intro report
  have hcheck : (report.outcome.toOption.any fun program =>
      program.techniques.any fun technique =>
        (technique.block? .compute).any fun block => !decide (WellNested block.lines.toList)) =
      true := by
    decide +kernel
  obtain ⟨program, hprogram, htechniques⟩ := (Option.any_eq_true ..).mp hcheck
  obtain ⟨technique, htechnique, hstage⟩ := List.any_eq_true.mp htechniques
  obtain ⟨block, hblock, hnested⟩ := (Option.any_eq_true ..).mp hstage
  exact ⟨program, technique, block, eq_ok_of_toOption hprogram, htechnique, hblock,
    by simpa using hnested⟩

end Ubershader
