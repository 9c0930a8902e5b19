import Ubershader.Proofs.Reading.Outcome
import Ubershader.Provider.Catalog

/-!
# Where lines go

Of all that a draft holds, only three things decide where lines go: the common lines, the block
that is open with its lines, and the finished blocks with theirs. A `Router` is a draft with
everything else left out, and only four kinds of edits mean anything to it: a line, the opening of
a block, its closing, and all others, which change nothing. `Routed` is a trace as a router sees
it.

The main result says which lines a finished block has, by their positions in the edits of the
reading: first those appended outside of all blocks before the block is opened, then those
appended between its opening and its closing, both in order.
-/

namespace Ubershader

namespace Edit

def opening? : Edit → Option BlockKey
  | openBlock technique stage _ _ => some (technique, stage)
  | _ => none

/-- The block that is open after an edit, if `current` was open before. -/
def blockAfter (current : Option BlockKey) : Edit → Option BlockKey
  | openBlock technique stage _ _ => some (technique, stage)
  | closeBlock => none
  | _ => current

end Edit

/-- The lines of a draft, with the blocks that they are in. -/
structure Router where
  common : List Line := []
  current : Option (BlockKey × List Line) := none
  finished : List (BlockKey × List Line) := []

namespace Router

def push (router : Router) (line : Line) : Router :=
  match router.current with
  | none => { router with common := router.common ++ [line] }
  | some (key, lines) => { router with current := some (key, lines ++ [line]) }

def start (router : Router) (key : BlockKey) : Router :=
  { router with current := some (key, router.common) }

def finish (router : Router) (block : BlockKey × List Line) : Router :=
  { router with current := none, finished := router.finished ++ [block] }

end Router

def Draft.router (draft : Draft) : Router where
  common := draft.common.lines.toList
  current := draft.openBlock.map fun block => (block.key, block.buffer.lines.toList)
  finished := draft.blocks.map fun block => (block.key, block.lines.toList)

/-- Edits that a router may see, and the router after them. -/
inductive Routed : List Edit → Router → Prop
  | nil : Routed [] {}
  | line {edits : List Edit} {router : Router} (routed : Routed edits router) (line : Line) :
      Routed (edits ++ [.append line]) (router.push line)
  | start {edits : List Edit} {router : Router} {edit : Edit} {key : BlockKey}
      (routed : Routed edits router) (opening : edit.opening? = some key)
      (closed : router.current = none) (fresh : key ∉ router.finished.map Prod.fst) :
      Routed (edits ++ [edit]) (router.start key)
  | finish {edits : List Edit} {router : Router} {block : BlockKey × List Line}
      (routed : Routed edits router) (isOpen : router.current = some block) :
      Routed (edits ++ [.closeBlock]) (router.finish block)
  | other {edits : List Edit} {router : Router} {edit : Edit} (routed : Routed edits router)
      (noLine : edit.line? = none) (still : ∀ current, edit.blockAfter current = current) :
      Routed (edits ++ [edit]) router

namespace Draft

theorem router_push (draft : Draft) (line : Line) :
    (draft.apply (.append line)).router = draft.router.push line := by
  simp only [apply, modifyCurrent]
  split
  · next hopen => simp [router, Router.push, hopen]
  · next block hopen => simp [router, Router.push, hopen, OpenBlock.key]

theorem router_guard (draft : Draft) (path : String) :
    (draft.apply (.guard path)).router = draft.router := by
  simp only [apply, modifyCurrent]
  split
  · simp [router]
  · next block hopen => simp [router, hopen, OpenBlock.key]

theorem router_closeBlock {draft : Draft} {block : OpenBlock}
    (hopen : draft.openBlock = some block) :
    (draft.apply .closeBlock).router =
      draft.router.finish (block.key, block.buffer.lines.toList) := by
  simp [apply, hopen, router, Router.finish, OpenBlock.close, Block.key, OpenBlock.key]

end Draft

/-- A trace is seen by the router of its draft. -/
theorem Trace.routed {settings : Settings} {edits : List Edit} (trace : Trace settings edits) :
    Routed edits (({} : Draft).applyAll edits).router := by
  induction trace with
  | nil => exact .nil
  | @snoc edits edit _ hallows ih =>
    rw [Draft.applyAll_append, Draft.applyAll_cons, Draft.applyAll_nil]
    cases hallows with
    | append line =>
      rw [Draft.router_push]
      exact ih.line line
    | guard path =>
      rw [Draft.router_guard]
      exact ih.other rfl fun _ => rfl
    | @openBlock technique stage active _ _ hnone hfresh _ _ _ site =>
      have hkey : (technique, stage) ∉
          (({} : Draft).applyAll edits).router.finished.map Prod.fst := by
        simpa [Draft.router, Function.comp_def] using Draft.hasBlock_eq_false_iff.mp hfresh
      exact ih.start rfl (by simp [Draft.router, hnone]) hkey
    | closeBlock _ hopen =>
      rw [Draft.router_closeBlock hopen]
      exact ih.finish (by simp [Draft.router, hopen])
    | addMutator => exact ih.other rfl fun _ => rfl
    | addSkip => exact ih.other rfl fun _ => rfl
    | addReplacement => exact ih.other rfl fun _ => rfl
    | openStruct => exact ih.other rfl fun _ => rfl
    | addMember => exact ih.other rfl fun _ => rfl
    | closeStruct => exact ih.other rfl fun _ => rfl
    | setLibrary => exact ih.other rfl fun _ => rfl
    | setRayType => exact ih.other rfl fun _ => rfl
    | allowSixteenBit => exact ih.other rfl fun _ => rfl

/-! ## Positions

A position in a list of edits stands for one occurrence of an edit, so a list of positions says
which occurrences of lines make up a text, in which order, and how often each of them. -/

/-- The block that is open after some edits. -/
def openAfter (edits : List Edit) : Option BlockKey :=
  edits.foldl Edit.blockAfter none

/-- The lines that are appended at some positions. -/
def linesAt (edits : List Edit) (positions : List Nat) : List Line :=
  positions.filterMap fun position => edits[position]?.bind Edit.line?

/-- The positions before a given one at which no block is open. -/
def outsidePositions (edits : List Edit) (stop : Nat) : List Nat :=
  (List.range stop).filter fun position => (openAfter (edits.take position)).isNone

/-- The positions that make up a block which is opened and closed at given ones. -/
def blockPositions (edits : List Edit) (start stop : Nat) : List Nat :=
  outsidePositions edits start ++ List.range' (start + 1) (stop - (start + 1))

@[simp] theorem openAfter_concat (edits : List Edit) (edit : Edit) :
    openAfter (edits ++ [edit]) = edit.blockAfter (openAfter edits) := by
  simp [openAfter]

theorem openAfter_take_succ {edits : List Edit} {position : Nat} {edit : Edit}
    (hedit : edits[position]? = some edit) :
    openAfter (edits.take (position + 1)) = edit.blockAfter (openAfter (edits.take position)) := by
  rw [List.take_add_one, hedit]
  exact openAfter_concat _ _

theorem take_concat {edits : List Edit} {position : Nat} (hle : position ≤ edits.length)
    (edit : Edit) : (edits ++ [edit]).take position = edits.take position :=
  List.take_append_of_le_length hle

theorem lt_of_mem_outsidePositions {edits : List Edit} {stop position : Nat}
    (hmem : position ∈ outsidePositions edits stop) : position < stop :=
  List.mem_range.mp (List.mem_of_mem_filter hmem)

theorem outsidePositions_concat {edits : List Edit} {stop : Nat} (hle : stop ≤ edits.length)
    (edit : Edit) : outsidePositions (edits ++ [edit]) stop = outsidePositions edits stop := by
  refine List.filter_congr fun position hposition => ?_
  have := List.mem_range.mp hposition
  rw [take_concat (by omega)]

theorem outsidePositions_succ (edits : List Edit) (stop : Nat) :
    outsidePositions edits (stop + 1) = outsidePositions edits stop ++
      if (openAfter (edits.take stop)).isNone then [stop] else [] := by
  rw [outsidePositions, List.range_succ, List.filter_append, List.filter_singleton,
    Bool.cond_eq_ite, outsidePositions]

theorem linesAt_concat {edits : List Edit} {positions : List Nat}
    (hlt : ∀ position ∈ positions, position < edits.length) (edit : Edit) :
    linesAt (edits ++ [edit]) positions = linesAt edits positions := by
  refine List.filterMap_congr fun position hposition => ?_
  rw [List.getElem?_append_left (hlt position hposition)]

@[simp] theorem linesAt_append (edits : List Edit) (front back : List Nat) :
    linesAt edits (front ++ back) = linesAt edits front ++ linesAt edits back := by
  simp [linesAt]

theorem linesAt_last (edits : List Edit) (edit : Edit) :
    linesAt (edits ++ [edit]) [edits.length] = edit.line?.toList := by
  cases hline : edit.line? <;> simp [linesAt, hline]

theorem lt_of_mem_blockPositions {edits : List Edit} {start stop position : Nat}
    (hlt : start < stop) (hmem : position ∈ blockPositions edits start stop) :
    position < stop := by
  obtain houtside | hinside := List.mem_append.mp hmem
  · exact Nat.lt_trans (lt_of_mem_outsidePositions houtside) hlt
  · have := List.mem_range'_1.mp hinside
    omega

theorem blockPositions_concat {edits : List Edit} {start : Nat} (hle : start ≤ edits.length)
    (stop : Nat) (edit : Edit) :
    blockPositions (edits ++ [edit]) start stop = blockPositions edits start stop := by
  rw [blockPositions, outsidePositions_concat hle, blockPositions]

theorem blockPositions_succ {start stop : Nat} (hlt : start < stop) (edits : List Edit) :
    blockPositions edits start (stop + 1) = blockPositions edits start stop ++ [stop] := by
  have hlength : stop + 1 - (start + 1) = stop - (start + 1) + 1 := by omega
  have hlast : start + 1 + (stop - (start + 1)) = stop := by omega
  rw [blockPositions, hlength, List.range'_1_concat, hlast, ← List.append_assoc, blockPositions]

/-- The positions from the one and only opening of a block up to a later position, throughout
which the block is open. -/
structure IsStretch (edits : List Edit) (key : BlockKey) (start stop : Nat) : Prop where
  opening : edits[start]?.bind Edit.opening? = some key
  unique : ∀ position, edits[position]?.bind Edit.opening? = some key → position = start
  lt : start < stop
  le : stop ≤ edits.length
  inside : ∀ position, start < position → position ≤ stop →
    openAfter (edits.take position) = some key

namespace IsStretch

variable {edits : List Edit} {key : BlockKey} {start stop : Nat}

theorem concat (stretch : IsStretch edits key start stop) {edit : Edit}
    (hedit : edit.opening? ≠ some key) : IsStretch (edits ++ [edit]) key start stop where
  opening := by
    have := stretch.lt
    have := stretch.le
    rw [List.getElem?_append_left (by omega), stretch.opening]
  unique position hopening := by
    obtain hlt | rfl | hgt := Nat.lt_trichotomy position edits.length
    · rw [List.getElem?_append_left hlt] at hopening
      exact stretch.unique position hopening
    · simp [hedit] at hopening
    · rw [List.getElem?_eq_none (by simp; omega)] at hopening
      cases hopening
  lt := stretch.lt
  le := by
    have := stretch.le
    rw [List.length_append]
    omega
  inside position hstart hstop := by
    have := stretch.le
    rw [take_concat (by omega)]
    exact stretch.inside position hstart hstop

theorem extend (stretch : IsStretch edits key start edits.length) {edit : Edit}
    (hedit : edit.opening? ≠ some key) (hopen : openAfter (edits ++ [edit]) = some key) :
    IsStretch (edits ++ [edit]) key start (edits.length + 1) where
  opening := (stretch.concat hedit).opening
  unique := (stretch.concat hedit).unique
  lt := Nat.lt_succ_of_lt stretch.lt
  le := by simp
  inside position hstart hstop := by
    obtain hlt | rfl := Nat.lt_or_eq_of_le hstop
    · exact (stretch.concat hedit).inside position hstart (by omega)
    · rw [List.take_of_length_le (by simp)]
      exact hopen

end IsStretch

namespace Routed

variable {edits : List Edit} {router : Router}

theorem openAfter_eq (routed : Routed edits router) :
    openAfter edits = router.current.map Prod.fst := by
  induction routed with
  | nil => rfl
  | @line edits router _ line ih =>
    rw [openAfter_concat, Router.push]
    split
    · next hcurrent => simpa [Edit.blockAfter, hcurrent] using ih
    · next key lines hcurrent => simpa [Edit.blockAfter, hcurrent] using ih
  | @start edits router edit key _ hopening _ _ ih =>
    cases edit <;> simp_all [Edit.opening?, Edit.blockAfter, Router.start]
  | finish _ _ ih => simp [Edit.blockAfter, Router.finish]
  | other _ _ hstill ih => simpa [hstill] using ih

theorem common_eq (routed : Routed edits router) :
    router.common = linesAt edits (outsidePositions edits edits.length) := by
  -- Only the last position is new, and it counts if no block is open there.
  have hstep : ∀ (edits : List Edit) (edit : Edit),
      linesAt (edits ++ [edit]) (outsidePositions (edits ++ [edit]) (edits ++ [edit]).length) =
        linesAt edits (outsidePositions edits edits.length) ++
          if (openAfter edits).isNone then edit.line?.toList else [] := by
    intro edits edit
    rw [List.length_append, List.length_singleton, outsidePositions_succ, linesAt_append,
      outsidePositions_concat (Nat.le_refl _),
      linesAt_concat (fun _ => lt_of_mem_outsidePositions), take_concat (Nat.le_refl _),
      List.take_length]
    split
    · rw [linesAt_last]
    · rfl
  induction routed with
  | nil => rfl
  | @line edits router routed line ih =>
    rw [hstep, routed.openAfter_eq, ← ih, Router.push]
    cases hcurrent : router.current <;> simp [Edit.line?]
  | @start edits router edit key routed hopening _ _ ih =>
    have hline : edit.line? = none := by cases edit <;> simp_all [Edit.opening?, Edit.line?]
    rw [hstep, hline, ← ih]
    simp [Router.start]
  | finish _ _ ih =>
    rw [hstep, ← ih]
    simp [Edit.line?, Router.finish]
  | other _ hline _ ih =>
    rw [hstep, hline, ← ih]
    simp

theorem opening?_ne_of_still {edit : Edit} (hstill : ∀ current, edit.blockAfter current = current)
    (key : BlockKey) : edit.opening? ≠ some key := by
  have hnone := hstill none
  cases edit <;> simp_all [Edit.opening?, Edit.blockAfter]

/-- A block that was opened is finished, or is the open one. -/
theorem mem_of_opening (routed : Routed edits router) {edit : Edit} {key : BlockKey}
    (hmem : edit ∈ edits) (hopening : edit.opening? = some key) :
    key ∈ router.finished.map Prod.fst ∨ router.current.map Prod.fst = some key := by
  induction routed with
  | nil => cases hmem
  | @line edits router _ line ih =>
    obtain hold | hlast := List.mem_append.mp hmem
    · have hbefore := ih hold
      rw [Router.push]
      split
      · exact hbefore
      · next hcurrent => simpa [hcurrent] using hbefore
    · cases List.mem_singleton.mp hlast
      cases hopening
  | @start edits router last first _ hfirst hclosed _ ih =>
    obtain hold | hlast := List.mem_append.mp hmem
    · obtain hfinished | hcurrent := ih hold
      · exact .inl hfinished
      · simp [hclosed] at hcurrent
    · cases List.mem_singleton.mp hlast
      rw [hfirst] at hopening
      exact .inr hopening
  | @finish edits router block _ hopen ih =>
    obtain hold | hlast := List.mem_append.mp hmem
    · refine .inl ?_
      rw [Router.finish, List.map_append, List.mem_append]
      obtain hfinished | hcurrent := ih hold
      · exact .inl hfinished
      · rw [hopen] at hcurrent
        cases hcurrent
        exact .inr (by simp)
    · cases List.mem_singleton.mp hlast
      cases hopening
  | other _ _ hstill ih =>
    obtain hold | hlast := List.mem_append.mp hmem
    · exact ih hold
    · cases List.mem_singleton.mp hlast
      exact absurd hopening (opening?_ne_of_still hstill key)

/-- The open block has been open since its only opening, and has the lines appended outside of
all blocks before that and all lines appended since. -/
theorem exists_stretch_of_current (routed : Routed edits router) {key : BlockKey}
    {lines : List Line} (hcurrent : router.current = some (key, lines)) :
    ∃ start, IsStretch edits key start edits.length ∧
      lines = linesAt edits (blockPositions edits start edits.length) := by
  -- An edit that leaves the block open adds its line, if it has one.
  have hstep : ∀ {edits : List Edit} {start : Nat} (edit : Edit), start < edits.length →
      linesAt (edits ++ [edit])
          (blockPositions (edits ++ [edit]) start (edits ++ [edit]).length) =
        linesAt edits (blockPositions edits start edits.length) ++ edit.line?.toList := by
    intro edits start edit hlt
    rw [List.length_append, List.length_singleton, blockPositions_succ hlt, linesAt_append,
      linesAt_last, blockPositions_concat (Nat.le_of_lt hlt),
      linesAt_concat fun _ => lt_of_mem_blockPositions hlt]
  induction routed generalizing key lines with
  | nil => cases hcurrent
  | @line edits router routed line ih =>
    rw [Router.push] at hcurrent
    split at hcurrent
    · next hnone => simp [hnone] at hcurrent
    · next key' lines' hsome =>
      cases hcurrent
      obtain ⟨start, stretch, rfl⟩ := ih hsome
      refine ⟨start, ?_, by rw [hstep _ stretch.lt]; rfl⟩
      rw [List.length_append]
      refine stretch.extend (by simp [Edit.opening?]) ?_
      rw [openAfter_concat, routed.openAfter_eq, hsome]
      rfl
  | @start edits router edit first routed hopening hclosed hfresh ih =>
    cases hcurrent
    have hnew : ∀ other ∈ edits, other.opening? ≠ some first := by
      intro other hother hsame
      obtain hfinished | hopen := routed.mem_of_opening hother hsame
      · exact hfresh hfinished
      · simp [hclosed] at hopen
    have hafter : openAfter (edits ++ [edit]) = some first := by
      rw [openAfter_concat]
      cases edit <;> simp_all [Edit.opening?, Edit.blockAfter]
    refine ⟨edits.length, ⟨by simpa using hopening, ?_, by simp, Nat.le_refl _, ?_⟩, ?_⟩
    · intro position hposition
      obtain hlt | heq | hgt := Nat.lt_trichotomy position edits.length
      · rw [List.getElem?_append_left hlt, List.getElem?_eq_getElem hlt] at hposition
        exact absurd hposition (hnew _ (List.getElem_mem hlt))
      · exact heq
      · rw [List.getElem?_eq_none (by simp; omega)] at hposition
        cases hposition
    · intro position hstart hstop
      rw [List.take_of_length_le (by simp; omega)]
      exact hafter
    · rw [blockPositions, List.length_append, List.length_singleton, Nat.sub_self, List.range'_zero,
        List.append_nil, outsidePositions_concat (Nat.le_refl _),
        linesAt_concat fun _ => lt_of_mem_outsidePositions]
      exact routed.common_eq
  | finish _ _ ih => cases hcurrent
  | @other edits router edit routed hline hstill ih =>
    obtain ⟨start, stretch, rfl⟩ := ih hcurrent
    refine ⟨start, ?_, by rw [hstep _ stretch.lt, hline]; simp⟩
    rw [List.length_append]
    refine stretch.extend (opening?_ne_of_still hstill key) ?_
    rw [openAfter_concat, hstill, routed.openAfter_eq, hcurrent]
    rfl

/-- A finished block was opened once, and has the lines appended outside of all blocks before
that and all lines appended until it was closed. -/
theorem exists_stretch_of_finished (routed : Routed edits router) {key : BlockKey}
    {lines : List Line} (hfinished : (key, lines) ∈ router.finished) :
    ∃ start stop, IsStretch edits key start stop ∧ edits[stop]? = some .closeBlock ∧
      lines = linesAt edits (blockPositions edits start stop) := by
  -- A later edit that does not open the block leaves its stretch and its lines as they are.
  have hstep : ∀ {edits : List Edit} (edit : Edit), edit.opening? ≠ some key →
      (∃ start stop, IsStretch edits key start stop ∧ edits[stop]? = some .closeBlock ∧
        lines = linesAt edits (blockPositions edits start stop)) →
      ∃ start stop, IsStretch (edits ++ [edit]) key start stop ∧
        (edits ++ [edit])[stop]? = some .closeBlock ∧
        lines = linesAt (edits ++ [edit]) (blockPositions (edits ++ [edit]) start stop) := by
    rintro edits edit hedit ⟨start, stop, stretch, hclose, rfl⟩
    have hstop : stop < edits.length := (List.getElem?_eq_some_iff.mp hclose).1
    have hstart := stretch.lt
    refine ⟨start, stop, stretch.concat hedit, ?_, ?_⟩
    · rw [List.getElem?_append_left hstop, hclose]
    · rw [blockPositions_concat (by omega), linesAt_concat]
      intro position hposition
      exact Nat.lt_trans (lt_of_mem_blockPositions stretch.lt hposition) hstop
  induction routed with
  | nil => cases hfinished
  | @line edits router _ line ih =>
    refine hstep _ (by simp [Edit.opening?]) (ih ?_)
    rw [Router.push] at hfinished
    split at hfinished <;> exact hfinished
  | @start edits router edit first _ hopening _ hfresh ih =>
    refine hstep _ ?_ (ih hfinished)
    rw [hopening]
    rintro ⟨⟩
    exact hfresh (List.mem_map_of_mem hfinished)
  | @finish edits router block routed hopen ih =>
    obtain hold | hlast := List.mem_append.mp hfinished
    · exact hstep _ (by simp [Edit.opening?]) (ih hold)
    · rw [← List.mem_singleton.mp hlast] at hopen
      obtain ⟨start, stretch, rfl⟩ := routed.exists_stretch_of_current hopen
      have hlt := stretch.lt
      refine ⟨start, edits.length, stretch.concat (by simp [Edit.opening?]), by simp, ?_⟩
      rw [blockPositions_concat (by omega), linesAt_concat fun _ => lt_of_mem_blockPositions hlt]
  | other _ _ hstill ih => exact hstep _ (opening?_ne_of_still hstill key) (ih hfinished)

end Routed

/-- A block that is open at some position was opened before it, and has been open ever since. -/
theorem exists_opening_of_openAfter {edits : List Edit} {key : BlockKey} {position : Nat}
    (hopen : openAfter (edits.take position) = some key) :
    ∃ start < position, edits[start]?.bind Edit.opening? = some key ∧
      ∀ later, start < later → later ≤ position → openAfter (edits.take later) = some key := by
  induction position with
  | zero => simp [openAfter] at hopen
  | succ position ih =>
    cases hedit : edits[position]? with
    | none =>
      -- Past the end nothing changes any more.
      have hlength : edits.length ≤ position := List.getElem?_eq_none_iff.mp hedit
      have hsame : edits.take (position + 1) = edits.take position := by
        rw [List.take_of_length_le hlength, List.take_of_length_le (by omega)]
      obtain ⟨start, hlt, hopening, hsince⟩ := ih (hsame ▸ hopen)
      refine ⟨start, by omega, hopening, fun later hstart hlater => ?_⟩
      obtain hlt | rfl := Nat.lt_or_eq_of_le hlater
      · exact hsince later hstart (by omega)
      · exact hopen
    | some edit =>
      by_cases hopening : edit.opening? = some key
      · refine ⟨position, by omega, by rw [hedit]; exact hopening, fun later hstart hlater => ?_⟩
        have hlast : later = position + 1 := by omega
        exact hlast ▸ hopen
      · have hbefore : openAfter (edits.take position) = some key := by
          rw [openAfter_take_succ hedit] at hopen
          cases edit <;> simp_all [Edit.opening?, Edit.blockAfter]
        obtain ⟨start, hlt, hfirst, hsince⟩ := ih hbefore
        refine ⟨start, by omega, hfirst, fun later hstart hlater => ?_⟩
        obtain hlt | rfl := Nat.lt_or_eq_of_le hlater
        · exact hsince later hstart (by omega)
        · exact hopen

/-- A line is among those of a block exactly when it is appended while that block is open, or
while no block is open and that block is still to be opened. -/
theorem IsStretch.mem_blockPositions_iff {edits : List Edit} {key : BlockKey} {start stop : Nat}
    (stretch : IsStretch edits key start stop) (hclose : edits[stop]? = some .closeBlock)
    {position : Nat} {line : Line} (hline : edits[position]? = some (.append line)) :
    position ∈ blockPositions edits start stop ↔
      openAfter (edits.take position) = some key ∨
        openAfter (edits.take position) = none ∧ position < start := by
  rw [blockPositions, List.mem_append, List.mem_range'_1]
  constructor
  · rintro (houtside | ⟨hstart, hstop⟩)
    · exact .inr ⟨by simpa using List.of_mem_filter houtside,
        lt_of_mem_outsidePositions houtside⟩
    · exact .inl (stretch.inside position (by omega) (by omega))
  · rintro (hopen | ⟨hnone, hlt⟩)
    · obtain ⟨first, hfirst, hopening, hsince⟩ := exists_opening_of_openAfter hopen
      obtain rfl : first = start := stretch.unique first hopening
      have hclosed : openAfter (edits.take (stop + 1)) = none := openAfter_take_succ hclose
      have hstop : position < stop := by
        obtain hlt | rfl | hgt := Nat.lt_trichotomy position stop
        · exact hlt
        · rw [hline] at hclose
          cases hclose
        · have := hsince (stop + 1) (by have := stretch.lt; omega) hgt
          rw [hclosed] at this
          cases this
      exact .inr ⟨by omega, by omega⟩
    · refine .inl (List.mem_filter.mpr ⟨List.mem_range.mpr hlt, ?_⟩)
      simp [hnone]

section

variable {σ κ : Type} {settings : Settings} {provider : Provider σ κ} {entry : String}
  {context : κ} {world : σ} {program : Program}

/-- No line gets lost and none is doubled. Seen as a list of edits across all files, a reading
opens the block of a technique and stage once, and closes it again; the source of that stage
consists of the lines appended outside of all blocks before the opening and then of the lines
appended from there to the closing. So a line that is appended outside of all blocks is in the
blocks that are opened later and in no others, and a line that is appended inside of a block is in
that block only. -/
theorem source?_eq_joined_linesAt
    (hread : (read settings provider entry context world).outcome = .ok program)
    {technique : Technique} (htechnique : technique ∈ program.techniques) {stage : Stage}
    (hstage : technique.hasStage stage = true) :
    let edits := (read settings provider entry context world).session.edits
    ∃ start stop, IsStretch edits (technique.name, stage) start stop ∧
      edits[stop]? = some .closeBlock ∧
      technique.source? stage = some (Text.joined
        ((linesAt edits (blockPositions edits start stop)).map Line.text)) ∧
      ∀ position line, edits[position]? = some (.append line) →
        (position ∈ blockPositions edits start stop ↔
          openAfter (edits.take position) = some (technique.name, stage) ∨
            openAfter (edits.take position) = none ∧ position < start) := by
  intro edits
  have hprogram : program.MadeBy settings edits := madeBy_of_read hread
  obtain ⟨block, hblock⟩ := Option.isSome_iff_exists.mp hstage
  obtain ⟨hfinished, hkey⟩ := (hprogram.block?_eq_some_iff htechnique).mp hblock
  obtain ⟨start, stop, stretch, hclose, hlines⟩ :=
    hprogram.trace.routed.exists_stretch_of_finished
      (hkey ▸ List.mem_map_of_mem hfinished : ((technique.name, stage), block.lines.toList) ∈ _)
  refine ⟨start, stop, stretch, hclose, ?_, fun position line hline =>
    stretch.mem_blockPositions_iff hclose hline⟩
  rw [Technique.source?, hblock, Option.map_some, Block.source, hlines]

end

/-- Two files, of which the second closes a block that the first one has opened. -/
def splitBlock : Catalog where
  files :=
    [("main", "int a;\n#pragma anki technique_start vert\n#include \"rest\"\nint b;\n" ++
        "#pragma anki technique_start frag\n#pragma anki technique_end frag\n"),
     ("rest", "int v;\n#pragma anki technique_end vert\nint c;\n")]

theorem source?_eq_joined_linesAt_splitBlock :
    let report := read {} splitBlock.provider "main" "" ()
    let edits := report.session.edits
    ∃ program technique, report.outcome = .ok program ∧ technique ∈ program.techniques ∧
      technique.hasStage .fragment = true ∧
      ∃ start stop, IsStretch edits (technique.name, .fragment) start stop ∧
        edits[stop]? = some .closeBlock ∧
        technique.source? .fragment = some (Text.joined
          ((linesAt edits (blockPositions edits start stop)).map Line.text)) ∧
        ∀ position line, edits[position]? = some (.append line) →
          (position ∈ blockPositions edits start stop ↔
            openAfter (edits.take position) = some (technique.name, .fragment) ∨
              openAfter (edits.take position) = none ∧ position < start) := by
  intro report edits
  have hcheck : (report.outcome.toOption.any fun program =>
      program.techniques.any fun technique => technique.hasStage .fragment) = true := by
    decide +kernel
  obtain ⟨program, hprogram, htechniques⟩ := (Option.any_eq_true ..).mp hcheck
  obtain ⟨technique, htechnique, hstage⟩ := List.any_eq_true.mp htechniques
  have hread : report.outcome = .ok program := eq_ok_of_toOption hprogram
  exact ⟨program, technique, hread, htechnique, hstage,
    source?_eq_joined_linesAt hread htechnique hstage⟩

end Ubershader
