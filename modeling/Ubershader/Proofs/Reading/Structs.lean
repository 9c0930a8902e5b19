import Mathlib.Data.List.Sort
import Ubershader.Proofs.Buffers
import Ubershader.Proofs.PackedStruct
import Ubershader.Proofs.Reading.Routing

/-!
# Where the expansion of a struct goes

A struct is declared over a stretch of edits, from its opening to its closing, with arbitrary lines
in between. Its opening, each of its members and its closing come with lines of the expansion,
right behind the edit. No block is opened or closed in that stretch, so the lines all go to one
buffer, and a source has all of them or none, whether it has them from its own block or from the
common lines that it starts with.
-/

namespace Ubershader

namespace Edit

/-- Whether an edit opens, extends or closes a struct. -/
def touchesStruct : Edit → Bool
  | openStruct .. | addMember _ | closeStruct => true
  | _ => false

/-- Whether an edit opens and closes nothing. While a struct is open there are no other edits, so
all of its lines stay in one buffer. -/
def isInner : Edit → Bool
  | openStruct .. | closeStruct | openBlock .. | closeBlock => false
  | _ => true

def member? : Edit → Option Member
  | addMember member => some member
  | _ => none

theorem touchesStruct_of_isQuiet {edit : Edit} (hquiet : edit.isQuiet = true) :
    edit.touchesStruct = false := by
  cases edit <;> first | rfl | cases hquiet

theorem blockAfter_of_isInner {edit : Edit} (hinner : edit.isInner = true)
    (current : Option BlockKey) : edit.blockAfter current = current := by
  cases edit <;> first | rfl | cases hinner

end Edit

def expansionEdits (texts : List String) : List Edit :=
  texts.map fun text => .append (.expansion text)

theorem map_text_expansion (texts : List String) :
    (texts.map Line.expansion).map Line.text = texts :=
  List.map_map.trans (List.map_id texts)

/-! ## Lines that come with an edit -/

/-- Every edit of a struct has the lines that come with it right behind it. -/
def IsExpanded (edits : List Edit) : Prop :=
  ∀ position edit, edits[position]? = some edit → edit.touchesStruct = true →
    ∃ texts, Command.Emits (({} : Draft).applyAll (edits.take position)) edit texts ∧
      expansionEdits texts <+: edits.drop (position + 1)

namespace IsExpanded

variable {edits more : List Edit}

/-- Only the edits that are new have to be looked at, and what comes before them is known. -/
theorem append (hexpanded : IsExpanded edits)
    (hmore : ∀ position edit, more[position]? = some edit → edit.touchesStruct = true →
      ∃ texts, Command.Emits (({} : Draft).applyAll (edits ++ more.take position)) edit texts ∧
        expansionEdits texts <+: more.drop (position + 1)) : IsExpanded (edits ++ more) := by
  intro position edit hedit htouches
  obtain hlt | hge := Nat.lt_or_ge position edits.length
  · rw [List.getElem?_append_left hlt] at hedit
    obtain ⟨texts, hemits, hlines⟩ := hexpanded position edit hedit htouches
    rw [List.take_append_of_le_length (by omega), List.drop_append_of_le_length (by omega)]
    exact ⟨texts, hemits, hlines.trans (List.prefix_append _ _)⟩
  · obtain ⟨offset, rfl⟩ := Nat.exists_eq_add_of_le hge
    rw [List.getElem?_append_right hge, Nat.add_sub_cancel_left] at hedit
    rw [Nat.add_assoc, List.take_length_add_append, List.drop_length_add_append]
    exact hmore offset edit hedit htouches

theorem append_untouched (hexpanded : IsExpanded edits)
    (hmore : ∀ edit ∈ more, edit.touchesStruct = false) : IsExpanded (edits ++ more) := by
  refine hexpanded.append fun position edit hedit htouches => ?_
  rw [hmore edit (List.mem_of_getElem? hedit)] at htouches
  cases htouches

theorem append_line (hexpanded : IsExpanded edits) (line : Line) :
    IsExpanded (edits ++ [.append line]) :=
  hexpanded.append_untouched (by simp [Edit.touchesStruct])

theorem append_emission (hexpanded : IsExpanded edits) {edit : Edit} {texts : List String}
    (hemits : Command.Emits (({} : Draft).applyAll edits) edit texts) :
    IsExpanded (edits ++ edit :: expansionEdits texts) := by
  refine hexpanded.append fun position other hother htouches => ?_
  cases position with
  | zero =>
    cases hother
    exact ⟨texts, by simpa using hemits, by simp⟩
  | succ position =>
    obtain ⟨text, -, rfl⟩ := List.mem_map.mp (List.mem_of_getElem? hother)
    cases htouches

end IsExpanded

namespace Session

variable {σ κ : Type}

/-- The journal of a session is expanded, and its draft is what the edits in it add up to. -/
structure Expanded (session : Session σ κ) : Prop where
  draft : session.draft = ({} : Draft).applyAll session.edits
  isExpanded : IsExpanded session.edits

theorem expanded_performAll {session : Session σ κ} {more : List Edit}
    (hsession : session.Expanded) (hmore : IsExpanded (session.edits ++ more)) :
    ((Walk.performAll more).endSession session).Expanded where
  draft := by
    rw [edits_performAll, Walk.endSession_performAll, hsession.draft, Draft.applyAll_append]
  isExpanded := by
    rw [edits_performAll]
    exact hmore

theorem expanded_of_edits_eq {earlier later : Session σ κ} (hsession : earlier.Expanded)
    (hedits : later.edits = earlier.edits) (hdraft : later.draft = earlier.draft) :
    later.Expanded :=
  ⟨by rw [hdraft, hedits, hsession.draft], by rw [hedits]; exact hsession.isExpanded⟩

theorem stepRelation_expanded (settings : Settings) (provider : Provider σ κ) :
    StepRelation settings provider fun earlier later => earlier.Expanded → later.Expanded where
  refl _ hsession := hsession
  trans hfirst hsecond hsession := hsecond (hfirst hsession)
  record event _ hedit session hsession :=
    expanded_of_edits_eq hsession (by simp [edits, hedit]) rfl
  append line session hsession :=
    expanded_performAll hsession (hsession.isExpanded.append_line line)
  guard path session hsession :=
    expanded_performAll hsession
      (hsession.isExpanded.append_untouched (by simp [Edit.touchesStruct]))
  command session site args edits _ hmeaning hsession := by
    obtain ⟨edit, texts, hemits, rfl⟩ :=
      Command.isEmission_meaning settings session.draft site args edits hmeaning
    exact expanded_performAll hsession
      (hsession.isExpanded.append_emission (hsession.draft ▸ hemits))
  resolve path context session hsession :=
    expanded_of_edits_eq hsession (by simp [Walk.resolve, edits, Event.edit?])
      (by simp [Walk.resolve])
  fetch path depth session hsession :=
    expanded_of_edits_eq hsession (by simp [Walk.fetch, edits, Event.edit?]) (by simp [Walk.fetch])

end Session

/-- In the edits of every reading the lines of expansions are where they should be. -/
theorem isExpanded_read {σ κ : Type} (settings : Settings) (provider : Provider σ κ)
    (entry : String) (context : κ) (world : σ) :
    IsExpanded (read settings provider entry context world).session.edits := by
  rw [session_read]
  refine ((Session.stepRelation_expanded settings provider).respects_visit _ _ _ _
    { world := world } ⟨rfl, ?_⟩).isExpanded
  intro position edit hedit
  cases hedit

/-! ## The stretch of a declaration -/

namespace Trace

variable {settings : Settings} {edits : List Edit}

theorem take (trace : Trace settings edits) (position : Nat) :
    Trace settings (edits.take position) := by
  induction trace with
  | nil => simpa using Trace.nil
  | @snoc edits edit trace hallows ih =>
    obtain hle | hgt := Nat.lt_or_ge edits.length position
    · rw [List.take_of_length_le (by simp; omega)]
      exact trace.snoc hallows
    · rw [take_concat hgt]
      exact ih

/-- An edit of a trace is allowed by what the ones before it add up to. -/
theorem allows_of_getElem? (trace : Trace settings edits) {position : Nat} {edit : Edit}
    (hedit : edits[position]? = some edit) :
    (({} : Draft).applyAll (edits.take position)).Allows settings edit := by
  have hprefix := trace.take (position + 1)
  rw [List.take_add_one, hedit] at hprefix
  generalize hfront : edits.take position = front at hprefix
  generalize hwhole : front ++ (some edit).toList = whole at hprefix
  cases hprefix with
  | nil => simp at hwhole
  | snoc _ hallows =>
    obtain ⟨rfl, hlast⟩ := List.append_inj' hwhole rfl
    cases hlast
    exact hallows

end Trace

def membersBetween (edits : List Edit) (start stop : Nat) : List Member :=
  ((edits.take stop).drop (start + 1)).filterMap Edit.member?

/-- A struct is opened at one position, and closed at a later one for the first time after that. Its
members are those that are added in between. -/
structure IsDeclared (edits : List Edit) (struct : PackedStruct) (start stop : Nat) : Prop where
  opening : ∃ site, edits[start]? = some (.openStruct struct.name site)
  closing : edits[stop]? = some .closeStruct
  lt : start < stop
  first : ∀ position, start < position → position < stop → edits[position]? ≠ some .closeStruct
  members : struct.members = membersBetween edits start stop

@[simp] theorem membersBetween_start (edits : List Edit) (start : Nat) :
    membersBetween edits start (start + 1) = [] := by
  rw [membersBetween, List.drop_of_length_le (by simp), List.filterMap_nil]

theorem membersBetween_succ {edits : List Edit} {start stop : Nat} (hstart : start < edits.length)
    (hlt : start < stop) :
    membersBetween edits start (stop + 1) =
      membersBetween edits start stop ++ (edits[stop]?.bind Edit.member?).toList := by
  rw [membersBetween, List.take_add_one, List.drop_append_of_le_length (by simp; omega),
    List.filterMap_append, membersBetween]
  cases hedit : edits[stop]? with
  | none => rfl
  | some edit => cases hmember : edit.member? <;> simp [hmember]

/-- A change to a buffer leaves the open struct alone. -/
theorem Draft.openStruct_modifyCurrent (draft : Draft) (change : Buffer → Buffer) :
    (draft.modifyCurrent change).openStruct = draft.openStruct := by
  rw [modifyCurrent]
  split <;> rfl

theorem Draft.openStruct_of_isInner (draft : Draft) {edit : Edit} (hinner : edit.isInner = true) :
    (draft.apply edit).openStruct = draft.openStruct.map fun struct =>
      { struct with struct :=
        { struct.struct with members := struct.struct.members ++ edit.member?.toList } } := by
  have hsame : ∀ struct : Option OpenStruct, struct = struct.map fun struct =>
      { struct with struct :=
        { struct.struct with
          members := struct.struct.members ++ (none : Option Member).toList } } := by
    intro struct
    cases struct <;> simp
  cases edit with
  | append line =>
    rw [apply, openStruct_modifyCurrent]
    exact hsame _
  | guard path =>
    rw [apply, openStruct_modifyCurrent]
    exact hsame _
  | addMember member => rfl
  | openBlock => cases hinner
  | closeBlock => cases hinner
  | openStruct => cases hinner
  | closeStruct => cases hinner
  | _ => exact hsame _

section

variable {settings : Settings} {edits : List Edit} {name : String} {site : Location}
  {start stop : Nat}

/-- As long as nothing is opened and closed, the struct stays open and collects its members. -/
theorem openStruct_take (hopening : edits[start]? = some (.openStruct name site))
    (hlt : start < stop)
    (hinner : ∀ position, start < position → position < stop →
      ∀ edit, edits[position]? = some edit → edit.isInner = true) :
    (({} : Draft).applyAll (edits.take stop)).openStruct =
      some ⟨⟨name, membersBetween edits start stop⟩, site⟩ := by
  have hstart : start < edits.length := (List.getElem?_eq_some_iff.mp hopening).1
  induction stop, hlt using Nat.le_induction with
  | base =>
    rw [List.take_add_one, hopening, Option.toList_some, Draft.applyAll_append,
      membersBetween_start]
    rfl
  | succ stop hlt ih =>
    have hbefore := ih fun position hposition hstop => hinner position hposition (by omega)
    rw [membersBetween_succ hstart hlt, List.take_add_one]
    cases hedit : edits[stop]? with
    | none => simpa using hbefore
    | some edit =>
      rw [Option.toList_some, Draft.applyAll_append, Draft.applyAll_cons, Draft.applyAll_nil,
        Draft.openStruct_of_isInner _ (hinner stop hlt (by omega) edit hedit), hbefore]
      rfl

/-- Until a struct is closed, nothing else is opened and closed. -/
theorem isInner_of_first (trace : Trace settings edits)
    (hopening : edits[start]? = some (.openStruct name site))
    (hfirst : ∀ position, start < position → position < stop →
      edits[position]? ≠ some .closeStruct) :
    ∀ position, start < position → position < stop →
      ∀ edit, edits[position]? = some edit → edit.isInner = true := by
  intro position
  induction position using Nat.strong_induction_on with
  | _ position ih =>
    intro hlt hstop edit hedit
    have hopen := openStruct_take hopening hlt fun earlier hearlier hposition =>
      ih earlier hposition hearlier (by omega)
    cases trace.allows_of_getElem? hedit with
    | openBlock hnone => simp [hopen] at hnone
    | closeBlock hnone => simp [hopen] at hnone
    | openStruct hnone => simp [hopen] at hnone
    | closeStruct => exact absurd hedit (hfirst position hlt hstop)
    | _ => rfl

/-- A struct that is not open in the end was closed. -/
theorem exists_isDeclared (trace : Trace settings edits)
    (hopening : edits[start]? = some (.openStruct name site))
    (hclosed : (({} : Draft).applyAll edits).openStruct = none) :
    ∃ stop, IsDeclared edits ⟨name, membersBetween edits start stop⟩ start stop := by
  have hstart : start < edits.length := (List.getElem?_eq_some_iff.mp hopening).1
  have hexists : ∃ stop, start < stop ∧ edits[stop]? = some .closeStruct := by
    by_contra hnever
    have hfirst : ∀ position, start < position → position < edits.length →
        edits[position]? ≠ some .closeStruct :=
      fun position hlt _ hclose => hnever ⟨position, hlt, hclose⟩
    have hopen := openStruct_take hopening hstart (isInner_of_first trace hopening hfirst)
    rw [List.take_length, hclosed] at hopen
    cases hopen
  classical
  obtain ⟨hlt, hclose⟩ := Nat.find_spec hexists
  refine ⟨Nat.find hexists, ⟨site, hopening⟩, hclose, hlt, ?_, rfl⟩
  intro position hposition hstop hearlier
  exact Nat.find_min hexists hstop ⟨hposition, hearlier⟩

end

/-! ## The lines of a declaration -/

namespace PackedStruct

def lineCount (struct : PackedStruct) : Edit → Nat
  | .openStruct .. => 1
  | .addMember _ => 2
  | .closeStruct => 2 * struct.members.length + 3
  | _ => 0

/-- The lines that come with an edit in the declaration of a struct. -/
inductive Expands (struct : PackedStruct) : Edit → List String → Prop
  | opening (site : Location) : Expands struct (.openStruct struct.name site) [struct.openingLine]
  | member {member : Member} {token : String}
      (known : MemberType.ofToken? token = some member.type) :
      Expands struct (.addMember member) (struct.memberLines member token)
  | closing : Expands struct .closeStruct struct.closingLines
  | other {edit : Edit} (untouched : edit.touchesStruct = false) : Expands struct edit []

theorem Expands.length_eq {struct : PackedStruct} {edit : Edit} {texts : List String}
    (hexpands : struct.Expands edit texts) : struct.lineCount edit = texts.length := by
  cases hexpands with
  | opening => rfl
  | member => rfl
  | closing => exact struct.length_closingLines.symm
  | other huntouched => cases edit <;> first | rfl | cases huntouched

end PackedStruct

def followers (edits : List Edit) (struct : PackedStruct) (position : Nat) : List Nat :=
  List.range' (position + 1) (edits[position]?.elim 0 struct.lineCount)

/-- The positions of the lines that come with the edits from one position up to another one. What
stands between them, like the lines of an included file, is left out. -/
def expansionPositions (edits : List Edit) (struct : PackedStruct) (start stop : Nat) : List Nat :=
  (List.range' start (stop + 1 - start)).flatMap (followers edits struct)

/-- Lines that stand one after the other are found at successive positions. -/
theorem getElem?_of_expansionEdits {edits : List Edit} {texts : List String} {first : Nat}
    (hlines : expansionEdits texts <+: edits.drop first) {position : Nat}
    (hmem : position ∈ List.range' first texts.length) :
    ∃ text, edits[position]? = some (.append (.expansion text)) := by
  obtain ⟨hle, hlt⟩ := List.mem_range'_1.mp hmem
  obtain ⟨offset, rfl⟩ := Nat.exists_eq_add_of_le hle
  have hoffset : offset < texts.length := by omega
  obtain ⟨rest, hrest⟩ := hlines
  refine ⟨texts[offset], ?_⟩
  rw [← List.getElem?_drop, ← hrest, List.getElem?_append_left (by simpa [expansionEdits])]
  simp [expansionEdits, hoffset]

theorem linesAt_of_expansionEdits {edits : List Edit} {texts : List String} {first : Nat}
    (hlines : expansionEdits texts <+: edits.drop first) :
    linesAt edits (List.range' first texts.length) = texts.map Line.expansion := by
  induction texts generalizing first with
  | nil => rfl
  | cons text texts ih =>
    obtain ⟨rest, hrest⟩ := hlines
    have hfirst : edits[first]? = some (.append (.expansion text)) := by
      rw [← Nat.add_zero first, ← List.getElem?_drop, ← hrest]
      rfl
    have hlater : expansionEdits texts <+: edits.drop (first + 1) := by
      rw [← List.drop_drop, ← hrest]
      exact List.prefix_append _ _
    have htail := ih hlater
    rw [linesAt] at htail ⊢
    rw [List.length_cons, List.range'_succ, List.filterMap_cons, hfirst, htail]
    rfl

/-- Lines come only with edits that are not lines themselves. -/
theorem exists_of_mem_followers {edits : List Edit} {struct : PackedStruct} {position later : Nat}
    (hmem : later ∈ followers edits struct position) :
    ∃ edit, edits[position]? = some edit ∧ edit.line? = none := by
  rw [followers] at hmem
  cases hedit : edits[position]? with
  | none => simp [hedit] at hmem
  | some edit =>
    refine ⟨edit, rfl, ?_⟩
    cases edit with
    | append line => simp [hedit, PackedStruct.lineCount] at hmem
    | _ => rfl

theorem pairwise_blockPositions (edits : List Edit) (start stop : Nat) :
    (blockPositions edits start stop).Pairwise (· < ·) := by
  rw [blockPositions, List.pairwise_append]
  refine ⟨List.pairwise_lt_range.filter _, List.pairwise_lt_range', ?_⟩
  intro position houtside later hinside
  have hbefore := lt_of_mem_outsidePositions houtside
  rw [List.mem_range'_1] at hinside
  omega

namespace IsDeclared

variable {settings : Settings} {edits : List Edit} {struct : PackedStruct} {start stop : Nat}

theorem isInner (declared : IsDeclared edits struct start stop) (trace : Trace settings edits)
    {position : Nat} (hstart : start < position) (hstop : position < stop) {edit : Edit}
    (hedit : edits[position]? = some edit) : edit.isInner = true := by
  obtain ⟨site, hopening⟩ := declared.opening
  exact isInner_of_first trace hopening declared.first position hstart hstop edit hedit

theorem openStruct_take (declared : IsDeclared edits struct start stop)
    (trace : Trace settings edits) {position : Nat} (hstart : start < position)
    (hstop : position ≤ stop) :
    ∃ site, (({} : Draft).applyAll (edits.take position)).openStruct =
      some ⟨⟨struct.name, membersBetween edits start position⟩, site⟩ := by
  obtain ⟨site, hopening⟩ := declared.opening
  refine ⟨site, Ubershader.openStruct_take hopening hstart ?_⟩
  intro earlier hearlier hposition edit hedit
  exact declared.isInner trace hearlier (by omega) hedit

theorem openStruct_stop (declared : IsDeclared edits struct start stop)
    (trace : Trace settings edits) :
    ∃ site, (({} : Draft).applyAll (edits.take stop)).openStruct = some ⟨struct, site⟩ := by
  obtain ⟨site, hopen⟩ := declared.openStruct_take trace declared.lt (Nat.le_refl _)
  exact ⟨site, by rw [hopen, ← declared.members]⟩

/-- What comes with an edit of a declaration is decided by the struct as it is in the end. -/
theorem expands (declared : IsDeclared edits struct start stop) (trace : Trace settings edits)
    (hexpanded : IsExpanded edits) {position : Nat} (hstart : start ≤ position)
    (hstop : position ≤ stop) {edit : Edit} (hedit : edits[position]? = some edit) :
    ∃ texts, struct.Expands edit texts ∧ expansionEdits texts <+: edits.drop (position + 1) := by
  cases htouches : edit.touchesStruct with
  | false => exact ⟨[], .other htouches, List.nil_prefix⟩
  | true =>
    obtain ⟨texts, hemits, hlines⟩ := hexpanded position edit hedit htouches
    refine ⟨texts, ?_, hlines⟩
    obtain hlt | rfl := Nat.lt_or_eq_of_le hstop
    · obtain hgt | rfl := Nat.lt_or_eq_of_le hstart
      · have hinner := declared.isInner trace hgt hlt hedit
        cases hemits with
        | quiet hquiet => simp [Edit.touchesStruct_of_isQuiet hquiet] at htouches
        | opening => cases hinner
        | member hopen hknown =>
          obtain ⟨site, htake⟩ := declared.openStruct_take trace hgt hstop
          rw [htake] at hopen
          cases hopen
          exact .member hknown
        | closing => cases hinner
      · obtain ⟨site, hopening⟩ := declared.opening
        rw [hopening] at hedit
        cases hedit
        cases hemits with
        | quiet hquiet => cases hquiet
        | opening => exact .opening site
    · rw [declared.closing] at hedit
      cases hedit
      cases hemits with
      | quiet hquiet => cases hquiet
      | closing hopen =>
        obtain ⟨site, htake⟩ := declared.openStruct_stop trace
        rw [htake] at hopen
        cases hopen
        exact .closing

/-- The positions behind an edit of a declaration are those of the lines that come with it. -/
theorem exists_followers (declared : IsDeclared edits struct start stop)
    (trace : Trace settings edits) (hexpanded : IsExpanded edits) {position : Nat}
    (hstart : start ≤ position) (hstop : position ≤ stop) :
    ∃ edit texts, edits[position]? = some edit ∧ struct.Expands edit texts ∧
      expansionEdits texts <+: edits.drop (position + 1) ∧
      followers edits struct position = List.range' (position + 1) texts.length := by
  have hlength : stop < edits.length := (List.getElem?_eq_some_iff.mp declared.closing).1
  have hedit : edits[position]? = some edits[position] := List.getElem?_eq_getElem (by omega)
  obtain ⟨texts, hexpands, hlines⟩ := declared.expands trace hexpanded hstart hstop hedit
  refine ⟨_, texts, hedit, hexpands, hlines, ?_⟩
  rw [followers, hedit, Option.elim_some, hexpands.length_eq]

theorem linesAt_opened (declared : IsDeclared edits struct start stop)
    (trace : Trace settings edits) (hexpanded : IsExpanded edits) {bound : Nat}
    (hstart : start < bound) (hstop : bound ≤ stop) :
    ∃ tokens, List.Forall₂ (fun member token => MemberType.ofToken? token = some member.type)
        (membersBetween edits start bound) tokens ∧
      linesAt edits ((List.range' start (bound - start)).flatMap (followers edits struct)) =
        (struct.openedLines (membersBetween edits start bound) tokens).map Line.expansion := by
  obtain ⟨site, hopening⟩ := declared.opening
  have hlength : start < edits.length := (List.getElem?_eq_some_iff.mp hopening).1
  induction bound, hstart using Nat.le_induction with
  | base =>
    obtain ⟨edit, texts, hedit, hexpands, hlines, hfollowers⟩ :=
      declared.exists_followers trace hexpanded (Nat.le_refl start) (Nat.le_of_lt declared.lt)
    rw [hopening] at hedit
    cases hedit
    cases hexpands with
    | opening =>
      rw [membersBetween_start]
      refine ⟨[], .nil, ?_⟩
      have hone : start.succ - start = 1 := by omega
      rw [hone, List.range'_one, List.flatMap_singleton, hfollowers,
        linesAt_of_expansionEdits hlines]
      rfl
    | other huntouched => cases huntouched
  | succ bound hlt ih =>
    obtain ⟨tokens, hknown, hopened⟩ := ih (by omega)
    obtain ⟨edit, texts, hedit, hexpands, hlines, hfollowers⟩ :=
      declared.exists_followers trace hexpanded (by omega : start ≤ bound) (by omega)
    have hinner := declared.isInner trace hlt (by omega) hedit
    have hcount : bound + 1 - start = bound - start + 1 := by omega
    have hlast : start + (bound - start) = bound := by omega
    rw [hcount, List.range'_1_concat, hlast, List.flatMap_append, List.flatMap_singleton,
      linesAt_append, hopened, hfollowers, linesAt_of_expansionEdits hlines,
      membersBetween_succ hlength hlt, hedit]
    cases hexpands with
    | opening => cases hinner
    | closing => cases hinner
    | @member member token htoken =>
      refine ⟨tokens ++ [token], List.rel_append hknown (.cons htoken .nil), ?_⟩
      rw [← List.map_append]
      exact congrArg _ (struct.openedLines_concat hknown.length_eq member token).symm
    | other huntouched =>
      have hnone : edit.member? = none := by cases edit <;> first | rfl | cases huntouched
      refine ⟨tokens, ?_, ?_⟩
      · simpa [hnone] using hknown
      · simp [hnone]

/-- The expansion is there, line by line and in order. -/
theorem linesAt_expansionPositions (declared : IsDeclared edits struct start stop)
    (trace : Trace settings edits) (hexpanded : IsExpanded edits) :
    ∃ tokens, List.Forall₂ (fun member token => MemberType.ofToken? token = some member.type)
        struct.members tokens ∧
      linesAt edits (expansionPositions edits struct start stop) =
        (struct.expansion tokens).map Line.expansion := by
  have hlt := declared.lt
  obtain ⟨tokens, hknown, hopened⟩ :=
    declared.linesAt_opened trace hexpanded hlt (Nat.le_refl stop)
  obtain ⟨edit, texts, hedit, hexpands, hlines, hfollowers⟩ :=
    declared.exists_followers trace hexpanded (Nat.le_of_lt hlt) (Nat.le_refl stop)
  rw [declared.closing] at hedit
  cases hedit
  rw [← declared.members] at hknown hopened
  refine ⟨tokens, hknown, ?_⟩
  have hcount : stop + 1 - start = stop - start + 1 := by omega
  have hlast : start + (stop - start) = stop := by omega
  rw [expansionPositions, hcount, List.range'_1_concat, hlast, List.flatMap_append,
    List.flatMap_singleton, linesAt_append, hopened, hfollowers, linesAt_of_expansionEdits hlines]
  cases hexpands with
  | closing => rw [PackedStruct.expansion, List.map_append]
  | other huntouched => cases huntouched

/-! ## The place of a declaration -/

/-- The first position behind the lines of a declaration. -/
def finish (struct : PackedStruct) (stop : Nat) : Nat :=
  stop + 1 + struct.lineCount .closeStruct

theorem append_of_mem_followers (declared : IsDeclared edits struct start stop)
    (trace : Trace settings edits) (hexpanded : IsExpanded edits) {position : Nat}
    (hstart : start ≤ position) (hstop : position ≤ stop) {later : Nat}
    (hmem : later ∈ followers edits struct position) :
    ∃ text, edits[later]? = some (.append (.expansion text)) := by
  obtain ⟨edit, texts, -, -, hlines, hfollowers⟩ :=
    declared.exists_followers trace hexpanded hstart hstop
  rw [hfollowers] at hmem
  exact getElem?_of_expansionEdits hlines hmem

/-- The lines that come with an edit stand in front of everything else that follows it. -/
theorem lt_of_mem_followers (declared : IsDeclared edits struct start stop)
    (trace : Trace settings edits) (hexpanded : IsExpanded edits) {position : Nat}
    (hstart : start ≤ position) (hstop : position ≤ stop) {later next : Nat}
    (hmem : later ∈ followers edits struct position) (hnext : position < next) {edit : Edit}
    (hedit : edits[next]? = some edit) (hline : edit.line? = none) : later < next := by
  by_contra hge
  have hbetween : next ∈ followers edits struct position := by
    rw [followers, List.mem_range'_1] at hmem ⊢
    omega
  obtain ⟨text, htext⟩ := declared.append_of_mem_followers trace hexpanded hstart hstop hbetween
  rw [hedit] at htext
  cases htext
  cases hline

theorem followers_stop (declared : IsDeclared edits struct start stop) :
    followers edits struct stop = List.range' (stop + 1) (struct.lineCount .closeStruct) := by
  rw [followers, declared.closing]
  rfl

theorem lt_of_mem_expansionPositions (declared : IsDeclared edits struct start stop)
    (trace : Trace settings edits) (hexpanded : IsExpanded edits) {position : Nat}
    (hmem : position ∈ expansionPositions edits struct start stop) :
    start < position ∧ position < finish struct stop ∧
      ∃ text, edits[position]? = some (.append (.expansion text)) := by
  have hlt := declared.lt
  obtain ⟨source, hsource, hfollows⟩ := List.mem_flatMap.mp hmem
  obtain ⟨hstart, hstop⟩ := List.mem_range'_1.mp hsource
  have hgt : source < position := by
    rw [followers, List.mem_range'_1] at hfollows
    omega
  refine ⟨by omega, ?_, declared.append_of_mem_followers trace hexpanded hstart (by omega) hfollows⟩
  rw [finish]
  obtain hbefore | rfl := Nat.lt_or_eq_of_le (by omega : source ≤ stop)
  · have := declared.lt_of_mem_followers trace hexpanded hstart (by omega) hfollows hbefore
      declared.closing rfl
    omega
  · rw [declared.followers_stop, List.mem_range'_1] at hfollows
    omega

theorem pairwise_expansionPositions (declared : IsDeclared edits struct start stop)
    (trace : Trace settings edits) (hexpanded : IsExpanded edits) :
    (expansionPositions edits struct start stop).Pairwise (· < ·) := by
  have hlt := declared.lt
  rw [expansionPositions, List.pairwise_flatMap]
  refine ⟨fun position _ => List.pairwise_lt_range', ?_⟩
  refine List.Pairwise.imp_of_mem ?_ List.pairwise_lt_range'
  intro position next hposition hnext hbefore first hfirst second hsecond
  obtain ⟨hstart, hstop⟩ := List.mem_range'_1.mp hposition
  obtain ⟨edit, hedit, hline⟩ := exists_of_mem_followers hsecond
  have := declared.lt_of_mem_followers trace hexpanded hstart (by omega) hfirst hbefore hedit hline
  rw [followers, List.mem_range'_1] at hsecond
  omega

/-- From the opening of a struct to the last of its lines no block is opened or closed. -/
theorem blockAfter_eq (declared : IsDeclared edits struct start stop)
    (trace : Trace settings edits) (hexpanded : IsExpanded edits) {position : Nat}
    (hstart : start ≤ position) (hfinish : position < finish struct stop) {edit : Edit}
    (hedit : edits[position]? = some edit) (current : Option BlockKey) :
    edit.blockAfter current = current := by
  have hlt := declared.lt
  obtain hbefore | rfl | hafter := Nat.lt_trichotomy position stop
  · obtain hinside | rfl := Nat.lt_or_eq_of_le hstart
    · exact Edit.blockAfter_of_isInner (declared.isInner trace hinside hbefore hedit) current
    · obtain ⟨site, hopening⟩ := declared.opening
      rw [hopening] at hedit
      cases hedit
      rfl
  · rw [declared.closing] at hedit
    cases hedit
    rfl
  · have hmem : position ∈ followers edits struct stop := by
      rw [finish] at hfinish
      rw [declared.followers_stop, List.mem_range'_1]
      omega
    obtain ⟨text, htext⟩ :=
      declared.append_of_mem_followers trace hexpanded (Nat.le_of_lt hlt) (Nat.le_refl stop) hmem
    rw [htext] at hedit
    cases hedit
    rfl

theorem openAfter_take (declared : IsDeclared edits struct start stop)
    (trace : Trace settings edits) (hexpanded : IsExpanded edits) {position : Nat}
    (hstart : start ≤ position) (hfinish : position ≤ finish struct stop) :
    openAfter (edits.take position) = openAfter (edits.take start) := by
  induction position, hstart using Nat.le_induction with
  | base => rfl
  | succ position hstart ih =>
    rw [← ih (by omega)]
    cases hedit : edits[position]? with
    | none => rw [List.take_add_one, hedit, Option.toList_none, List.append_nil]
    | some edit =>
      rw [openAfter_take_succ hedit,
        declared.blockAfter_eq trace hexpanded hstart (by omega) hedit]

/-- All lines of a declaration go to a block, in order, or none of them does. -/
theorem sublist_or_disjoint (declared : IsDeclared edits struct start stop)
    (trace : Trace settings edits) (hexpanded : IsExpanded edits) {key : BlockKey}
    {first last : Nat} (stretch : IsStretch edits key first last)
    (hclose : edits[last]? = some .closeBlock) :
    (expansionPositions edits struct start stop).Sublist (blockPositions edits first last) ∨
      (expansionPositions edits struct start stop).Disjoint (blockPositions edits first last) := by
  have hmem : ∀ position ∈ expansionPositions edits struct start stop,
      (position ∈ blockPositions edits first last ↔
        openAfter (edits.take start) = some key ∨
          openAfter (edits.take start) = none ∧ start < first) := by
    intro position hposition
    obtain ⟨hstart, hfinish, text, htext⟩ :=
      declared.lt_of_mem_expansionPositions trace hexpanded hposition
    rw [stretch.mem_blockPositions_iff hclose htext,
      declared.openAfter_take trace hexpanded (by omega) (by omega)]
    -- The opening of the block is outside of the declaration, so on one side of all its lines.
    have houtside : first < start ∨ finish struct stop ≤ first := by
      by_contra hinside
      cases hedit : edits[first]? with
      | none => simpa [hedit] using stretch.opening
      | some edit =>
        have hopening := stretch.opening
        rw [hedit] at hopening
        refine Routed.opening?_ne_of_still ?_ key hopening
        exact declared.blockAfter_eq trace hexpanded (by omega) (by omega) hedit
    have hsame : position < first ↔ start < first := by omega
    rw [hsame]
  by_cases hplace : openAfter (edits.take start) = some key ∨
      openAfter (edits.take start) = none ∧ start < first
  · have hsubset : expansionPositions edits struct start stop ⊆ blockPositions edits first last :=
      fun position hposition => (hmem position hposition).mpr hplace
    have hordered := declared.pairwise_expansionPositions trace hexpanded
    exact .inl (List.sublist_of_subperm_of_pairwise (List.subperm_of_subset hordered.nodup hsubset)
      hordered (pairwise_blockPositions edits first last))
  · refine .inr fun position hposition hblock => hplace ?_
    exact (hmem position hposition).mp hblock

end IsDeclared

namespace Draft

/-- The members of the open struct are laid out one after the other, under different names. -/
def IsPacked (draft : Draft) : Prop :=
  ∀ struct, draft.openStruct = some struct → struct.struct.IsSummed ∧
    (struct.struct.members.map Member.name).Nodup

variable {settings : Settings} {draft : Draft}

theorem IsPacked.of_openStruct_eq (hpacked : draft.IsPacked) {other : Draft}
    (hsame : other.openStruct = draft.openStruct) : other.IsPacked := by
  rw [IsPacked, hsame]
  exact hpacked

theorem IsPacked.apply (hpacked : draft.IsPacked) {edit : Edit}
    (hallows : draft.Allows settings edit) : (draft.apply edit).IsPacked := by
  cases hallows with
  | append line => exact hpacked.of_openStruct_eq (draft.openStruct_modifyCurrent (·.push line))
  | guard path => exact hpacked.of_openStruct_eq (draft.openStruct_modifyCurrent (·.guard path))
  | closeBlock _ hopen =>
    refine hpacked.of_openStruct_eq ?_
    rw [Draft.apply, hopen]
  | openStruct =>
    rintro _ ⟨⟩
    exact ⟨fun index member hmember => by simp at hmember, List.nodup_nil⟩
  | @addMember struct name hopen _ hfresh type =>
    have happly : (draft.apply (.addMember (struct.struct.nextMember name type))).openStruct =
        some { struct with struct := struct.struct.push (struct.struct.nextMember name type) } := by
      simp [Draft.apply, hopen]
    rw [IsPacked, happly]
    rintro _ ⟨⟩
    obtain ⟨hsummed, hnames⟩ := hpacked struct hopen
    refine ⟨hsummed.push name type, ?_⟩
    have hnew : name ∉ struct.struct.members.map Member.name := by
      simpa [PackedStruct.hasMember] using hfresh
    rw [PackedStruct.push, List.map_append, List.nodup_append]
    refine ⟨hnames, List.nodup_singleton _, ?_⟩
    intro old hold other hother heq
    have hname : old = name := heq.trans (List.mem_singleton.mp hother)
    exact hnew (hname ▸ hold)
  | closeStruct =>
    rintro _ ⟨⟩
  | _ => exact hpacked

theorem isPacked_of_trace {edits : List Edit} (trace : Trace settings edits) :
    (({} : Draft).applyAll edits).IsPacked :=
  trace.invariant (fun _ hopen => by cases hopen) fun _ _ hallows hpacked => hpacked.apply hallows

end Draft

theorem IsDeclared.isPacked {settings : Settings} {edits : List Edit} {struct : PackedStruct}
    {start stop : Nat} (declared : IsDeclared edits struct start stop)
    (trace : Trace settings edits) : struct.IsPacked := by
  obtain ⟨site, hopen⟩ := declared.openStruct_stop trace
  obtain ⟨hsummed, hnames⟩ := Draft.isPacked_of_trace (trace.take stop) _ hopen
  exact hsummed.isPacked hnames

/-- A program is made from a draft that has no open struct. -/
theorem Program.openStruct_of_ofDraft {settings : Settings} {entry : String} {draft : Draft}
    {program : Program} (hprogram : Program.ofDraft settings entry draft = .ok program) :
    draft.openStruct = none := by
  rw [Program.ofDraft] at hprogram
  split at hprogram
  · cases hprogram
  · cases hprogram
  · cases hprogram
  · next hstruct _ => exact hstruct

/-! ## The main result -/

/-- A struct is expanded as a whole. In a reading that gives a program every struct that is opened
is also closed, and its lines are those of its expansion, with the text that is written out in
`PackedStruct.IsWrittenOut`. They all go to the buffer that the struct was opened in, and each
source has all of them, in order, or none, also if it has them from the common lines that it starts
with. The members are laid out without gaps and overlaps. -/
theorem expansion_of_openStruct {σ κ : Type} {settings : Settings} {provider : Provider σ κ}
    {entry : String} {context : κ} {world : σ} {program : Program}
    (hread : (read settings provider entry context world).outcome = .ok program)
    {start : Nat} {name : String} {site : Location}
    (hopening : (read settings provider entry context world).session.edits[start]? =
      some (.openStruct name site)) :
    let edits := (read settings provider entry context world).session.edits
    ∃ struct stop tokens, struct.name = name ∧ IsDeclared edits struct start stop ∧
      List.Forall₂ (fun member token => MemberType.ofToken? token = some member.type ∧
        MemberType.IsLaidOut token member.type.name member.type.size) struct.members tokens ∧
      linesAt edits (expansionPositions edits struct start stop) =
        (struct.expansion tokens).map Line.expansion ∧
      struct.IsWrittenOut tokens
        ((linesAt edits (expansionPositions edits struct start stop)).map Line.text) ∧
      (∀ position ∈ expansionPositions edits struct start stop,
        openAfter (edits.take position) = openAfter (edits.take start)) ∧
      struct.IsPacked ∧
      ∀ technique ∈ program.techniques, ∀ stage, technique.hasStage stage = true →
        ∃ first last, IsStretch edits (technique.name, stage) first last ∧
          technique.source? stage = some (Text.joined
            ((linesAt edits (blockPositions edits first last)).map Line.text)) ∧
          ((expansionPositions edits struct start stop).Sublist
              (blockPositions edits first last) ∨
            (expansionPositions edits struct start stop).Disjoint
              (blockPositions edits first last)) := by
  intro edits
  have hprogram : program.MadeBy settings edits := madeBy_of_read hread
  have trace := hprogram.trace
  have hexpanded : IsExpanded edits := isExpanded_read settings provider entry context world
  have hclosed : (({} : Draft).applyAll edits).openStruct = none := by
    rw [← draft_eq_applyAll_edits]
    exact Program.openStruct_of_ofDraft (walk_of_read hread).2
  obtain ⟨stop, declared⟩ := exists_isDeclared trace hopening hclosed
  obtain ⟨tokens, hknown, hlines⟩ := declared.linesAt_expansionPositions trace hexpanded
  have hpacked := declared.isPacked trace
  refine ⟨_, stop, tokens, rfl, declared, ?_, hlines, ?_, ?_, hpacked, ?_⟩
  · exact hknown.imp fun _ _ htoken => ⟨htoken, MemberType.isLaidOut_of_ofToken? htoken⟩
  · rw [hlines, map_text_expansion]
    exact hpacked.offset.isWrittenOut hknown.length_eq
  · intro position hposition
    obtain ⟨hstart, hfinish, -⟩ := declared.lt_of_mem_expansionPositions trace hexpanded hposition
    exact declared.openAfter_take trace hexpanded (Nat.le_of_lt hstart) (Nat.le_of_lt hfinish)
  · intro technique htechnique stage hstage
    obtain ⟨block, hblock⟩ := Option.isSome_iff_exists.mp hstage
    obtain ⟨hfinished, hkey⟩ := (hprogram.block?_eq_some_iff htechnique).mp hblock
    obtain ⟨first, last, stretch, hclose, hsource⟩ := trace.routed.exists_stretch_of_finished
      (hkey ▸ List.mem_map_of_mem hfinished : ((technique.name, stage), block.lines.toList) ∈ _)
    refine ⟨first, last, stretch, ?_, declared.sublist_or_disjoint trace hexpanded stretch hclose⟩
    rw [Technique.source?, hblock, Option.map_some, Block.source, hsource]

/-- A struct that is declared in front of a block, with members from another file and a line of text
between them. -/
def spreadStruct : Catalog where
  files :=
    [("main", "#pragma anki struct Light\n#include \"rest\"\n#pragma anki struct_end\n" ++
        "#pragma anki technique_start vert\n#pragma anki technique_end vert\n"),
     ("rest", "#pragma anki member RVec3 at\nint between;\n#pragma anki member F32 range\n")]

theorem expansion_of_openStruct_spreadStruct :
    let report := read {} spreadStruct.provider "main" "" ()
    let edits := report.session.edits
    ∃ program start site, report.outcome = .ok program ∧
      edits[start]? = some (.openStruct "Light" site) ∧
      ∃ struct stop tokens, struct.name = "Light" ∧ IsDeclared edits struct start stop ∧
        linesAt edits (expansionPositions edits struct start stop) =
          (struct.expansion tokens).map Line.expansion ∧
        struct.IsWrittenOut tokens
          ((linesAt edits (expansionPositions edits struct start stop)).map Line.text) ∧
        struct.IsPacked ∧
        ∀ technique ∈ program.techniques, ∀ stage, technique.hasStage stage = true →
          ∃ first last, IsStretch edits (technique.name, stage) first last ∧
            ((expansionPositions edits struct start stop).Sublist
                (blockPositions edits first last) ∨
              (expansionPositions edits struct start stop).Disjoint
                (blockPositions edits first last)) := by
  intro report edits
  have hcheck : report.outcome.toOption.isSome = true ∧ edits[0]? =
      some (.openStruct "Light" ⟨"main", 1, "#pragma anki struct Light"⟩) := by
    decide +kernel
  obtain ⟨program, hprogram⟩ := Option.isSome_iff_exists.mp hcheck.1
  have hread : report.outcome = .ok program := eq_ok_of_toOption hprogram
  obtain ⟨struct, stop, tokens, hname, declared, -, hlines, hwritten, -, hpacked, hsources⟩ :=
    expansion_of_openStruct hread hcheck.2
  refine ⟨program, 0, _, hread, hcheck.2, struct, stop, tokens, hname, declared, hlines, hwritten,
    hpacked, ?_⟩
  intro technique htechnique stage hstage
  obtain ⟨first, last, stretch, -, hwhole⟩ := hsources technique htechnique stage hstage
  exact ⟨first, last, stretch, hwhole⟩

end Ubershader
