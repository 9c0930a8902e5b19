import Ubershader.Proofs.Buffers
import Ubershader.Proofs.Lines
import Ubershader.Proofs.PackedStruct
import Ubershader.Proofs.Reading.Course
import Ubershader.Provider.Catalog

/-!
# What line markers say

A compiler that reads a source keeps track of where its lines come from: a marker says it for the
line after it, and every other line is followed by the next line of the same file. With markers
switched on, this is right for every line that is copied from a file, whatever was included,
expanded or moved to another block on the way.

A line is only copied when the current buffer is *ready* for it, that is, when a tracker that has
read all of that buffer expects the line. Everything else that is appended may leave the tracker
wrong, and a marker puts it right before the next line is read.
-/

namespace Ubershader

/-! ## Trackers -/

/-- A place in a file, as it is said by a marker. -/
structure Origin where
  file : String
  number : Nat
deriving DecidableEq, Repr

namespace Origin

/-- What a text says of the line after it, if it is a marker. -/
def ofMarker? (text : String) : Option Origin := do
  let rest ← Directive.remainder? "#line " text
  let number ← Text.natural? (rest.toList.takeWhile Char.isDigit)
  let literal ← Directive.remainder? " " (String.ofList (rest.toList.dropWhile Char.isDigit))
  let file ← Directive.between? '"' '"' literal
  return ⟨file, number⟩

/-- What is known of the line after a text, from what was known of that text. -/
def next (known : Option Origin) (text : String) : Option Origin :=
  match ofMarker? text with
  | some origin => some origin
  | none => known.map fun origin => { origin with number := origin.number + 1 }

def after (texts : List String) : Option Origin :=
  texts.foldl next none

theorem after_concat (texts : List String) (text : String) :
    after (texts ++ [text]) = next (after texts) text := by
  simp [after]

end Origin

theorem Directive.remainder?_append (front rest : String) :
    remainder? front (front ++ rest) = some rest := by
  have hchars : ∀ cs : List Char, cs.isPrefixOf? (cs ++ rest.toList) = some rest.toList := by
    intro cs
    induction cs with
    | nil => rfl
    | cons c cs ih => simp [List.isPrefixOf?, ih]
  rw [remainder?, String.toList_append, hchars, Option.map_some, String.ofList_toList]

namespace Text

/-- A numeral ends at the first space. -/
theorem takeWhile_numeral (number : Nat) (rest : String) :
    (number.repr ++ (" " ++ rest)).toList.takeWhile Char.isDigit = Nat.toDigits 10 number ∧
      String.ofList ((number.repr ++ (" " ++ rest)).toList.dropWhile Char.isDigit) =
        " " ++ rest := by
  have hdigits : ∀ c ∈ Nat.toDigits 10 number, c.isDigit = true := fun c hc =>
    Nat.isDigit_of_mem_toDigits (by decide) (by decide) hc
  have hspace : (" " ++ rest).toList = ' ' :: rest.toList := by simp
  have hstop : Char.isDigit ' ' = false := by decide
  rw [String.toList_append, Nat.toList_repr, List.takeWhile_append_of_pos hdigits,
    List.dropWhile_append_of_pos hdigits, hspace]
  constructor
  · simp [hstop]
  · rw [List.dropWhile_cons_of_neg (by simp [hstop]), ← hspace, String.ofList_toList]

theorem natural?_toDigits (number : Nat) : natural? (Nat.toDigits 10 number) = some number := by
  have hdigits : (Nat.toDigits 10 number).all Char.isDigit = true :=
    List.all_eq_true.mpr fun c hc => Nat.isDigit_of_mem_toDigits (by decide) (by decide) hc
  rw [natural?, if_pos ⟨Nat.toDigits_ne_nil, hdigits⟩,
    Nat.ofDigitChars_toDigits (by decide) (by decide)]

end Text

namespace Line

theorem isLine_quotablePath {path : String} (hpath : Text.IsLine path) :
    Text.IsLine (quotablePath path) := by
  simp only [Text.IsLine, quotablePath, String.toList_ofList, List.mem_map, List.mem_filter,
    not_exists, not_and]
  rintro c ⟨hc, -⟩ heq
  split at heq
  · cases heq
  · exact hpath (heq ▸ hc)

/-- A tracker understands markers. -/
theorem ofMarker?_marker (number : Nat) (file : String) :
    Origin.ofMarker? (marker number file).text = some ⟨quotablePath file, number⟩ := by
  have htext : (marker number file).text =
      "#line " ++ (number.repr ++ (" " ++ ("\"" ++ quotablePath file ++ "\""))) := by
    show "#line " ++ number.repr ++ " \"" ++ quotablePath file ++ "\"" = _
    rw [← String.toList_inj]
    simp
  have hquotes : Directive.between? '"' '"' ("\"" ++ quotablePath file ++ "\"") =
      some (quotablePath file) := by
    simp [Directive.between?]
  obtain ⟨hdigits, hrest⟩ := Text.takeWhile_numeral number ("\"" ++ quotablePath file ++ "\"")
  rw [htext, Origin.ofMarker?, Directive.remainder?_append, Option.bind_eq_bind, Option.bind_some,
    hdigits, hrest, Text.natural?_toDigits, Directive.remainder?_append]
  simp only [Option.bind_eq_bind, Option.bind_some, hquotes]
  rfl

end Line

/-! ## Lines of expansions

A line that is made here is one line if the names in it are. -/

namespace PackedStruct

structure IsNamed (struct : PackedStruct) : Prop where
  name : Text.isIdentifier struct.name = true
  members : ∀ member ∈ struct.members, Text.isIdentifier member.name = true

variable {struct : PackedStruct}

theorem IsNamed.push (hnamed : struct.IsNamed) {member : Member}
    (hmember : Text.isIdentifier member.name = true) : (struct.push member).IsNamed := by
  refine ⟨hnamed.name, ?_⟩
  intro other hother
  obtain hold | hlast := List.mem_append.mp hother
  · exact hnamed.members other hold
  · rw [List.mem_singleton.mp hlast]
    exact hmember

theorem isLine_memberLines (hname : Text.IsLine struct.name) {member : Member}
    (hmember : Text.IsLine member.name) {typeToken : String} (htype : Text.IsLine typeToken) :
    ∀ text ∈ struct.memberLines member typeToken, Text.IsLine text := by
  simp only [memberLines, offsetName, List.forall_mem_cons, hname,
    hmember, htype, Text.isLine_repr, Text.isLine_append, and_true, true_and]
  decide

theorem isLine_loadLines (hname : Text.IsLine struct.name) {members : List Member}
    (hmembers : ∀ member ∈ members, Text.IsLine member.name) :
    ∀ text ∈ struct.loadLines members, Text.IsLine text := by
  have hline : ∀ separator member, Text.IsLine separator → Text.IsLine member.name →
      Text.IsLine (struct.loadLine separator member) := by
    intro separator member hseparator hmember
    have htype : Text.IsLine member.type.name := by
      cases member.type <;> decide
    delta loadLine
    simp only [loadName, offsetName, hname, hseparator, hmember, htype, Text.isLine_append,
      and_true, true_and]
    decide
  fun_induction loadLines struct members with
  | case1 => simp
  | case2 member =>
    simpa using hline "" member (by decide) (hmembers member (List.mem_singleton_self member))
  | case3 member rest _ ih =>
    obtain ⟨hmember, hrest⟩ := List.forall_mem_cons.mp hmembers
    exact List.forall_mem_cons.mpr ⟨hline "," member (by decide) hmember, ih hrest⟩

theorem IsNamed.isLine_closingLines (hnamed : struct.IsNamed) :
    ∀ text ∈ struct.closingLines, Text.IsLine text := by
  have hname := Text.isLine_of_isIdentifier hnamed.name
  have hmembers : ∀ member ∈ struct.members, Text.IsLine member.name := fun member hmember =>
    Text.isLine_of_isIdentifier (hnamed.members member hmember)
  have hload := isLine_loadLines hname hmembers
  intro text htext
  simp only [closingLines, List.mem_append, List.mem_singleton, List.mem_map] at htext
  obtain (((rfl | htext) | rfl) | ⟨member, hmember, rfl⟩) | rfl := htext
  · decide
  · exact hload text htext
  · simp only [hname, Text.isLine_append, and_true]
    decide
  · simp only [aggregateLine, loadName, hname, hmembers member hmember, Text.isLine_append,
      and_true, true_and]
    decide
  · decide

end PackedStruct

theorem MemberType.isLine_of_ofToken? {token : String} {type : MemberType}
    (htoken : ofToken? token = some type) : Text.IsLine token := by
  unfold ofToken? at htoken
  split at htoken
  all_goals first | decide | cases htoken

namespace Draft

def IsNamed (draft : Draft) : Prop :=
  ∀ struct, draft.openStruct = some struct → struct.struct.IsNamed

theorem openStruct_append (draft : Draft) (line : Line) :
    (draft.apply (.append line)).openStruct = draft.openStruct := by
  rw [apply, modifyCurrent]
  split <;> rfl

variable {settings : Settings} {draft : Draft}

theorem IsNamed.append (hnamed : draft.IsNamed) (line : Line) :
    (draft.apply (.append line)).IsNamed := by
  rw [IsNamed, openStruct_append]
  exact hnamed

theorem IsNamed.guard (hnamed : draft.IsNamed) (path : String) :
    (draft.apply (.guard path)).IsNamed := by
  rw [IsNamed, Draft.apply, modifyCurrent]
  split <;> exact hnamed

theorem IsNamed.appendAll {α : Type} (hnamed : draft.IsNamed) (toLine : α → Line) (list : List α) :
    (draft.applyAll (list.map fun a => .append (toLine a))).IsNamed := by
  induction list generalizing draft with
  | nil => exact hnamed
  | cons a list ih => exact ih (hnamed.append (toLine a))

theorem IsNamed.apply (hnamed : draft.IsNamed) {edit : Edit}
    (hallows : draft.Allows settings edit) : (draft.apply edit).IsNamed := by
  cases hallows with
  | append line => exact hnamed.append line
  | guard path => exact hnamed.guard path
  | closeBlock _ hopen =>
    rw [IsNamed, Draft.apply, hopen]
    exact hnamed
  | openStruct _ hidentifier =>
    rintro _ ⟨⟩
    exact ⟨hidentifier, by simp⟩
  | @addMember struct name hopen hidentifier _ type =>
    have happly : (draft.apply (.addMember (struct.struct.nextMember name type))).openStruct =
        some { struct with struct := struct.struct.push (struct.struct.nextMember name type) } := by
      simp [Draft.apply, hopen]
    rw [IsNamed, happly]
    rintro _ ⟨⟩
    exact (hnamed struct hopen).push hidentifier
  | closeStruct =>
    rintro _ ⟨⟩
  | _ => exact hnamed

end Draft

namespace Command

variable {settings : Settings} {draft : Draft} {site : Location} {args : List String}
  {edits : List Edit}

theorem isNamed_of_meaning (hnamed : draft.IsNamed) (hargs : ∀ arg ∈ args, arg ≠ "")
    (hmeaning : meaning settings draft site args = .ok edits) : (draft.applyAll edits).IsNamed := by
  obtain ⟨edit, texts, rfl, -, hallows⟩ := isEffect_of_meaning hargs hmeaning
  exact (hnamed.apply hallows).appendAll Line.expansion texts

theorem isLine_of_meaning (hnamed : draft.IsNamed)
    (hmeaning : meaning settings draft site args = .ok edits) {line : Line}
    (hline : .append line ∈ edits) : Text.IsLine line.text := by
  cases hasParts_meaning settings draft site args edits hmeaning _ hline with
  | quiet hnone => cases hnone
  | opening hidentifier =>
    have hname := Text.isLine_of_isIdentifier hidentifier
    simp only [Line.text, PackedStruct.openingLine, hname, Text.isLine_append, and_true]
    decide
  | @member struct typeToken name text type hopen hknown hidentifier htext =>
    have hname := Text.isLine_of_isIdentifier (hnamed struct hopen).name
    have hmember : Text.IsLine (struct.struct.nextMember name type).name :=
      Text.isLine_of_isIdentifier hidentifier
    exact PackedStruct.isLine_memberLines hname hmember (MemberType.isLine_of_ofToken? hknown) text
      htext
  | closing hopen htext => exact (hnamed _ hopen).isLine_closingLines _ htext

end Command

/-! ## Buffers that are ready for a line -/

namespace Buffer

/-- What a compiler sees of a buffer. -/
def texts (buffer : Buffer) : List String :=
  buffer.lines.toList.map Line.text

@[simp] theorem texts_push (buffer : Buffer) (line : Line) :
    (buffer.push line).texts = buffer.texts ++ [line.text] := by
  simp [texts]

/-- The lines of a buffer are one line each, and a tracker is right about every copied one, which
also has a given property. -/
structure Exact (property : String → Nat → String → Prop) (buffer : Buffer) : Prop where
  isLine : ∀ text ∈ buffer.texts, Text.IsLine text
  copied : ∀ position file number text,
    buffer.lines.toList[position]? = some (.copied file number text) →
      Origin.after (buffer.texts.take position) = some ⟨Line.quotablePath file, number⟩ ∧
        property file number text

variable {property : String → Nat → String → Prop} {buffer : Buffer}

theorem exact_empty : Exact property {} :=
  ⟨by simp [texts], by simp⟩

theorem Exact.push (hbuffer : buffer.Exact property) {line : Line} (hline : Text.IsLine line.text)
    (hcopied : ∀ file number text, line = .copied file number text →
      Origin.after buffer.texts = some ⟨Line.quotablePath file, number⟩ ∧
        property file number text) : (buffer.push line).Exact property := by
  refine ⟨?_, ?_⟩
  · rw [texts_push, List.forall_mem_append, List.forall_mem_singleton]
    exact ⟨hbuffer.isLine, hline⟩
  · intro position file number text hposition
    have hlength : buffer.texts.length = buffer.lines.toList.length := List.length_map _
    rw [toList_lines_push] at hposition
    rw [texts_push]
    obtain hbefore | hlast := Nat.lt_or_ge position buffer.lines.toList.length
    · rw [List.getElem?_append_left hbefore] at hposition
      rw [List.take_append_of_le_length (by omega)]
      exact hbuffer.copied position file number text hposition
    · rw [List.getElem?_append_right hlast, List.getElem?_singleton] at hposition
      split at hposition
      · cases hposition
        rw [List.take_append_of_le_length (by omega), List.take_of_length_le (by omega)]
        exact hcopied file number text rfl
      · cases hposition

/-- A line that is not copied can be pushed at any moment. -/
theorem Exact.push_made (hbuffer : buffer.Exact property) {line : Line}
    (hline : Text.IsLine line.text) (hmade : ∀ file number text, line ≠ .copied file number text) :
    (buffer.push line).Exact property :=
  hbuffer.push hline fun file number text heq => absurd heq (hmade file number text)

end Buffer

namespace Line

theorem isLine_marker (number : Nat) {file : String} (hfile : Text.IsLine file) :
    Text.IsLine (marker number file).text := by
  simp only [text, Text.isLine_repr, isLine_quotablePath hfile, Text.isLine_append, and_true]
  decide

theorem isLine_guardName (path : String) : Text.IsLine (guardName path) :=
  Text.isLine_append.mpr ⟨by decide, Text.isLine_repr _⟩

end Line

/-- All buffers of a draft are exact, and so will be the expansion of its open struct. -/
structure Draft.Exact (property : String → Nat → String → Prop) (draft : Draft) : Prop where
  buffers : draft.Holds (Buffer.Exact property)
  isNamed : draft.IsNamed

namespace Draft

variable {property : String → Nat → String → Prop} {draft : Draft} {settings : Settings}

theorem exact_empty : ({} : Draft).Exact property :=
  ⟨.empty Buffer.exact_empty, by simp [IsNamed]⟩

theorem Exact.append_made (hdraft : draft.Exact property) {line : Line}
    (hline : Text.IsLine line.text) (hmade : ∀ file number text, line ≠ .copied file number text) :
    (draft.apply (.append line)).Exact property :=
  ⟨hdraft.buffers.append (hdraft.buffers.current.push_made hline hmade),
    hdraft.isNamed.append line⟩

theorem Exact.guardOpening (hdraft : draft.Exact property) (path : String) :
    (draft.applyAll (Walk.guardOpening path)).Exact property := by
  have hopened : ((draft.apply (.append (.guardOpen path))).apply
      (.append (.guardDefine path))).Exact property := by
    refine (hdraft.append_made ?_ (by simp)).append_made ?_ (by simp)
    · exact Text.isLine_append.mpr ⟨by decide, Line.isLine_guardName path⟩
    · exact Text.isLine_append.mpr ⟨by decide, Line.isLine_guardName path⟩
  have hguarded : ∀ buffer : Buffer, buffer.Exact property →
      (buffer.guard path).Exact property := fun buffer hbuffer =>
    ⟨hbuffer.isLine, hbuffer.copied⟩
  exact ⟨hopened.buffers.guard (hguarded _ hopened.buffers.current),
    hopened.isNamed.guard path⟩

theorem Exact.guardClosing (hdraft : draft.Exact property) (once : Bool) :
    (draft.applyAll (Walk.guardClosing once)).Exact property := by
  cases once with
  | false => exact hdraft
  | true => exact hdraft.append_made (by decide) (by simp)

theorem Exact.command (hdraft : draft.Exact property) {site : Location} {args : List String}
    {edits : List Edit} (hargs : ∀ arg ∈ args, arg ≠ "")
    (hmeaning : Command.meaning settings draft site args = .ok edits) :
    (draft.applyAll edits).Exact property := by
  refine ⟨hdraft.buffers.applyAll ?_ (Command.guard_notMem_of_meaning hmeaning),
    Command.isNamed_of_meaning hdraft.isNamed hargs hmeaning⟩
  intro line hline buffer hbuffer
  obtain ⟨text, rfl⟩ := Command.exists_expansion_of_meaning hmeaning hline
  exact hbuffer.push_made (Command.isLine_of_meaning hdraft.isNamed hmeaning hline) (by simp)

/-- A draft whose current buffer expects a certain line of a file. -/
structure Ready (property : String → Nat → String → Prop) (draft : Draft) (file : String)
    (number : Nat) : Prop extends draft.Exact property where
  expects : Origin.after draft.current.texts = some ⟨Line.quotablePath file, number⟩

/-- A marker makes a draft ready. -/
theorem Exact.ready (hdraft : draft.Exact property) (hmarkers : settings.lineMarkers = true)
    {file : String} (hfile : Text.IsLine file) (number : Nat) :
    (draft.applyAll (Walk.markers settings number file)).Ready property file number := by
  rw [Walk.markers, if_pos hmarkers]
  refine ⟨hdraft.append_made (Line.isLine_marker number hfile) (by simp), ?_⟩
  rw [applyAll_cons, applyAll_nil, apply, current_modifyCurrent, Buffer.texts_push,
    Origin.after_concat, Origin.next, Line.ofMarker?_marker]

/-- A line that is copied when it is expected makes the draft ready for the line after it. -/
theorem Ready.copy {file text : String} {number : Nat} (hready : draft.Ready property file number)
    (hline : Text.IsLine text) (hmarker : Origin.ofMarker? text = none)
    (hproperty : property file number text) :
    (draft.apply (.append (.copied file number text))).Ready property file (number + 1) := by
  refine ⟨⟨hready.buffers.append (hready.buffers.current.push hline ?_),
    hready.isNamed.append _⟩, ?_⟩
  · rintro _ _ _ ⟨⟩
    exact ⟨hready.expects, hproperty⟩
  · rw [apply, current_modifyCurrent, Buffer.texts_push, Origin.after_concat, Origin.next,
      Line.text, hmarker, hready.expects]
    rfl

end Draft

/-! ## The main result -/

section

variable {κ : Type} {promise : Event κ → Prop} {property : String → Nat → String → Prop}

/-- What is known of the answers of a provider: resolved paths are lines, and the lines of each
file are no markers and have a given property, by their numbers. -/
structure MarkableAnswers (promise : Event κ → Prop) (property : String → Nat → String → Prop) :
    Prop where
  resolve : ∀ path context target, promise (.resolve path context (.ok target)) →
    Text.IsLine target.path
  fetch : ∀ path depth text, promise (.fetch path depth (.ok text)) →
    ∀ offset line, (Text.lines text)[offset]? = some line →
      Origin.ofMarker? line = none ∧ property path (1 + offset) line

theorem Course.exact (hanswers : MarkableAnswers promise property) {settings : Settings}
    (hmarkers : settings.lineMarkers = true) {room : Nat} {file : Target κ} {number : Nat}
    {once after : Bool} {lines : List String} {draft last : Draft}
    (course : Course settings promise room file number once lines draft after last)
    (hfile : Text.IsLine file.path) (hisLine : ∀ line ∈ lines, Text.IsLine line)
    (hlines : ∀ offset line, lines[offset]? = some line →
      Origin.ofMarker? line = none ∧ property file.path (number + offset) line)
    (hready : draft.Ready property file.path number) : last.Exact property := by
  have hlater : ∀ {file : Target κ} {number : Nat} {line : String} {lines : List String},
      (∀ offset text, (line :: lines)[offset]? = some text →
        Origin.ofMarker? text = none ∧ property file.path (number + offset) text) →
      ∀ offset text, lines[offset]? = some text →
        Origin.ofMarker? text = none ∧ property file.path (number + 1 + offset) text := by
    intro file number line lines hlines offset text htext
    have hnumber : number + 1 + offset = number + (offset + 1) := by omega
    rw [hnumber]
    exact hlines (offset + 1) text htext
  induction course with
  | done => exact hready.toExact
  | plain _ _ ih =>
    obtain ⟨hmarker, hproperty⟩ := hlines 0 _ rfl
    obtain ⟨hline, hrest⟩ := List.forall_mem_cons.mp hisLine
    exact ih hfile hrest (hlater hlines) (hready.copy hline hmarker hproperty)
  | once _ _ ih =>
    rw [Draft.applyAll_append] at ih
    exact ih hfile (List.forall_mem_cons.mp hisLine).2 (hlater hlines)
      ((hready.toExact.guardOpening _).ready hmarkers hfile _)
  | command hline hmeaning _ ih =>
    rw [Draft.applyAll_append] at ih
    have hdone := hready.toExact.command (Directive.ne_empty_of_ofLine hline) hmeaning
    exact ih hfile (List.forall_mem_cons.mp hisLine).2 (hlater hlines)
      (hdone.ready hmarkers hfile _)
  | leftOut _ _ _ _ ih =>
    exact ih hfile (List.forall_mem_cons.mp hisLine).2 (hlater hlines)
      (hready.toExact.ready hmarkers hfile _)
  | included _ hresolved _ hfetched _ _ ihInner ihRest =>
    rw [Draft.applyAll_append] at ihRest
    have htarget := hanswers.resolve _ _ _ hresolved
    have hmiddle := ihInner htarget (fun line => Text.isLine_of_mem_lines)
      (hanswers.fetch _ _ _ hfetched) (hready.toExact.ready hmarkers htarget 1)
    exact ihRest hfile (List.forall_mem_cons.mp hisLine).2 (hlater hlines)
      ((hmiddle.guardClosing _).ready hmarkers hfile _)

end

end Ubershader
