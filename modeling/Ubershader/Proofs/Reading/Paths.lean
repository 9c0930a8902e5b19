import Ubershader.Proofs.Directive
import Ubershader.Proofs.Reading.Visits
import Ubershader.Proofs.Tokens

/-!
# Paths as they are written

A path is written between quotes or between angle brackets, and is put together again from the
tokens of its line. So it comes out as it is written if its blanks are single spaces, none of which
stands in front of the start of a comment (`Text.IsTight`). The provider is then asked for exactly
that path, in the context that it has given for the file that the line is in, also after other files
have been included in between.
-/

namespace Ubershader

namespace Text

/-- Every run but one at the very start of a text has a blank in front of it. -/
theorem exists_isBlank_of_mem_runs {cs run : List Char}
    (hrun : run ∈ if startsRun cs then (runs cs).tail else runs cs) :
    ∃ c, isBlank c = true ∧ c :: run <:+: cs := by
  induction cs generalizing run with
  | nil => cases hrun
  | cons c cs ih =>
    have hlater : (∃ d, isBlank d = true ∧ d :: run <:+: cs) →
        ∃ d, isBlank d = true ∧ d :: run <:+: c :: cs := by
      rintro ⟨d, hd, hpiece⟩
      exact ⟨d, hd, hpiece.trans (List.suffix_cons c cs).isInfix⟩
    cases hc : isBlank c with
    | true =>
      have hafter : run ∈ runs cs := by simpa [startsRun, hc, runs_cons_of_isBlank hc] using hrun
      cases hstarts : startsRun cs with
      | false => exact hlater (ih (by simpa [hstarts] using hafter))
      | true =>
        obtain ⟨first, rest, hruns⟩ := exists_runs_eq_cons hstarts
        rw [hruns] at hafter
        obtain rfl | hrest := List.mem_cons.mp hafter
        · have hfirst := head_runs_prefix hstarts hruns
          exact ⟨c, hc, (List.cons_prefix_cons.mpr ⟨rfl, hfirst⟩).isInfix⟩
        · exact hlater (ih (by simpa [hstarts, hruns] using hrest))
    | false =>
      cases hstarts : startsRun cs with
      | false =>
        have htail : run ∈ runs cs := by
          simpa [startsRun, hc, runs_cons_of_not_startsRun hc hstarts] using hrun
        exact hlater (ih (by simpa [hstarts] using htail))
      | true =>
        obtain ⟨first, rest, hruns⟩ := exists_runs_eq_cons hstarts
        have htail : run ∈ rest := by
          simpa [startsRun, hc, runs_cons_of_startsRun hc hstarts hruns] using hrun
        exact hlater (ih (by simpa [hstarts, hruns] using htail))

/-- A text whose blanks are single spaces, none of which stands in front of the start of a
comment. -/
structure IsTight (text : String) : Prop where
  noTab : '\t' ∉ text.toList
  single : ¬ [' ', ' '] <:+: text.toList
  noLineComment : ¬ [' ', '/', '/'] <:+: text.toList
  noBlockComment : ¬ [' ', '/', '*'] <:+: text.toList

end Text

namespace Directive

/-- The two pairs of delimiters of a path. -/
inductive Delimits : (opening closing : Char) → Prop
  | quotes : Delimits '"' '"'
  | brackets : Delimits '<' '>'

def delimited (opening : Char) (path : String) (closing : Char) : List Char :=
  opening :: (path.toList ++ [closing])

/-- A line that includes a path. The hash sign may stand alone in front of the keyword, the path may
be attached to the keyword, and there may be blanks and then a comment at the end. -/
inductive Includes (path line : String) : Prop
  | intro {indent gap space trailer : List Char} {opening closing : Char}
      (indentation : ∀ c ∈ indent, Text.isBlank c = true)
      (hashGap : ∀ c ∈ gap, Text.isBlank c = true)
      (pathSpace : ∀ c ∈ space, Text.isBlank c = true)
      (delimits : Delimits opening closing)
      (separate : Text.startsRun trailer = false)
      (comment : Text.IsComment ((Text.runs trailer).map String.ofList))
      (written : line.toList = indent ++ '#' :: (gap ++ ("include".toList ++
        (space ++ (delimited opening path closing ++ trailer)))))

section

variable {path : String} {opening closing : Char}

theorem isBlank_opening (hdelimits : Delimits opening closing) : Text.isBlank opening = false := by
  cases hdelimits <;> rfl

theorem isBlank_closing (hdelimits : Delimits opening closing) : Text.isBlank closing = false := by
  cases hdelimits <;> rfl

/-- A piece of a delimited path that touches no delimiter is a piece of the path. -/
theorem isInfix_of_delimited {first last : Char} (middle : List Char)
    (hpiece : first :: (middle ++ [last]) <:+: delimited opening path closing)
    (hfirst : first ≠ opening) (hlast : last ≠ closing) :
    first :: (middle ++ [last]) <:+: path.toList := by
  rw [delimited, List.infix_cons_iff] at hpiece
  obtain hstart | hinside := hpiece
  · exact absurd (List.cons_prefix_cons.mp hstart).1 hfirst
  · rw [List.infix_concat_iff] at hinside
    obtain hend | hinside := hinside
    · rw [← List.cons_append] at hend
      obtain ⟨front, hfront⟩ := hend
      rw [← List.append_assoc] at hfront
      exact absurd (List.append_inj_right' hfront rfl) (by simpa using hlast)
    · exact hinside

/-- The text between the delimiters is the path, unless it is empty. -/
theorem path?_delimited (hdelimits : Delimits opening closing) (hpath : path ≠ "") :
    path? (String.ofList (delimited opening path closing)) = some path := by
  cases hdelimits with
  | quotes => simp [path?, between?, delimited, hpath]
  | brackets => simp [path?, between?, delimited, hpath]

variable (hdelimits : Delimits opening closing) (htight : Text.IsTight path)
include hdelimits htight

theorem isSpaced_delimited : Text.IsSpaced (delimited opening path closing) where
  noTab := by
    intro hmem
    have htab : '\t' ∉ path.toList := htight.noTab
    cases hdelimits <;> simp [delimited, htab] at hmem
  single := by
    intro hpiece
    refine htight.single (isInfix_of_delimited [] hpiece ?_ ?_)
    · cases hdelimits <;> decide
    · cases hdelimits <;> decide
  last := by
    intro c hc
    rw [delimited, ← List.cons_append, List.getLast?_concat] at hc
    cases hc
    exact isBlank_closing hdelimits

/-- No token of a delimited path opens a comment. -/
theorem opensComment_eq_false {run : List Char}
    (hrun : run ∈ Text.runs (delimited opening path closing)) :
    Text.opensComment (String.ofList run) = false := by
  have hnoPiece : ∀ second, second ≠ closing →
      ¬ [' ', '/', second] <:+: path.toList → ∀ rest, run ≠ '/' :: second :: rest := by
    rintro second hsecond hnone rest rfl
    have hstarts : Text.startsRun (delimited opening path closing) = true := by
      simp [delimited, Text.startsRun, isBlank_opening hdelimits]
    obtain ⟨first, others, hruns⟩ := Text.exists_runs_eq_cons hstarts
    rw [hruns] at hrun
    obtain rfl | hlater := List.mem_cons.mp hrun
    · have hfirst := (List.cons_prefix_cons.mp (Text.head_runs_prefix hstarts hruns)).1
      cases hdelimits <;> cases hfirst
    · have htail : '/' :: second :: rest ∈ if Text.startsRun (delimited opening path closing)
          then (Text.runs (delimited opening path closing)).tail
          else Text.runs (delimited opening path closing) := by
        rw [if_pos hstarts, hruns]
        exact hlater
      obtain ⟨c, hc, hpiece⟩ := Text.exists_isBlank_of_mem_runs htail
      have htab : c ≠ '\t' := by
        rintro rfl
        exact (isSpaced_delimited hdelimits htight).noTab (hpiece.subset (by simp))
      rw [Text.eq_space_of_isBlank hc htab] at hpiece
      have hstart : ' ' :: (['/'] ++ [second]) <:+: delimited opening path closing :=
        (List.prefix_append [' ', '/', second] rest).isInfix.trans hpiece
      exact hnone (isInfix_of_delimited _ hstart (by cases hdelimits <;> decide) hsecond)
  rw [Text.opensComment, String.toList_ofList]
  split
  · next rest =>
    exact absurd rfl (hnoPiece '/' (by cases hdelimits <;> decide) htight.noLineComment rest)
  · next rest =>
    exact absurd rfl (hnoPiece '*' (by cases hdelimits <;> decide) htight.noBlockComment rest)
  · rfl

/-- The tokens of a delimited path, put together again, are the delimited path. -/
theorem intercalate_delimited :
    " ".intercalate ((Text.runs (delimited opening path closing)).map String.ofList) =
      String.ofList (delimited opening path closing) := by
  have hruns := Text.intercalate_runs (isSpaced_delimited hdelimits htight)
  have hkept : (delimited opening path closing).dropWhile Text.isBlank =
      delimited opening path closing :=
    List.dropWhile_cons_of_neg (by simp [isBlank_opening hdelimits])
  rw [hkept] at hruns
  rw [← String.toList_inj, String.toList_intercalate, String.toList_ofList]
  simpa [Function.comp_def] using hruns

end

/-! ## Lines -/

/-- What stands behind the hash sign of a line is its keyword with the tokens after it. -/
theorem keyword?_of_hash {indent gap body run : List Char} {rest : List (List Char)}
    (hindent : ∀ c ∈ indent, Text.isBlank c = true) (hgap : ∀ c ∈ gap, Text.isBlank c = true)
    (hstarts : Text.startsRun body = true) (hruns : Text.runs body = run :: rest) :
    keyword? ((Text.runs (indent ++ '#' :: (gap ++ body))).map String.ofList) =
      some (String.ofList run, rest.map String.ofList) := by
  rw [Text.runs_append_of_blanks hindent]
  cases gap with
  | nil =>
    have hne : run ≠ [] := Text.ne_nil_of_mem_runs (by simp [hruns] : run ∈ Text.runs body)
    have hhash : String.ofList ('#' :: run) ≠ "#" := by
      intro heq
      exact hne (by simpa using congrArg String.toList heq)
    rw [List.nil_append, Text.runs_cons_of_startsRun rfl hstarts hruns, List.map_cons]
    simp only [keyword?, if_neg hhash]
    simp [remainder?, List.isPrefixOf?]
  | cons c gap =>
    obtain ⟨hc, hlater⟩ := List.forall_mem_cons.mp hgap
    rw [Text.runs_cons_of_not_startsRun rfl (by simp [Text.startsRun, hc]), List.cons_append,
      Text.runs_cons_of_isBlank hc, Text.runs_append_of_blanks hlater, hruns]
    rfl

/-- What is attached to the keyword and the tokens after it make up the delimited path. -/
theorem exists_runs_include {path : String} {space trailer : List Char} {opening closing : Char}
    (hspace : ∀ c ∈ space, Text.isBlank c = true) (hdelimits : Delimits opening closing)
    (hseparate : Text.startsRun trailer = false)
    (hcomment : Text.IsComment ((Text.runs trailer).map String.ofList))
    (htight : Text.IsTight path) :
    ∃ attached rest, Text.runs ("include".toList ++
        (space ++ (delimited opening path closing ++ trailer))) =
          ("include".toList ++ attached) :: rest ∧
      startsLiteral (String.ofList attached) = true ∧
      literal (String.ofList attached) (rest.map String.ofList) =
        String.ofList (delimited opening path closing) := by
  have hword : ∀ c ∈ "include".toList, Text.isBlank c = false := by simp [Text.isBlank]
  have hstarts : Text.startsRun (delimited opening path closing) = true := by
    simp [delimited, Text.startsRun, isBlank_opening hdelimits]
  have hruns := Text.runs_append hseparate (delimited opening path closing)
  have hplain : ∀ token ∈ (Text.runs (delimited opening path closing)).map String.ofList,
      Text.opensComment token = false := by
    intro token htoken
    obtain ⟨run, hrun, rfl⟩ := List.mem_map.mp htoken
    exact opensComment_eq_false hdelimits htight hrun
  have hjoined := intercalate_delimited hdelimits htight
  cases space with
  | nil =>
    obtain ⟨first, others, hfirst⟩ := Text.exists_runs_eq_cons hstarts
    have hhead := Text.head_runs_prefix hstarts hfirst
    rw [hfirst, List.cons_append] at hruns
    rw [hfirst, List.map_cons, List.forall_mem_cons] at hplain
    rw [hfirst, List.map_cons] at hjoined
    have hmem : first ∈ Text.runs (delimited opening path closing) := by
      rw [hfirst]
      exact List.mem_cons_self
    have hne : first ≠ [] := Text.ne_nil_of_mem_runs hmem
    refine ⟨first, others ++ Text.runs trailer,
      Text.runs_append_of_startsRun hword hstarts hruns, ?_, ?_⟩
    · cases first with
      | nil => exact absurd rfl hne
      | cons c first =>
        have hc := (List.cons_prefix_cons.mp hhead).1
        cases hdelimits <;> simp [startsLiteral, hc]
    · have hattached : String.ofList first ≠ "" := by
        intro hempty
        exact hne (by simpa using congrArg String.toList hempty)
      rw [literal, if_neg hattached, List.map_append,
        Text.beforeComment_append hplain.2 hcomment]
      exact hjoined
  | cons c space =>
    have hblank : Text.isBlank c = true := hspace c List.mem_cons_self
    refine ⟨[], Text.runs (delimited opening path closing) ++ Text.runs trailer, ?_, rfl, ?_⟩
    · rw [Text.runs_append (by simp [Text.startsRun, hblank]), Text.runs_word hword (by decide),
        Text.runs_append_of_blanks hspace, hruns]
      rfl
    · rw [literal, if_pos rfl, List.map_append, List.nil_append,
        Text.beforeComment_append hplain hcomment]
      exact hjoined

/-- A line that includes a path asks for that path, if the path is tight. -/
theorem ofLine_of_includes {path line : String} (hline : Includes path line) (hpath : path ≠ "")
    (htight : Text.IsTight path) : ofLine line = .inclusion (some path) := by
  obtain ⟨hindent, hgap, hspace, hdelimits, hseparate, hcomment, hwritten⟩ := hline
  obtain ⟨attached, rest, hruns, hstarts, hliteral⟩ :=
    exists_runs_include hspace hdelimits hseparate hcomment htight
  have hmentioned : isMentioned line = true := by
    have hpiece : "include".toList <:+: line.toList := by
      rw [hwritten]
      exact ((List.prefix_append _ _).isInfix.trans (List.suffix_append _ _).isInfix).trans
        ((List.suffix_cons '#' _).trans (List.suffix_append _ _)).isInfix
    rw [isMentioned, Text.occurs_iff_isInfix.mpr hpiece, Bool.or_true]
  have hkeyword : keyword? (Text.tokens line) =
      some (String.ofList ("include".toList ++ attached), rest.map String.ofList) := by
    rw [Text.tokens, hwritten]
    exact keyword?_of_hash hindent hgap rfl hruns
  have hremainder : remainder? "include" (String.ofList ("include".toList ++ attached)) =
      some (String.ofList attached) := by
    simp [remainder?, List.isPrefixOf?]
  rw [ofLine, if_pos hmentioned, ofTokens, hkeyword]
  dsimp only
  rw [hremainder]
  dsimp only
  rw [if_pos hstarts, hliteral, path?_delimited hdelimits hpath]

end Directive

/-! ## Questions to the provider -/

section

variable {σ κ α : Type} {settings : Settings} {provider : Provider σ κ} {entry : String}
  {context : κ} {world : σ}

theorem Walk.journal_of_run_ask {path : String} {question : σ → Except String α × σ}
    {event : Except String α → Event κ} {session last : Session σ κ} {a : α}
    (hrun : (Walk.ask path question event).run session = .ok a last) :
    last.journal.toList = session.journal.toList ++ [event (.ok a)] := by
  obtain ⟨hanswer, -⟩ := Walk.of_run_ask hrun
  rw [← Walk.endSession_of_run hrun, Walk.endSession_ask, hanswer, Array.toList_push]

/-- With room for it, the visit of a file starts by asking for its path. -/
theorem Walk.isPrefix_resolve (room : Nat) (site : Location) (path : String) (place : κ)
    (session : Session σ κ) :
    ((Walk.resolve provider path place).endSession session).journal.toList <+:
      ((Walk.visit settings provider (room + 1) site path place).endSession
        session).journal.toList := by
  have steps := Walk.stepRelation_isPrefix settings provider
  refine Walk.isPrefix_bind _ (fun file => ?_) session
  refine steps.respects_bind steps.respects_get fun session => ?_
  split
  · exact steps.record _ rfl rfl
  · exact steps.respects_bind (steps.fetch _ _) fun text =>
      steps.respects_readFile (steps.respects_visit room) file text

variable {room : Nat} {file : Target κ} {front back : List String} {once : Bool}
  {session : Session σ κ}

/-- A file whose lines are reached was found for a path, and then its text was fetched. -/
theorem Reached.exists_events
    (reached : Reached settings provider entry context world room file front back once session) :
    ∃ start written place text,
      session.journal.toList[start]? = some (.resolve written place (.ok file)) ∧
      session.journal.toList[start + 1]? =
        some (.fetch file.path (settings.maxIncludeDepth.toNat - room) (.ok text)) ∧
      Text.lines text = front ++ back := by
  cases reached with
  | @intro site written place before resolved fetched _ _ text _ _ _ _ hresolve _ hfetch hlines
      hreach =>
    have steps := Walk.stepRelation_isPrefix settings provider
    have hkept := steps.respects_bind (steps.respects_mark 1 file.path) (fun _ =>
      steps.respects_readLines (steps.respects_visit room) file 1 false front) fetched
    rw [Walk.endSession_of_run hreach, Walk.journal_of_run_ask hfetch,
      Walk.journal_of_run_ask hresolve, List.append_assoc] at hkept
    obtain ⟨more, hmore⟩ := hkept
    refine ⟨before.journal.toList.length, written, place, text, ?_, ?_, hlines⟩
    · rw [← hmore]
      simp
    · rw [← hmore]
      simp

/-- The provider is asked for the path that is written. If a reading has come to a line that
includes a tight path, in a file that has room for another one, then its next event is the question
for exactly this path, in the context that the provider has given for the file that the line is
in. -/
theorem exists_resolve_of_includes {path line : String}
    (reached : Reached settings provider entry context world (room + 1) file front (line :: back)
      once session) (hline : Directive.Includes path line) (hpath : path ≠ "")
    (htight : Text.IsTight path) :
    let journal := (read settings provider entry context world).session.journal.toList
    ∃ start written place text answer,
      journal[start]? = some (.resolve written place (.ok file)) ∧
      journal[start + 1]? =
        some (.fetch file.path (settings.maxIncludeDepth.toNat - (room + 1)) (.ok text)) ∧
      Text.lines text = front ++ line :: back ∧ start + 1 < session.journal.size ∧
      journal[session.journal.size]? = some (.resolve path file.context answer) := by
  intro journal
  obtain ⟨start, written, place, text, hresolved, hfetched, hlines⟩ := reached.exists_events
  have hdirective := Directive.ofLine_of_includes hline hpath htight
  have hasked := (Walk.isPrefix_resolve room _ path file.context session).trans
    (reached.visited hdirective).isPrefix
  rw [Walk.resolve, Walk.endSession_ask, Array.toList_push] at hasked
  obtain ⟨more, hmore⟩ := hasked
  have hjournal : journal = _ := hmore.symm
  have hbefore : start + 1 < session.journal.toList.length :=
    (List.getElem?_eq_some_iff.mp hfetched).1
  refine ⟨start, written, place, text, (provider.resolve path file.context session.world).1, ?_, ?_,
    hlines, hbefore, ?_⟩
  · rw [hjournal, List.append_assoc, List.getElem?_append_left (by omega), hresolved]
  · rw [hjournal, List.append_assoc, List.getElem?_append_left hbefore, hfetched]
  · rw [hjournal, List.append_assoc, ← Array.length_toList,
      List.getElem?_append_right (Nat.le_refl _), Nat.sub_self]
    rfl

end

/-- A file in a directory that includes two others. -/
def twoInclusions : Catalog where
  files :=
    [("dir/main", "#include \"a\"\n# include<b c> // last\n"), ("dir/a", "int a;\n"),
     ("dir/b c", "int b;\n")]
  relative := true

theorem exists_resolve_of_includes_twoInclusions :
    let line := "# include<b c> // last"
    ∃ once session, Reached {} twoInclusions.provider "dir/main" "" () (7 + 1) ⟨"dir/main", "dir"⟩
        ["#include \"a\""] [line] once session ∧
      Directive.Includes "b c" line ∧ Text.IsTight "b c" ∧
      ∃ answer, (read {} twoInclusions.provider "dir/main" ""
        ()).session.journal.toList[session.journal.size]? = some (.resolve "b c" "dir" answer) := by
  intro line
  have hcheck : (match (Walk.mark {} 1 "dir/main" >>= fun _ => Walk.readLines {}
      (Walk.visit {} twoInclusions.provider 8) (⟨"dir/main", "dir"⟩ : Target String) 1 false
      ["#include \"a\""]).run ((Walk.fetch twoInclusions.provider "dir/main" 0).endSession
        ((Walk.resolve twoInclusions.provider "dir/main" "").endSession { world := () })) with
      | .ok _ _ => true
      | .error _ _ => false) = true := by
    decide +kernel
  split at hcheck
  · next once session hreach =>
    have visited : Visited {} twoInclusions.provider "dir/main" "" () (8 + 1) ⟨"dir/main", 0, ""⟩
        "dir/main" "" { world := () } := .entry
    have hlines : Text.lines "#include \"a\"\n# include<b c> // last\n" =
        ["#include \"a\""] ++ [line] := by
      decide +kernel
    have reached : Reached {} twoInclusions.provider "dir/main" "" () (7 + 1) ⟨"dir/main", "dir"⟩
        ["#include \"a\""] [line] once session :=
      .intro visited rfl rfl rfl hlines hreach
    have hcomment : (Text.runs " // last".toList).map String.ofList = ["//", "last"] := by
      decide +kernel
    have hwritten : Directive.Includes "b c" line :=
      @Directive.Includes.intro "b c" line [] [' '] [] " // last".toList '<' '>' (by simp)
        (by simp [Text.isBlank]) (by simp) .brackets rfl (by rw [hcomment]; rfl) (by decide +kernel)
    have htight : Text.IsTight "b c" :=
      ⟨by decide +kernel, by decide +kernel, by decide +kernel, by decide +kernel⟩
    obtain ⟨_, _, _, _, answer, -, -, -, -, hasked⟩ :=
      exists_resolve_of_includes reached hwritten (by decide) htight
    exact ⟨once, session, reached, hwritten, htight, answer, hasked⟩
  · cases hcheck

/-- A path with a tab, with two blanks one after the other, or with the start of a comment behind a
blank is not what the provider is asked for, and neither is one with a comment attached to its
closing delimiter. -/
theorem forall_includes_and_not_resolved :
    (["a //b", "a /*b", "a  b", "a\tb"].Forall fun path =>
      let line := "#include \"" ++ path ++ "\""
      Directive.Includes path line ∧
        Call.resolve path "" ∉
          (read {} (Catalog.provider { files := [("main", line)] }) "main" "" ()).calls) ∧
      Call.resolve "a" "" ∉
        (read {} (Catalog.provider { files := [("main", "#include \"a\"// b")] }) "main" ""
          ()).calls := by
  rw [List.forall_iff_forall_mem]
  refine ⟨fun path hpath => ⟨?_, ?_⟩, by decide +kernel⟩
  · exact @Directive.Includes.intro path _ [] [] [' '] [] '"' '"' (by simp) (by simp)
      (by simp [Text.isBlank]) .quotes rfl trivial (by simp [Directive.delimited])
  · have hcheck : ∀ path ∈ ["a //b", "a /*b", "a  b", "a\tb"], Call.resolve path "" ∉
        (read {} (Catalog.provider { files := [("main", "#include \"" ++ path ++ "\"")] }) "main" ""
          ()).calls := by
      decide +kernel
    exact hcheck path hpath

end Ubershader
