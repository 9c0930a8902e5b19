import Ubershader.Proofs.Tokens

/-!
# Tokens are the maximal runs of a line

A line is a *layout* of words: some blanks in front, and behind each word the blanks up to the next
one, at least one of them. Every line can be seen so (`exists_layout`), and the tokens are the words
(`Layout.tokens_text`), so what there is to say about tokens is said about layouts, piece by piece.

`IsMaximalRun` says by positions alone what a maximal run is. The words of a layout stand at its
maximal runs, in order, and no maximal run is left out (`Layout.mem_spans_iff`).
-/

namespace Ubershader.Text

/-! ## Cutting at blanks -/

/-- The runs are what is left of cutting at every single blank, without the empty pieces. -/
theorem runs_eq_filter_splitOnP (cs : List Char) :
    runs cs = (cs.splitOnP isBlank).filter (· ≠ []) := by
  induction cs with
  | nil => rfl
  | cons c cs ih =>
    cases hc : isBlank c with
    | true => simp [runs_cons_of_isBlank hc, List.splitOnP_cons_eq_if_modifyHead, hc, ih]
    | false =>
      rw [List.splitOnP_cons_eq_if_modifyHead, if_neg (by simp [hc])]
      cases cs with
      | nil => simp [runs_cons_of_not_startsRun hc (rfl : startsRun [] = false)]
      | cons d cs =>
        rw [List.splitOnP_cons_eq_if_modifyHead] at ih ⊢
        cases hd : isBlank d with
        | true =>
          have hstarts : startsRun (d :: cs) = false := by simp [startsRun, hd]
          rw [runs_cons_of_not_startsRun hc hstarts, ih]
          simp [hd]
        | false =>
          have hstarts : startsRun (d :: cs) = true := by simp [startsRun, hd]
          obtain ⟨first, others, hpieces⟩ : ∃ first others, cs.splitOnP isBlank = first :: others :=
            List.exists_cons_of_ne_nil (List.splitOnP_ne_nil isBlank cs)
          have hruns : runs (d :: cs) = (d :: first) :: others.filter (· ≠ []) := by
            simpa [hd, hpieces] using ih
          rw [runs_cons_of_startsRun hc hstarts hruns]
          simp [hpieces]

/-! ## Layouts -/

/-- A word, with the blanks behind it. -/
structure Piece where
  word : List Char
  gap : List Char
  word_ne_nil : word ≠ []
  word_solid : ∀ c ∈ word, isBlank c = false
  gap_blank : ∀ c ∈ gap, isBlank c = true

def Piece.chars (piece : Piece) : List Char :=
  piece.word ++ piece.gap

@[simp] theorem Piece.length_chars (piece : Piece) :
    piece.chars.length = piece.word.length + piece.gap.length :=
  List.length_append

/-- Each word has a blank behind it, except perhaps the last one. -/
def Apart (pieces : List Piece) : Prop :=
  ∀ piece ∈ pieces.dropLast, piece.gap ≠ []

theorem apart_cons {piece : Piece} {pieces : List Piece} :
    Apart (piece :: pieces) ↔ (pieces ≠ [] → piece.gap ≠ []) ∧ Apart pieces := by
  cases pieces <;> simp [Apart]

/-- Words with blanks around them, and at least one blank between any two of them. Without that
blank two words would be read as one. -/
structure Layout where
  lead : List Char
  pieces : List Piece
  lead_blank : ∀ c ∈ lead, isBlank c = true
  apart : Apart pieces

namespace Layout

def chars (layout : Layout) : List Char :=
  layout.lead ++ layout.pieces.flatMap Piece.chars

def text (layout : Layout) : String :=
  String.ofList layout.chars

def words (layout : Layout) : List String :=
  layout.pieces.map fun piece => String.ofList piece.word

end Layout

/-- Every text can be seen as a layout. -/
theorem exists_layout (cs : List Char) : ∃ layout : Layout, layout.chars = cs := by
  induction cs with
  | nil => exact ⟨⟨[], [], by simp, by simp [Apart]⟩, rfl⟩
  | cons c cs ih =>
    obtain ⟨⟨lead, pieces, hlead, hapart⟩, rfl⟩ := ih
    cases hc : isBlank c with
    | true => exact ⟨⟨c :: lead, pieces, List.forall_mem_cons.mpr ⟨hc, hlead⟩, hapart⟩, rfl⟩
    | false =>
      -- The character is a word of its own, unless the first word follows it directly.
      have halone : (pieces ≠ [] → lead ≠ []) →
          ∃ layout : Layout, layout.chars = c :: (lead ++ pieces.flatMap Piece.chars) := by
        intro hgap
        exact ⟨⟨[], ⟨[c], lead, by simp, by simpa using hc, hlead⟩ :: pieces, by simp,
          apart_cons.mpr ⟨hgap, hapart⟩⟩, rfl⟩
      cases lead with
      | cons d lead => exact halone fun _ => by simp
      | nil =>
        cases pieces with
        | nil => exact halone fun hne => absurd rfl hne
        | cons piece pieces =>
          obtain ⟨word, gap, hne, hsolid, hblank⟩ := piece
          obtain ⟨hgap, hlater⟩ := apart_cons.mp hapart
          exact ⟨⟨[], ⟨c :: word, gap, by simp, List.forall_mem_cons.mpr ⟨hc, hsolid⟩, hblank⟩ ::
            pieces, by simp, apart_cons.mpr ⟨hgap, hlater⟩⟩, rfl⟩

/-- Behind a word there is a blank, or the end of the text. -/
theorem startsRun_behind {piece : Piece} {pieces : List Piece} (hapart : Apart (piece :: pieces)) :
    startsRun (piece.gap ++ pieces.flatMap Piece.chars) = false := by
  cases hgap : piece.gap with
  | cons c gap => simp [startsRun, piece.gap_blank c (by simp [hgap])]
  | nil =>
    cases pieces with
    | nil => rfl
    | cons next pieces => exact absurd hgap ((apart_cons.mp hapart).1 (by simp))

theorem runs_flatMap_chars {pieces : List Piece} (hapart : Apart pieces) :
    runs (pieces.flatMap Piece.chars) = pieces.map Piece.word := by
  induction pieces with
  | nil => rfl
  | cons piece pieces ih =>
    have hrest := ih (apart_cons.mp hapart).2
    calc runs (piece.chars ++ pieces.flatMap Piece.chars)
        = runs (piece.word ++ (piece.gap ++ pieces.flatMap Piece.chars)) := by
          rw [Piece.chars, List.append_assoc]
      _ = runs piece.word ++ runs (piece.gap ++ pieces.flatMap Piece.chars) :=
          runs_append (startsRun_behind hapart) piece.word
      _ = [piece.word] ++ pieces.map Piece.word := by
          rw [runs_word piece.word_solid piece.word_ne_nil,
            runs_append_of_blanks piece.gap_blank, hrest]

namespace Layout

theorem runs_chars (layout : Layout) : runs layout.chars = layout.pieces.map Piece.word :=
  (runs_append_of_blanks layout.lead_blank _).trans (runs_flatMap_chars layout.apart)

/-- Laid out and cut into tokens again, words are the same. -/
theorem tokens_text (layout : Layout) : tokens layout.text = layout.words := by
  simp [tokens, text, words, runs_chars]

end Layout

/-! ## Single tokens -/

/-- The first run of a text that starts inside of one is at its very start. -/
theorem head_runs_prefix {cs run : List Char} {rest : List (List Char)}
    (hstarts : startsRun cs = true) (hruns : runs cs = run :: rest) : run <+: cs := by
  obtain ⟨layout, rfl⟩ := exists_layout cs
  obtain ⟨piece, pieces, hpieces, rfl, -⟩ := List.map_eq_cons_iff.mp (layout.runs_chars ▸ hruns)
  have hlead : layout.lead = [] := by
    cases hlead : layout.lead with
    | nil => rfl
    | cons c lead =>
      have hblank := layout.lead_blank c (by simp [hlead])
      simp [Layout.chars, hlead, startsRun, hblank] at hstarts
  simp [Layout.chars, hlead, hpieces, Piece.chars]

/-- A run is the word of a piece that stands in the text. -/
theorem exists_piece_of_mem_runs {cs run : List Char} (hrun : run ∈ runs cs) :
    ∃ piece : Piece, piece.word = run ∧ piece.chars <:+: cs := by
  obtain ⟨layout, rfl⟩ := exists_layout cs
  rw [layout.runs_chars] at hrun
  obtain ⟨piece, hpiece, rfl⟩ := List.mem_map.mp hrun
  refine ⟨piece, rfl, ?_⟩
  exact (List.infix_of_mem_flatten (List.mem_map_of_mem hpiece)).trans
    (List.suffix_append layout.lead _).isInfix

theorem isInfix_of_mem_tokens {line token : String} (htoken : token ∈ tokens line) :
    token.toList <:+: line.toList := by
  obtain ⟨run, hrun, rfl⟩ := List.mem_map.mp htoken
  obtain ⟨piece, rfl, hpiece⟩ := exists_piece_of_mem_runs hrun
  simpa using (List.prefix_append piece.word piece.gap).isInfix.trans hpiece

theorem ne_nil_of_mem_runs {cs run : List Char} (hrun : run ∈ runs cs) : run ≠ [] := by
  obtain ⟨piece, rfl, -⟩ := exists_piece_of_mem_runs hrun
  exact piece.word_ne_nil

/-- No token is empty. -/
theorem ne_empty_of_mem_tokens {line token : String} (htoken : token ∈ tokens line) :
    token ≠ "" := by
  obtain ⟨run, hrun, rfl⟩ := List.mem_map.mp htoken
  have hne := ne_nil_of_mem_runs hrun
  intro hempty
  exact hne (by simpa using congrArg String.toList hempty)

/-- No token holds a blank. -/
theorem isBlank_of_mem_tokens {line token : String} (htoken : token ∈ tokens line) :
    ∀ c ∈ token.toList, isBlank c = false := by
  obtain ⟨run, hrun, rfl⟩ := List.mem_map.mp htoken
  obtain ⟨piece, rfl, -⟩ := exists_piece_of_mem_runs hrun
  simpa using piece.word_solid

/-! ## All tokens together -/

theorem filter_flatMap_chars (pieces : List Piece) :
    (pieces.flatMap Piece.chars).filter (fun c => !isBlank c) = pieces.flatMap Piece.word := by
  induction pieces with
  | nil => rfl
  | cons piece pieces ih =>
    have hword : piece.word.filter (fun c => !isBlank c) = piece.word :=
      List.filter_eq_self.mpr fun c hc => by simp [piece.word_solid c hc]
    have hgap : piece.gap.filter (fun c => !isBlank c) = [] :=
      List.filter_eq_nil_iff.mpr fun c hc => by simp [piece.gap_blank c hc]
    simp only [List.flatMap_cons, Piece.chars, List.filter_append, hword, hgap, ih,
      List.append_nil]

/-- Put together, the words are what is left of the text without its blanks. -/
theorem Layout.join_words (layout : Layout) :
    String.join layout.words = String.ofList (layout.chars.filter fun c => !isBlank c) := by
  have hlead : layout.lead.filter (fun c => !isBlank c) = [] :=
    List.filter_eq_nil_iff.mpr fun c hc => by simp [layout.lead_blank c hc]
  have hchars : layout.chars.filter (fun c => !isBlank c) = layout.pieces.flatMap Piece.word := by
    simp only [chars, List.filter_append, hlead, filter_flatMap_chars, List.nil_append]
  rw [hchars, ← String.toList_inj]
  simp [words, List.flatMap, Function.comp_def]

/-! ## Maximal runs -/

/-- From one position of a text up to another there is at least one character, and no blank. -/
structure IsRun (cs : List Char) (start stop : Nat) : Prop where
  lt : start < stop
  le : stop ≤ cs.length
  solid : ∀ place c, start ≤ place → place < stop → cs[place]? = some c → isBlank c = false

/-- A run that is not a part of a longer one. -/
structure IsMaximalRun (cs : List Char) (start stop : Nat) : Prop extends IsRun cs start stop where
  longest : ∀ first last, IsRun cs first last → first ≤ start → stop ≤ last →
    first = start ∧ last = stop

section

variable {cs : List Char} {start stop first last : Nat}

/-- A run does not start among blanks. -/
theorem IsRun.le_start {front blanks back : List Char} (hblanks : ∀ c ∈ blanks, isBlank c = true)
    (hrun : IsRun (front ++ (blanks ++ back)) start stop) (hstart : front.length ≤ start) :
    front.length + blanks.length ≤ start := by
  by_contra hbefore
  have hlt : start - front.length < blanks.length := by omega
  have hc : (front ++ (blanks ++ back))[start]? = some blanks[start - front.length] := by
    rw [List.getElem?_append_right hstart, List.getElem?_append_left hlt,
      List.getElem?_eq_getElem hlt]
  have hclear := hrun.solid start _ (Nat.le_refl start) hrun.lt hc
  have hblank := hblanks _ (List.getElem_mem hlt)
  simp [hclear] at hblank

/-- Two runs that overlap are parts of one. -/
theorem IsRun.union (hrun : IsRun cs start stop) (hother : IsRun cs first last)
    (hfirst : first < stop) (hstart : start < last) :
    IsRun cs (min start first) (max stop last) where
  lt := by omega
  le := by
    have hle := hrun.le
    have hleOther := hother.le
    omega
  solid := by
    intro place c hafter hbefore hc
    by_cases hinside : start ≤ place ∧ place < stop
    · exact hrun.solid place c hinside.1 hinside.2 hc
    · exact hother.solid place c (by omega) (by omega) hc

theorem IsMaximalRun.unique (hrun : IsMaximalRun cs start stop)
    (hother : IsMaximalRun cs first last) (hfirst : first < stop) (hstart : start < last) :
    start = first ∧ stop = last := by
  have hunion := hrun.union hother.toIsRun hfirst hstart
  have hsame := hrun.longest _ _ hunion (by omega) (by omega)
  have hsameOther := hother.longest _ _ hunion (by omega) (by omega)
  omega

/-- A word between blanks, or between a blank and an end of the text, is a maximal run. -/
theorem isMaximalRun_word {front word back : List Char}
    (hfront : ∀ c, front.getLast? = some c → isBlank c = true) (hback : startsRun back = false)
    (hne : word ≠ []) (hsolid : ∀ c ∈ word, isBlank c = false) :
    IsMaximalRun (front ++ (word ++ back)) front.length (front.length + word.length) where
  lt := Nat.lt_add_of_pos_right (List.length_pos_iff.mpr hne)
  le := by simp only [List.length_append]; omega
  solid := by
    intro place c hafter hbefore hc
    rw [List.getElem?_append_right hafter, List.getElem?_append_left (by omega)] at hc
    exact hsolid c (List.mem_of_getElem? hc)
  longest := by
    intro first last hrun hfirst hlast
    have hle := hrun.le
    constructor
    · -- Otherwise the run goes over the last character in front.
      by_contra hother
      have hpos : front.length - 1 < front.length := by omega
      have hlt : front.length - 1 < last := by omega
      have hbefore : (front ++ (word ++ back))[front.length - 1]? =
          some front[front.length - 1] := by
        rw [List.getElem?_append_left hpos, List.getElem?_eq_getElem hpos]
      have hclear := hrun.solid _ _ (by omega) hlt hbefore
      have hblank := hfront front[front.length - 1] (by
        rw [List.getLast?_eq_getElem?, List.getElem?_eq_getElem hpos])
      simp [hclear] at hblank
    · -- Otherwise the run goes over the first character behind.
      by_contra hother
      cases back with
      | nil =>
        simp only [List.length_append, List.length_nil] at hle
        omega
      | cons c back =>
        have hbehind : (front ++ (word ++ c :: back))[front.length + word.length]? = some c := by
          simp
        have hclear := hrun.solid _ _ (by omega) (by omega) hbehind
        simp [startsRun, hclear] at hback

end

/-! ## Where the words of a layout stand -/

/-- From where up to where the words of some pieces stand, if the first one starts at a given
position. -/
def spansFrom : Nat → List Piece → List (Nat × Nat)
  | _, [] => []
  | start, piece :: pieces =>
    (start, start + piece.word.length) :: spansFrom (start + piece.chars.length) pieces

theorem le_of_mem_spansFrom {pieces : List Piece} {start : Nat} {span : Nat × Nat}
    (hspan : span ∈ spansFrom start pieces) : start ≤ span.1 := by
  induction pieces generalizing start with
  | nil => cases hspan
  | cons piece pieces ih =>
    obtain rfl | hlater := List.mem_cons.mp hspan
    · exact Nat.le_refl start
    · exact Nat.le_trans (Nat.le_add_right ..) (ih hlater)

theorem pairwise_spansFrom {pieces : List Piece} (hapart : Apart pieces) (start : Nat) :
    (spansFrom start pieces).Pairwise fun span next => span.2 < next.1 := by
  induction pieces generalizing start with
  | nil => exact .nil
  | cons piece pieces ih =>
    obtain ⟨hgap, hlater⟩ := apart_cons.mp hapart
    refine .cons ?_ (ih hlater _)
    intro next hnext
    have hle := le_of_mem_spansFrom hnext
    have hpos : 0 < piece.gap.length := by
      refine List.length_pos_iff.mpr (hgap ?_)
      rintro rfl
      cases hnext
    simp only [Piece.length_chars] at hle
    omega

theorem map_extract_spansFrom (pieces : List Piece) (front : List Char) :
    (spansFrom front.length pieces).map
      (fun span => (front ++ pieces.flatMap Piece.chars).extract span.1 span.2) =
        pieces.map Piece.word := by
  induction pieces generalizing front with
  | nil => rfl
  | cons piece pieces ih =>
    have hrest := ih (front ++ piece.chars)
    rw [List.length_append, List.append_assoc] at hrest
    rw [spansFrom, List.map_cons, List.flatMap_cons, hrest, List.map_cons]
    simp [Piece.chars]

/-- From a word on, a maximal run stands exactly where a word does. -/
theorem mem_spansFrom_iff {pieces : List Piece} {front : List Char} {start stop : Nat}
    (hapart : Apart pieces)
    (hfront : pieces ≠ [] → ∀ c, front.getLast? = some c → isBlank c = true) :
    (start, stop) ∈ spansFrom front.length pieces ↔
      front.length ≤ start ∧ IsMaximalRun (front ++ pieces.flatMap Piece.chars) start stop := by
  induction pieces generalizing front with
  | nil =>
    have hnone : ¬ (front.length ≤ start ∧ IsMaximalRun (front ++ []) start stop) := by
      rintro ⟨hstart, hrun⟩
      have hlt := hrun.lt
      have hle := hrun.le
      simp only [List.append_nil] at hle
      omega
    exact iff_of_false List.not_mem_nil hnone
  | cons piece pieces ih =>
    obtain ⟨hgap, hlater⟩ := apart_cons.mp hapart
    have hword : IsMaximalRun (front ++ (piece.word ++ (piece.gap ++ pieces.flatMap Piece.chars)))
        front.length (front.length + piece.word.length) :=
      isMaximalRun_word (hfront (by simp)) (startsRun_behind hapart) piece.word_ne_nil
        piece.word_solid
    have hbehind : pieces ≠ [] → ∀ c, (front ++ piece.chars).getLast? = some c →
        isBlank c = true := by
      intro hne c hc
      rw [Piece.chars, ← List.append_assoc, List.getLast?_append_of_ne_nil _ (hgap hne)] at hc
      exact piece.gap_blank c (List.mem_of_getLast? hc)
    have hrest := ih hlater hbehind
    simp only [Piece.chars, List.length_append, List.append_assoc] at hrest
    simp only [spansFrom, List.mem_cons, List.flatMap_cons, Piece.chars, List.length_append,
      List.append_assoc, hrest]
    constructor
    · rintro (hsame | ⟨hstart, hrun⟩)
      · cases hsame
        exact ⟨Nat.le_refl _, hword⟩
      · exact ⟨by omega, hrun⟩
    · rintro ⟨hstart, hrun⟩
      by_cases hinside : start < front.length + piece.word.length
      · obtain ⟨rfl, rfl⟩ := hrun.unique hword (Nat.lt_of_le_of_lt hstart hrun.lt) hinside
        exact .inl rfl
      · have hwhole : IsRun ((front ++ piece.word) ++ (piece.gap ++ pieces.flatMap Piece.chars))
            start stop := by
          simpa only [List.append_assoc] using hrun.toIsRun
        have hle := hwhole.le_start piece.gap_blank (by simp only [List.length_append]; omega)
        simp only [List.length_append] at hle
        exact .inr ⟨by omega, hrun⟩

namespace Layout

variable (layout : Layout)

def spans : List (Nat × Nat) :=
  spansFrom layout.lead.length layout.pieces

theorem mem_spans_iff {start stop : Nat} :
    (start, stop) ∈ layout.spans ↔ IsMaximalRun layout.chars start stop := by
  have hlead : ∀ c, layout.lead.getLast? = some c → isBlank c = true :=
    fun c hc => layout.lead_blank c (List.mem_of_getLast? hc)
  refine (mem_spansFrom_iff layout.apart fun _ => hlead).trans (and_iff_right_of_imp fun hrun => ?_)
  have hwhole : IsRun ([] ++ layout.chars) start stop := hrun.toIsRun
  simpa using hwhole.le_start layout.lead_blank (Nat.zero_le start)

theorem words_eq_map_extract :
    layout.words = layout.spans.map fun span =>
      String.ofList (layout.chars.extract span.1 span.2) := by
  have hextract := congrArg (List.map String.ofList)
    (map_extract_spansFrom layout.pieces layout.lead)
  simp only [List.map_map] at hextract
  exact hextract.symm

end Layout

/-! ## The main result -/

/-- The tokens of a line are what is left of cutting it at each space and tab when the empty pieces
are dropped, and they are exactly its maximal runs, in order: the positions where tokens stand are
listed from left to right, and are those of all maximal runs. So no token is empty or holds a blank,
and the tokens put together are the line without its blanks. Moreover every line is a layout of
words, and whatever words are laid out, and with whatever blanks, the tokens are those words. -/
theorem tokens_areMaximalRuns (line : String) :
    tokens line = ((line.toList.splitOnP isBlank).filter (· ≠ [])).map String.ofList ∧
    (∃ spans : List (Nat × Nat), spans.Pairwise (fun span next => span.2 < next.1) ∧
      (∀ start stop, (start, stop) ∈ spans ↔ IsMaximalRun line.toList start stop) ∧
      tokens line = spans.map fun span => String.ofList (line.toList.extract span.1 span.2)) ∧
    (∀ token ∈ tokens line, token ≠ "" ∧ ∀ c ∈ token.toList, isBlank c = false) ∧
    String.join (tokens line) = String.ofList (line.toList.filter fun c => !isBlank c) ∧
    (∃ layout : Layout, layout.text = line) ∧
    ∀ layout : Layout, tokens layout.text = layout.words := by
  have hcut : tokens line = ((line.toList.splitOnP isBlank).filter (· ≠ [])).map String.ofList := by
    rw [tokens, runs_eq_filter_splitOnP]
  have hsingle : ∀ token ∈ tokens line, token ≠ "" ∧ ∀ c ∈ token.toList, isBlank c = false :=
    fun _ htoken => ⟨ne_empty_of_mem_tokens htoken, isBlank_of_mem_tokens htoken⟩
  obtain ⟨layout, hchars⟩ := exists_layout line.toList
  have hline : layout.text = line := by rw [Layout.text, hchars, String.ofList_toList]
  have htokens : tokens line = layout.words := hline ▸ layout.tokens_text
  refine ⟨hcut, ⟨layout.spans, pairwise_spansFrom layout.apart _, ?_, ?_⟩, hsingle, ?_,
    ⟨layout, hline⟩, Layout.tokens_text⟩
  · intro start stop
    rw [← hchars]
    exact layout.mem_spans_iff
  · rw [htokens, ← hchars]
    exact layout.words_eq_map_extract
  · rw [htokens, ← hchars]
    exact layout.join_words

example : tokens "\t b a \t c\u00a0#" = ["b", "a", "c\u00a0#"] := by decide

end Ubershader.Text
