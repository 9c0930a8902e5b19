import Mathlib.Data.List.Infix
import Ubershader.Text.Tokens

/-!
# Tokens of texts that are put together

A text that is cut in front of a blank has the runs of its two parts, so what is written behind a
blank leaves the tokens in front of it alone. A word that is written right in front of a run becomes
a part of it.

Putting the tokens of a text together again, with a space between any two, gives the text back if
its blanks are single spaces (`intercalate_runs`).
-/

namespace Ubershader.Text

theorem exists_runs_eq_cons {cs : List Char} (hstarts : startsRun cs = true) :
    ∃ run rest, runs cs = run :: rest := by
  cases cs with
  | nil => cases hstarts
  | cons c cs =>
    have hblank : isBlank c = false := by simpa [startsRun] using hstarts
    rw [runs, hblank, if_neg (by decide)]
    cases runs cs with
    | nil => exact ⟨_, _, rfl⟩
    | cons run rest =>
      rw [extendRun]
      split <;> exact ⟨_, _, rfl⟩

/-- A character right in front of a run extends it. -/
theorem runs_cons_of_startsRun {c : Char} (hc : isBlank c = false) {cs run : List Char}
    {rest : List (List Char)} (hstarts : startsRun cs = true) (hruns : runs cs = run :: rest) :
    runs (c :: cs) = (c :: run) :: rest := by
  rw [runs, hc, if_neg (by decide), hruns, extendRun, if_pos hstarts]

/-- A character that no run follows directly is a run of its own. -/
theorem runs_cons_of_not_startsRun {c : Char} (hc : isBlank c = false) {cs : List Char}
    (hstarts : startsRun cs = false) : runs (c :: cs) = [c] :: runs cs := by
  rw [runs, hc, if_neg (by decide), hstarts]
  cases runs cs <;> rfl

/-- No run goes on where a blank follows, or nothing. -/
theorem runs_append {back : List Char} (hback : startsRun back = false) (front : List Char) :
    runs (front ++ back) = runs front ++ runs back := by
  induction front with
  | nil => rfl
  | cons c front ih =>
    have hsame : startsRun (front ++ back) = startsRun front := by
      cases front with
      | nil => exact hback
      | cons => rfl
    cases hc : isBlank c with
    | true => rw [List.cons_append, runs_cons_of_isBlank hc, runs_cons_of_isBlank hc, ih]
    | false =>
      cases hstarts : startsRun front with
      | false =>
        rw [List.cons_append, runs_cons_of_not_startsRun hc (hsame.trans hstarts),
          runs_cons_of_not_startsRun hc hstarts, ih, List.cons_append]
      | true =>
        obtain ⟨run, rest, hruns⟩ := exists_runs_eq_cons hstarts
        rw [hruns, List.cons_append] at ih
        rw [List.cons_append, runs_cons_of_startsRun hc (hsame.trans hstarts) ih,
          runs_cons_of_startsRun hc hstarts hruns, List.cons_append]

theorem runs_append_of_blanks {blanks : List Char} (hblanks : ∀ c ∈ blanks, isBlank c = true)
    (cs : List Char) : runs (blanks ++ cs) = runs cs := by
  induction blanks with
  | nil => rfl
  | cons c blanks ih =>
    obtain ⟨hc, hlater⟩ := List.forall_mem_cons.mp hblanks
    rw [List.cons_append, runs_cons_of_isBlank hc, ih hlater]

/-- A word right in front of a run becomes a part of it. -/
theorem runs_append_of_startsRun {word : List Char} (hword : ∀ c ∈ word, isBlank c = false)
    {cs run : List Char} {rest : List (List Char)} (hstarts : startsRun cs = true)
    (hruns : runs cs = run :: rest) : runs (word ++ cs) = (word ++ run) :: rest := by
  induction word with
  | nil => exact hruns
  | cons c word ih =>
    obtain ⟨hc, hlater⟩ := List.forall_mem_cons.mp hword
    have hnext : startsRun (word ++ cs) = true := by
      cases word with
      | nil => exact hstarts
      | cons d word => simp [startsRun, hlater d]
    exact runs_cons_of_startsRun hc hnext (ih hlater)

theorem runs_word {word : List Char} (hword : ∀ c ∈ word, isBlank c = false) (hne : word ≠ []) :
    runs word = [word] := by
  induction word with
  | nil => exact absurd rfl hne
  | cons c word ih =>
    obtain ⟨hc, hlater⟩ := List.forall_mem_cons.mp hword
    cases word with
    | nil => exact runs_cons_of_not_startsRun hc rfl
    | cons d word =>
      exact runs_cons_of_startsRun hc (by simp [startsRun, hlater d]) (ih hlater (by simp))

/-! ## Comments -/

/-- A comment behind a blank adds tokens of its own. -/
theorem tokens_append_comment (line comment : String) :
    tokens (line ++ " " ++ comment) = tokens line ++ tokens comment := by
  have hruns : runs (line.toList ++ ' ' :: comment.toList) =
      runs line.toList ++ runs comment.toList := by
    rw [runs_append rfl, runs_cons_of_isBlank rfl]
  have hlist : (line ++ " " ++ comment).toList = line.toList ++ ' ' :: comment.toList := by
    simp
  rw [tokens, hlist, hruns, List.map_append, tokens, tokens]

/-- The first token of a comment opens it. -/
theorem exists_tokens_of_opensComment {comment : String} (hcomment : opensComment comment = true) :
    ∃ token rest, tokens comment = token :: rest ∧ opensComment token = true := by
  have hopens : ∀ second rest, comment.toList = '/' :: second :: rest →
      (second = '/' ∨ second = '*') →
        ∃ token rest, tokens comment = token :: rest ∧ opensComment token = true := by
    intro second rest hlist hsecond
    have hblank : isBlank second = false := by
      obtain rfl | rfl := hsecond <;> rfl
    have hstarts : startsRun (second :: rest) = true := by simp [startsRun, hblank]
    obtain ⟨run, others, hruns⟩ :
        ∃ run others, runs (second :: rest) = (second :: run) :: others := by
      cases hnext : startsRun rest with
      | false => exact ⟨_, _, runs_cons_of_not_startsRun hblank hnext⟩
      | true =>
        obtain ⟨run, others, hruns⟩ := exists_runs_eq_cons hnext
        exact ⟨_, _, runs_cons_of_startsRun hblank hnext hruns⟩
    refine ⟨String.ofList ('/' :: second :: run), others.map String.ofList, ?_, ?_⟩
    · rw [tokens, hlist, runs_cons_of_startsRun rfl hstarts hruns, List.map_cons]
    · obtain rfl | rfl := hsecond <;> simp [opensComment]
  rw [opensComment] at hcomment
  split at hcomment
  · next rest hlist => exact hopens '/' rest hlist (.inl rfl)
  · next rest hlist => exact hopens '*' rest hlist (.inr rfl)
  · cases hcomment

/-! ## Putting tokens together again -/

/-- A text in which blanks are single spaces, and that does not end with one. -/
structure IsSpaced (cs : List Char) : Prop where
  noTab : '\t' ∉ cs
  single : ¬ [' ', ' '] <:+: cs
  last : ∀ c, cs.getLast? = some c → isBlank c = false

theorem IsSpaced.tail {c : Char} {cs : List Char} (hspaced : IsSpaced (c :: cs)) : IsSpaced cs where
  noTab := fun hmem => hspaced.noTab (List.mem_cons_of_mem _ hmem)
  single := fun hpiece => hspaced.single (hpiece.trans (List.suffix_cons c cs).isInfix)
  last := by
    intro last hlast
    refine hspaced.last last ?_
    rw [List.getLast?_cons, hlast]
    rfl

theorem eq_space_of_isBlank {c : Char} (hblank : isBlank c = true) (htab : c ≠ '\t') : c = ' ' := by
  simpa [isBlank, htab] using hblank

/-- A blank is followed by a run. -/
theorem IsSpaced.startsRun_of_isBlank {c : Char} {cs : List Char} (hspaced : IsSpaced (c :: cs))
    (hblank : isBlank c = true) : startsRun cs = true := by
  have hc : c = ' ' := eq_space_of_isBlank hblank fun htab => hspaced.noTab (by simp [htab])
  cases cs with
  | nil =>
    have hlast := hspaced.last c rfl
    rw [hblank] at hlast
    cases hlast
  | cons d cs =>
    cases hd : isBlank d with
    | false => simp [startsRun, hd]
    | true =>
      have hsecond : d = ' ' := eq_space_of_isBlank hd fun htab => hspaced.noTab (by simp [htab])
      refine absurd ?_ hspaced.single
      rw [hc, hsecond]
      exact (List.prefix_append [' ', ' '] cs).isInfix

/-- The runs of a text whose blanks are single spaces, put together with spaces between them, are
the text again, but for a blank that it starts with. -/
theorem intercalate_runs {cs : List Char} (hspaced : IsSpaced cs) :
    [' '].intercalate (runs cs) = cs.dropWhile isBlank := by
  induction cs with
  | nil => rfl
  | cons c cs ih =>
    have hrest := ih hspaced.tail
    cases hc : isBlank c with
    | true => rw [runs_cons_of_isBlank hc, hrest, List.dropWhile_cons_of_pos hc]
    | false =>
      rw [List.dropWhile_cons_of_neg (by simp [hc])]
      cases cs with
      | nil => rw [runs_cons_of_not_startsRun hc rfl]; rfl
      | cons d cs =>
        cases hd : isBlank d with
        | false =>
          have hstarts : startsRun (d :: cs) = true := by simp [startsRun, hd]
          obtain ⟨run, rest, hruns⟩ := exists_runs_eq_cons hstarts
          rw [hruns, List.dropWhile_cons_of_neg (by simp [hd])] at hrest
          rw [runs_cons_of_startsRun hc hstarts hruns, ← hrest]
          cases rest <;> simp
        | true =>
          have hspace : d = ' ' :=
            eq_space_of_isBlank hd fun htab => hspaced.noTab (by simp [htab])
          have hnext := hspaced.tail.startsRun_of_isBlank hd
          obtain ⟨run, rest, hruns⟩ := exists_runs_eq_cons hnext
          have hkept : cs.dropWhile isBlank = cs := by
            cases cs with
            | nil => cases hnext
            | cons e cs => exact List.dropWhile_cons_of_neg (by simpa [startsRun] using hnext)
          rw [runs_cons_of_isBlank hd, List.dropWhile_cons_of_pos hd, hruns, hkept] at hrest
          rw [runs_cons_of_not_startsRun hc (by simp [startsRun, hd]), runs_cons_of_isBlank hd,
            hruns, ← hrest, hspace]
          simp

end Ubershader.Text
