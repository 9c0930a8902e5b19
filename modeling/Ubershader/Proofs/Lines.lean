import Ubershader.Text.Lines
import Ubershader.Text.Tokens

/-!
# Lines that are joined and cut again

No line of a text holds a line feed, and nothing else is asked of a line: every list of such lines
is the list of the lines of a text. A text in which all lines are terminated is cut into the same
lines again.
-/

namespace Ubershader.Text

/-- A text that can be one line, that is, one without a line feed. -/
def IsLine (text : String) : Prop :=
  '\n' ∉ text.toList

instance : DecidablePred IsLine :=
  fun text => inferInstanceAs (Decidable ('\n' ∉ text.toList))

@[simp] theorem isLine_append {front back : String} :
    IsLine (front ++ back) ↔ IsLine front ∧ IsLine back := by
  simp [IsLine, not_or]

theorem isLine_of_isIdentifier {name : String} (hname : isIdentifier name = true) :
    IsLine name := by
  intro hfeed
  rw [isIdentifier] at hname
  split at hname
  · cases hname
  · next c cs hchars =>
    obtain ⟨hfirst, hrest⟩ := Bool.and_eq_true_iff.mp hname
    rw [hchars] at hfeed
    obtain rfl | hlater := List.mem_cons.mp hfeed
    · exact absurd hfirst (by decide)
    · exact absurd (List.all_eq_true.mp hrest _ hlater) (by decide)

theorem isLine_repr (n : Nat) : IsLine n.repr := by
  intro hfeed
  rw [Nat.toList_repr] at hfeed
  exact absurd (Nat.isDigit_of_mem_toDigits (by decide) (by decide) hfeed) (by decide)

theorem newline_notMem_of_mem_lineRuns {cs run : List Char} (hrun : run ∈ lineRuns cs) :
    '\n' ∉ run := by
  fun_induction lineRuns cs generalizing run with
  | case1 => cases hrun
  | case2 cs ih | case3 cs ih =>
    obtain rfl | hlater := List.mem_cons.mp hrun
    · exact List.not_mem_nil
    · exact ih hlater
  | case4 c cs hfeed _ _ ih =>
    rw [List.mem_singleton.mp hrun]
    simpa [eq_comm] using hfeed
  | case5 c cs hfeed _ first rest hnext ih =>
    rw [hnext] at ih
    obtain rfl | hlater := List.mem_cons.mp hrun
    · have hfirst : '\n' ∉ first := ih List.mem_cons_self
      simpa [eq_comm, hfirst] using hfeed
    · exact ih (List.mem_cons_of_mem _ hlater)

theorem isLine_of_mem_lines {text line : String} (hline : line ∈ lines text) : IsLine line := by
  obtain ⟨run, hrun, rfl⟩ := List.mem_map.mp hline
  simpa [IsLine] using newline_notMem_of_mem_lineRuns hrun

/-- A line is cut off where its ending stands, also if a carriage return is in front of that. -/
theorem lineRuns_append_ending {run : List Char} (hrun : '\n' ∉ run) (cs : List Char) :
    lineRuns (run ++ '\r' :: '\n' :: cs) = run :: lineRuns cs := by
  induction run with
  | nil => rw [List.nil_append, lineRuns]
  | cons c run ih =>
    obtain ⟨hfeed, hrest⟩ : c ≠ '\n' ∧ '\n' ∉ run := by simpa [eq_comm] using hrun
    have hnext : ∀ later, c = '\r' → run ++ '\r' :: '\n' :: cs = '\n' :: later → False := by
      rintro later - hlater
      cases run with
      | nil => simp at hlater
      | cons second run => simp_all
    rw [List.cons_append, lineRuns, ih hrest]
    · exact hfeed
    · exact hnext

/-- The text in which every given line has an ending of two characters. -/
def ended (lines : List String) : String :=
  String.join (lines.map (· ++ "\r\n"))

/-- Every list of lines is the list of the lines of a text. -/
theorem lines_ended {list : List String} (hlist : ∀ line ∈ list, IsLine line) :
    lines (ended list) = list := by
  have hruns : lineRuns (ended list).toList = list.map String.toList := by
    induction list with
    | nil => rfl
    | cons line list ih =>
      obtain ⟨hline, hrest⟩ := List.forall_mem_cons.mp hlist
      have hended : (ended (line :: list)).toList =
          line.toList ++ '\r' :: '\n' :: (ended list).toList := by
        simp [ended]
      rw [hended, lineRuns_append_ending hline, ih hrest, List.map_cons]
  rw [lines, hruns, List.map_map]
  exact (List.map_congr_left fun line _ => String.ofList_toList).trans (List.map_id list)

/-- What stands between the line feeds of a text. -/
def pieces (text : String) : List String :=
  (text.toList.splitOn '\n').map String.ofList

/-- Between the line feeds of a text in which all lines are terminated are those lines, and nothing
after the last one. -/
theorem pieces_joined {list : List String} (hlist : ∀ line ∈ list, IsLine line) :
    pieces (joined list) = list ++ [""] := by
  induction list with
  | nil => rfl
  | cons line list ih =>
    obtain ⟨hline, hrest⟩ := List.forall_mem_cons.mp hlist
    have hjoined : (joined (line :: list)).toList =
        line.toList ++ '\n' :: (joined list).toList := by
      simp [joined]
    rw [pieces, hjoined, List.splitOn_append_cons_self_of_not_mem hline, List.map_cons,
      String.ofList_toList, List.cons_append, ← ih hrest]
    rfl

end Ubershader.Text
