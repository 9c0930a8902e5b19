/-!
# Lines of a text

A line ends at a line feed, and a single carriage return right before that line feed belongs to
the ending. A last line without a line feed keeps its carriage return, and a text that ends with
a line feed has no empty line after it. `joined` is the other direction: every line is
terminated.
-/

namespace Ubershader.Text

/-- The lines of a text given by its characters. -/
def lineRuns : List Char → List (List Char)
  | [] => []
  | '\n' :: cs => [] :: lineRuns cs
  | '\r' :: '\n' :: cs => [] :: lineRuns cs
  | c :: cs =>
    match lineRuns cs with
    | [] => [[c]]
    | line :: rest => (c :: line) :: rest

/-- The lines of a text, without their endings. A line feed at the very end ends the last line and
does not start another one. -/
def lines (text : String) : List String :=
  (lineRuns text.toList).map String.ofList

/-- The text in which every given line is terminated by a line feed. -/
def joined (lines : List String) : String :=
  String.join (lines.map (· ++ "\n"))

/-- Whether a word occurs in a text as a contiguous piece. -/
def occurs (word : List Char) : List Char → Bool
  | [] => word.isEmpty
  | c :: cs => word.isPrefixOf (c :: cs) || occurs word cs

end Ubershader.Text
