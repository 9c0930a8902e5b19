/-!
# Tokens of a directive line

A line is cut into tokens at spaces and tabs, and at nothing else: every token is a maximal
run of other characters. A token that opens a comment ends the arguments of a directive, so
`beforeComment` is what a directive sees of its line.

The cutting works on characters and is structural, with no accumulator: a run is extended from
its right-hand neighbour, which is what an induction on the line needs.
-/

namespace Ubershader.Text

/-- The two separators between tokens. Other white space belongs to a token. -/
def isBlank (c : Char) : Bool :=
  c == ' ' || c == '\t'

/-- Whether a text starts inside a run, that is, with a character that is not blank. -/
def startsRun : List Char → Bool
  | [] => false
  | c :: _ => !isBlank c

/-- Put a character in front of the runs to its right: it extends the first one if that one is
adjacent, and is a run of its own otherwise. -/
def extendRun (c : Char) (adjacent : Bool) : List (List Char) → List (List Char)
  | [] => [[c]]
  | run :: rest => if adjacent then (c :: run) :: rest else [c] :: run :: rest

/-- The maximal runs of characters that are not blank, in order. A character joins the run to
its right exactly when no blank stands between them. -/
def runs : List Char → List (List Char)
  | [] => []
  | c :: cs => if isBlank c then runs cs else extendRun c (startsRun cs) (runs cs)

@[simp] theorem runs_nil : runs [] = [] := rfl

theorem runs_cons_of_isBlank {c : Char} (hc : isBlank c = true) (cs : List Char) :
    runs (c :: cs) = runs cs := by
  rw [runs, if_pos hc]

def tokens (line : String) : List String :=
  (runs line.toList).map String.ofList

/-- Whether a token opens a comment, in either of the two comment styles. -/
def opensComment (token : String) : Bool :=
  match token.toList with
  | '/' :: '/' :: _ => true
  | '/' :: '*' :: _ => true
  | _ => false

/-- The arguments in front of the first token that opens a comment. -/
def beforeComment (args : List String) : List String :=
  args.takeWhile fun token => !opensComment token

theorem beforeComment_append_of_opensComment {comment : String}
    (hcomment : opensComment comment = true) (args rest : List String) :
    beforeComment (args ++ comment :: rest) = beforeComment args := by
  induction args with
  | nil => simp [beforeComment, hcomment]
  | cons token args ih =>
    simp only [beforeComment, List.cons_append, List.takeWhile_cons] at ih ⊢
    split <;> simp_all

/-- First character of an identifier: an ASCII letter or an underscore. -/
def isIdentifierStart (c : Char) : Bool :=
  c.isAlpha || c == '_'

/-- Later character of an identifier: an ASCII letter, an ASCII digit or an underscore. -/
def isIdentifierRest (c : Char) : Bool :=
  c.isAlphanum || c == '_'

/-- Whether a name can stand as the name of a preprocessor definition. -/
def isIdentifier (name : String) : Bool :=
  match name.toList with
  | [] => false
  | c :: cs => isIdentifierStart c && cs.all isIdentifierRest

end Ubershader.Text
