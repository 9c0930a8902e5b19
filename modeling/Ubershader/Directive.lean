import Ubershader.Text.Lines
import Ubershader.Text.Tokens

/-!
# Directives

A line is a directive if its first token is a hash sign, alone or attached to a keyword, and the
keyword is one that is acted upon here: `include`, or `pragma` followed by `once` or by `anki`.
Every other line is plain text, also when it is a directive for the shader compiler.

A line that mentions neither `pragma` nor `include` cannot be a directive, and is not cut into
tokens at all.
-/

namespace Ubershader

/-- What a line asks for. Most lines of a shader ask for nothing and are only handed on. -/
inductive Directive
  /-- Text, to be copied as it is. -/
  | plain
  /-- Another file takes the place of the line. There is no path if none is written properly. -/
  | inclusion (path : Option String)
  /-- The file is to be included once only; `alone` says that nothing else is on the line. -/
  | once (alone : Bool)
  /-- A command with its name and arguments. -/
  | command (args : List String)
deriving DecidableEq, Repr

namespace Directive

/-- What follows a first text in a second one. -/
def remainder? (front whole : String) : Option String :=
  (front.toList.isPrefixOf? whole.toList).map String.ofList

/-- The keyword of a line given by its tokens, without its hash sign, and the tokens after it. A
hash sign may stand alone in front of its keyword. -/
def keyword? : List String → Option (String × List String)
  | [] => none
  | first :: rest =>
    if first = "#" then
      match rest with
      | [] => none
      | word :: rest => some (word, rest)
    else
      (remainder? "#" first).map fun word => (word, rest)

/-- The text between a first and a last character, if those are the given ones. -/
def between? (opening closing : Char) (text : String) : Option String :=
  match text.toList with
  | [] => none
  | first :: rest =>
    if first = opening ∧ rest.getLast? = some closing then some (String.ofList rest.dropLast)
    else none

/-- The path in a literal with its delimiters. An empty path is none. -/
def path? (literal : String) : Option String :=
  ((between? '"' '"' literal).or (between? '<' '>' literal)).filter (· ≠ "")

/-- Whether what is attached to the keyword `include` leaves it that keyword. -/
def startsLiteral (attached : String) : Bool :=
  match attached.toList with
  | [] => true
  | c :: _ => c == '"' || c == '<'

/-- The literal of an include directive: what is attached to the keyword and the tokens up to a
comment, with one space between them. -/
def literal (attached : String) (rest : List String) : String :=
  " ".intercalate ((if attached = "" then [] else [attached]) ++ Text.beforeComment rest)

def ofPragma : List String → Directive
  | [] => plain
  | word :: args =>
    if word = "once" then once args.isEmpty
    else if word = "anki" then command args
    else plain

def ofTokens (tokens : List String) : Directive :=
  match keyword? tokens with
  | none => plain
  | some (word, rest) =>
    match remainder? "include" word with
    | some attached =>
      if startsLiteral attached then inclusion (path? (literal attached rest)) else plain
    | none => if word = "pragma" then ofPragma rest else plain

/-- Whether a line mentions one of the two keywords, anywhere in it. A line that mentions one may
still be plain text, for example a comment. -/
def isMentioned (line : String) : Bool :=
  Text.occurs "pragma".toList line.toList || Text.occurs "include".toList line.toList

/-- What a line asks for. A line that mentions no keyword cannot be a directive, so it is not cut
into tokens at all. -/
def ofLine (line : String) : Directive :=
  if isMentioned line then ofTokens (Text.tokens line) else plain

end Directive

end Ubershader
