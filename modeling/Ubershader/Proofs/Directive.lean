import Mathlib.Data.List.Infix
import Ubershader.Directive
import Ubershader.Proofs.Runs

/-!
# How commands are written

A command stands after `#pragma anki`, with the hash sign attached or alone, with any blanks
between its words, and with or without a comment behind it. `Directive.IsCommand` says this by the
tokens of the line alone, and such a line is taken for a command with those words.

A line is cut into tokens only if it mentions a keyword somewhere. That loses no command, because
a token is a contiguous piece of its line.
-/

namespace Ubershader

namespace Text

/-- A word occurs in a text if it is a contiguous piece of it. -/
theorem occurs_iff_isInfix {word text : List Char} : occurs word text = true ↔ word <:+: text := by
  induction text with
  | nil => simp [occurs]
  | cons c text ih => rw [occurs, Bool.or_eq_true, List.isPrefixOf_iff_prefix, ih,
      List.infix_cons_iff]

/-- Nothing, or tokens of which the first one opens a comment. -/
def IsComment : List String → Prop
  | [] => True
  | token :: _ => opensComment token = true

theorem beforeComment_append {words comment : List String}
    (hwords : ∀ word ∈ words, opensComment word = false) (hcomment : IsComment comment) :
    beforeComment (words ++ comment) = words := by
  have hnothing : beforeComment comment = [] := by
    cases comment with
    | nil => rfl
    | cons token rest =>
      have hopens : opensComment token = true := hcomment
      simp [beforeComment, hopens]
  rw [beforeComment, List.takeWhile_append_of_pos (by simpa using hwords)]
  exact (congrArg (words ++ ·) hnothing).trans (List.append_nil words)

theorem opensComment_of_isIdentifier {name : String} (hname : isIdentifier name = true) :
    opensComment name = false := by
  have hslash : isIdentifierStart '/' = false := by decide
  rw [isIdentifier] at hname
  rw [opensComment]
  split
  · next heq => simp [heq, hslash] at hname
  · next heq => simp [heq, hslash] at hname
  · rfl

end Text

namespace Directive

theorem isMentioned_of_mem_tokens {line token : String} (htoken : token ∈ Text.tokens line)
    (hpragma : "pragma".toList <:+: token.toList) : isMentioned line = true := by
  have hoccurs : Text.occurs "pragma".toList line.toList = true :=
    Text.occurs_iff_isInfix.mpr (hpragma.trans (Text.isInfix_of_mem_tokens htoken))
  rw [isMentioned, hoccurs, Bool.true_or]

/-- A line holds a command with the given words, and maybe a comment. -/
inductive IsCommand (words : List String) (line : String) : Prop
  | attached (comment : List String) (isComment : Text.IsComment comment)
      (tokens : Text.tokens line = "#pragma" :: "anki" :: (words ++ comment))
  | alone (comment : List String) (isComment : Text.IsComment comment)
      (tokens : Text.tokens line = "#" :: "pragma" :: "anki" :: (words ++ comment))

theorem ofLine_of_keyword? {line : String} {args : List String}
    (hmentioned : isMentioned line = true)
    (hkeyword : keyword? (Text.tokens line) = some ("pragma", "anki" :: args)) :
    ofLine line = .command args := by
  rw [ofLine, if_pos hmentioned, ofTokens, hkeyword]
  rfl

/-- A line that holds a command is taken for that command. -/
theorem IsCommand.exists_ofLine {words : List String} {line : String}
    (hcommand : IsCommand words line) :
    ∃ comment, Text.IsComment comment ∧ ofLine line = .command (words ++ comment) := by
  cases hcommand with
  | attached comment hcomment htokens =>
    refine ⟨comment, hcomment, ofLine_of_keyword? ?_ (by rw [htokens]; rfl)⟩
    exact isMentioned_of_mem_tokens (by simp [htokens] : "#pragma" ∈ Text.tokens line) (by decide)
  | alone comment hcomment htokens =>
    refine ⟨comment, hcomment, ofLine_of_keyword? ?_ (by rw [htokens]; rfl)⟩
    exact isMentioned_of_mem_tokens (by simp [htokens] : "pragma" ∈ Text.tokens line) (by decide)

end Directive

end Ubershader
