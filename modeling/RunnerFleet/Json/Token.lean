import RunnerFleet.Json.Number
import RunnerFleet.Json.Quoted

/-!
# Tokens of JSON texts

A text is a row of tokens with blanks between them. The last token stands for the place from which
on the text holds no token.

Main results:

- `Token.next_length_lt`: taking a token off a text makes it shorter.
-/

namespace RunnerFleet
namespace Json

open Document (Node)

/-- A token. -/
inductive Token where
  /-- A value that is neither a string nor made up of others. -/
  | scalar (node : Node)
  /-- A string; one that is no text is `none`. -/
  | string (value : Option String)
  | openArray
  | closeArray
  | openObject
  | closeObject
  | comma
  | colon
  /-- What is here is no token. -/
  | unknown

namespace Token

/-- Blanks between tokens. -/
def isSpace (c : Char) : Bool :=
  c == ' ' || c == '\n' || c == '\t' || c == '\r'

/-- The token in front of a text that starts without a blank. -/
def next (cs : List Char) : Option (Token × List Char) :=
  match cs with
  | [] => none
  | '[' :: rest => some (openArray, rest)
  | ']' :: rest => some (closeArray, rest)
  | '\x7b' :: rest => some (openObject, rest)
  | '\x7d' :: rest => some (closeObject, rest)
  | ',' :: rest => some (comma, rest)
  | ':' :: rest => some (colon, rest)
  | '"' :: rest =>
      match readString rest with
      | some (value, rest) => some (string value, rest)
      | none => some (unknown, [])
  | 'n' :: 'u' :: 'l' :: 'l' :: rest => some (scalar .null, rest)
  | 't' :: 'r' :: 'u' :: 'e' :: rest => some (scalar (.bool true), rest)
  | 'f' :: 'a' :: 'l' :: 's' :: 'e' :: rest => some (scalar (.bool false), rest)
  | c :: rest =>
      match Number.read (c :: rest) with
      | some (number, rest) => some (scalar number.toNode, rest)
      | none => some (unknown, [])

/-- Every token takes at least one character, so reading tokens ends. -/
theorem next_length_lt {cs rest : List Char} {token : Token} (h : next cs = some (token, rest)) :
    rest.length < cs.length := by
  unfold next at h
  split at h
  case h_1 => contradiction
  case h_8 =>
    split at h
    · rename_i hs
      injection h with h
      injection h with _ h
      subst h
      exact Nat.lt_succ_of_lt (readString_length_lt hs)
    · injection h with h
      injection h with _ h
      simp [← h]
  case h_12 =>
    split at h
    · rename_i hn
      injection h with h
      injection h with _ h
      exact h ▸ Number.read_length_lt hn
    · injection h with h
      injection h with _ h
      simp [← h]
  all_goals
    injection h with h
    injection h with _ h
    simp only [← h, List.length_cons]
    omega

/-- Skipping spaces never lengthens what is left. -/
theorem dropSpaces_length_le (cs : List Char) : (cs.dropWhile isSpace).length ≤ cs.length := by
  induction cs with
  | nil => simp
  | cons c rest ih =>
      rw [List.dropWhile_cons]
      split
      · exact Nat.le_succ_of_le ih
      · exact Nat.le_refl _

/-- All tokens of a text. -/
def all (cs : List Char) : List Token :=
  match _hnext : next (cs.dropWhile isSpace) with
  | none => []
  | some (token, rest) => token :: all rest
termination_by cs.length
decreasing_by exact Nat.lt_of_lt_of_le (next_length_lt _hnext) (dropSpaces_length_le cs)

end Token
end Json
end RunnerFleet
