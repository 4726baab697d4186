/-!
# Media types

A media type is a type, a slash and a subtype, perhaps followed by parameters. A request body is
JSON if its type is `application` and its subtype is `json` or ends in `+json`. Letters count in
either case.

Main results:

- `isJsonSubtype_suffix`: every subtype with the suffix stands for JSON.
-/

namespace RunnerFleet
namespace Http
namespace MediaType

/-- A character of a token. -/
def isTokenChar (c : Char) : Bool :=
  c.isAlphanum || "!#$%&'*+-.^_`|~".toList.contains c

/-- A character that may stand between the quotes of a parameter. -/
def isQuotable (c : Char) : Bool :=
  0x20 ≤ c.toNat && c.toNat < 0x7F

/-- Where the reader of parameters stands. -/
inductive Place where
  /-- Before the name of a parameter. -/
  | start
  /-- Inside the name. -/
  | name
  /-- Before the value. -/
  | equals
  /-- Inside a value without quotes. -/
  | value
  /-- Inside a value with quotes; tells whether it is still empty. -/
  | quoted (fresh : Bool)
  /-- Behind a value with quotes. -/
  | closed
deriving DecidableEq, Repr

/-- The place after one more character; `none` if it may not stand here. -/
def Place.next? (p : Place) (c : Char) : Option Place :=
  match p with
  | start => if c == ' ' then some start else if isTokenChar c then some name else none
  | name => if c == '=' then some equals else if isTokenChar c then some name else none
  | equals => if c == '"' then some (quoted true) else if isTokenChar c then some value else none
  | value => if c == ';' then some start else if isTokenChar c then some value else none
  | quoted fresh =>
      if c == '"' && !fresh then some closed
      else if isQuotable c then some (quoted false) else none
  | closed => if c == ';' then some start else if c == ' ' then some closed else none

/-- Whether parameters may end here. -/
def Place.isEnd : Place → Bool
  | start => true
  | equals => true
  | value => true
  | closed => true
  | _ => false

/-- Whether the text is a list of parameters. -/
def isParameters (cs : List Char) : Bool :=
  match cs.foldlM Place.next? .start with
  | some p => p.isEnd
  | none => false

/-- Whether a subtype stands for JSON: before its last plus sign or behind it. -/
def isJsonSubtype (subtype : List Char) : Bool :=
  let ending := (subtype.reverse.takeWhile (· != '+')).reverse
  let start := subtype.take (subtype.length - ending.length - 1)
  if start.isEmpty then subtype == "json".toList
  else start == "json".toList || ending == "json".toList

/-- Whether the media type with this text is JSON. -/
def isJson (text : String) : Bool :=
  let cs := text.toList.map Char.toLower
  let kind := cs.takeWhile isTokenChar
  match cs.drop kind.length with
  | '/' :: rest =>
      let subtype := rest.takeWhile isTokenChar
      kind == "application".toList && isJsonSubtype subtype &&
        match rest.drop subtype.length with
        | [] => true
        | ';' :: parameters => isParameters parameters
        | _ => false
  | _ => false

/-- Any subtype that ends in `+json`, with something before it, is JSON. -/
theorem isJsonSubtype_suffix {start : List Char} (h : start ≠ []) :
    isJsonSubtype (start ++ "+json".toList) = true := by
  have ending : ((start ++ "+json".toList).reverse.takeWhile (· != '+')).reverse =
      "json".toList := by
    simp
  have head : (start ++ "+json".toList).take
      ((start ++ "+json".toList).length - "json".toList.length - 1) = start := by
    simp
  simp only [isJsonSubtype, ending, head]
  simp [h]

end MediaType
end Http
end RunnerFleet
