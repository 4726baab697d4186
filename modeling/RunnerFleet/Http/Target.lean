import RunnerFleet.Http.Percent
import RunnerFleet.Powers
import RunnerFleet.Text.Split

/-!
# Request targets

The target of a request is the path and the query of a URL. A URL begins with `http:` or `https:`
and names a host, perhaps with a port. In its path, a backslash separates segments as a slash does,
a segment of one dot stands for nothing, and one of two dots takes back the segment before it. What
may not stand in a target as it is becomes percent-encoded.

Main results:

- `Target.text_ne_empty`: a target is never empty.
- `segmentsFrom_of_plain`: a path without dot segments keeps its segments.
-/

namespace RunnerFleet
namespace Http

/-- The path, in segments, and the query that a request asks for. -/
structure Target where
  segments : List (List Char)
  query : Option (List Char) := none
deriving DecidableEq, Repr

namespace Target

/-! ## Classes of characters -/

/-- A character that is left out of a URL wherever it stands. -/
def isLineBreakOrTab (c : Char) : Bool :=
  c == '\t' || c == '\n' || c == '\r'

/-- A control or a space, which is left out in front of a URL. -/
def isControlOrSpace (c : Char) : Bool :=
  c.toNat ≤ 0x20

/-- A character that stands for itself in a query. -/
def isQueryChar (c : Char) : Bool :=
  0x20 < c.toNat && c.toNat < 0x7F && !("\"#<>'".toList.contains c)

/-- A character that stands for itself in a path. -/
def isPathChar (c : Char) : Bool :=
  0x20 < c.toNat && c.toNat < 0x7F && !("\"#<>?`\x7b\x7d".toList.contains c)

/-- A character that separates the segments of a path. -/
def isSeparator (c : Char) : Bool :=
  c == '/' || c == '\\'

/-- A character that ends the part of a URL with the host. -/
def endsAuthority (c : Char) : Bool :=
  isSeparator c || c == '?' || c == '#'

/-- A character that stands in no name of a host. -/
def isForbiddenInHost (c : Char) : Bool :=
  isControlOrSpace c || c == '\x7f' || "#/:<>?@[\\]^|%".toList.contains c

/-! ## Host and port -/

/-- Whether the text is a port number; it may be left out. -/
def isPort (cs : List Char) : Bool :=
  match Text.spanDigits cs with
  | (digits, []) => Text.ofDigits 10 digits < 2 ^ 16
  | _ => false

/-- Whether the text names a host: a name, or an address in brackets. -/
def isHost (cs : List Char) : Bool :=
  match cs with
  | '[' :: rest =>
      rest.getLast? == some ']' &&
        rest.dropLast.all fun c => (Text.hexDigit? c).isSome || c == ':' || c == '.'
  | [] => false
  | cs => cs.all fun c => !isForbiddenInHost c

/-- Where the port begins: at the last colon that is not inside brackets. -/
def splitPort (cs : List Char) : List Char × List Char :=
  let port := cs.reverse.takeWhile fun c => c != ':' && c != ']'
  if cs.reverse[port.length]? = some ':' then
    (cs.take (cs.length - port.length - 1), port.reverse)
  else (cs, [])

/-- Whether the part of a URL between the slashes names a host, after a user and an `@` if any. -/
def isAuthority (cs : List Char) : Bool :=
  let afterUser := (cs.reverse.takeWhile (· != '@')).reverse
  let (host, port) := splitPort afterUser
  isHost host && isPort port

/-! ## Paths -/

/-- The text with every written form of a dot replaced by a dot. -/
def plainDots : List Char → List Char
  | '%' :: '2' :: 'e' :: rest => '.' :: plainDots rest
  | '%' :: '2' :: 'E' :: rest => '.' :: plainDots rest
  | c :: rest => c :: plainDots rest
  | [] => []

/-- A segment that stands for nothing. -/
def isSingleDot (segment : List Char) : Bool :=
  plainDots segment == ['.']

/-- A segment that takes back the one before it. -/
def isDoubleDot (segment : List Char) : Bool :=
  plainDots segment == ['.', '.']

/-- The segments of a path after those in `done`, which stand in reverse. -/
def segmentsFrom (done : List (List Char)) : List (List Char) → List (List Char)
  | [] => done.reverse
  | part :: rest =>
      let kept := if isDoubleDot part then done.tail else done
      if isDoubleDot part || isSingleDot part then
        if rest.isEmpty then ([] :: kept).reverse else segmentsFrom kept rest
      else segmentsFrom (part :: done) rest

/-- The segments of a path, which starts with a separator or is empty. -/
def segmentsOf (path : List Char) : List (List Char) :=
  segmentsFrom [] ((Text.splitAt isSeparator path.tail).map (Percent.encode isPathChar))

/-! ## Targets -/

/-- The text of a target. -/
def text (t : Target) : String :=
  let path := t.segments.flatMap fun segment => '/' :: segment
  let query :=
    match t.query with
    | some query => '?' :: query
    | none => []
  String.ofList ((if path.isEmpty then ['/'] else path) ++ query)

/-- What follows `lead` in a text, whatever the case of its letters. -/
def afterLead? (lead : String) (cs : List Char) : Option (List Char) :=
  if (cs.take lead.length).map Char.toLower = lead.toList then some (cs.drop lead.length)
  else none

/-- The target of a URL; `none` if the text is no URL with a host. -/
def ofUrl? (url : String) : Option Target := do
  let cs := (url.toList.dropWhile isControlOrSpace).filter fun c => !isLineBreakOrTab c
  let rest ← (afterLead? "http:" cs) <|> (afterLead? "https:" cs)
  let rest := rest.dropWhile isSeparator
  let authority := rest.takeWhile fun c => !endsAuthority c
  if !isAuthority authority then failure
  let rest := (rest.drop authority.length).takeWhile (· != '#')
  let path := rest.takeWhile (· != '?')
  let query :=
    match rest.drop path.length with
    | _ :: query => some (Percent.encode isQueryChar query)
    | [] => none
  return ⟨segmentsOf path, query⟩

/-- A target has at least its leading slash. -/
theorem text_ne_empty (t : Target) : t.text ≠ "" := by
  intro h
  have h := congrArg String.toList h
  simp only [text, String.toList_ofList] at h
  split at h <;> simp_all

/-- Segments that are not dots are kept as they stand. -/
theorem segmentsFrom_of_plain {done parts : List (List Char)}
    (h : ∀ part ∈ parts, isSingleDot part = false ∧ isDoubleDot part = false) :
    segmentsFrom done parts = done.reverse ++ parts := by
  induction parts generalizing done with
  | nil => simp [segmentsFrom]
  | cons part rest ih =>
      obtain ⟨single, double⟩ := h part List.mem_cons_self
      simp only [segmentsFrom, single, double, Bool.or_self, Bool.false_eq_true, if_false]
      rw [ih fun p hp => h p (List.mem_cons_of_mem part hp)]
      simp

end Target
end Http
end RunnerFleet
