import RunnerFleet.Json.Tree
import RunnerFleet.Proofs.Json.Tokens

/-!
# Documents that were written

The text of a value is read as the document that the value describes.  The reader keeps what is open
on a stack, so the statement that is carried through the value is about the text of a part, whatever
is open around it and whatever stands behind it: behind the part the reader goes on as if it had been
given the whole part at once.

Main results:

- `inductionOnParts`: induction over values.
- `readsBack`: the text of a part gives the part to what is open around it.
- `decode_text`: reading the text of a value is reading the document it describes.
-/

namespace RunnerFleet
namespace Json

open Document (Node Fault Reader)

/-! ## Induction over values -/

/-- What holds of an array or object if it holds of all of its parts, and of every value without
parts, holds of every value. -/
theorem inductionOnParts {motive : Json → Prop} (null : motive .null)
    (bool : ∀ value, motive (.bool value)) (integer : ∀ value, motive (.integer value))
    (float : ∀ value, motive (.float value)) (string : ∀ value, motive (.string value))
    (array : ∀ items, (∀ item ∈ items, motive item) → motive (.array items))
    (object : ∀ members, (∀ member ∈ members, motive member.2) → motive (.object members)) :
    ∀ value, motive value
  | .null => null
  | .bool value => bool value
  | .integer value => integer value
  | .float value => float value
  | .string value => string value
  | .array items =>
      array items fun item _ => inductionOnParts null bool integer float string array object item
  | .object members =>
      object members fun member _ =>
        inductionOnParts null bool integer float string array object member.2
termination_by value => sizeOf value
decreasing_by
  · have := List.sizeOf_lt_of_mem ‹item ∈ items›
    simp
    omega
  · obtain ⟨name, value⟩ := member
    have := List.sizeOf_lt_of_mem ‹(name, value) ∈ members›
    simp at this ⊢
    omega

/-! ## The document that a value describes -/

mutual

/-- The document that a value describes. -/
def node : Json → Node
  | null => .null
  | bool value => .bool value
  | integer value => .integer value
  | float value => .float value
  | string value => .string value
  | array items => .array (itemNodes items)
  | object members => .object (memberNodes members)

/-- The documents of the items of an array. -/
def itemNodes : List Json → List Node
  | [] => []
  | item :: rest => item.node :: itemNodes rest

/-- The members of an object with the documents of their values. -/
def memberNodes : List (String × Json) → List (Option String × Node)
  | [] => []
  | (name, value) :: rest => (some name, value.node) :: memberNodes rest

end

@[simp]
theorem itemNodes_eq_map (items : List Json) : itemNodes items = items.map node := by
  induction items with
  | nil => rw [itemNodes, List.map_nil]
  | cons item rest ih => rw [itemNodes, List.map_cons, ih]

mutual

/-- Every number in the value is a whole one that is read as such. -/
def Plain : Json → Prop
  | integer value => IsWord value
  | float _ => False
  | array items => PlainItems items
  | object members => PlainMembers members
  | _ => True

/-- Every item is plain. -/
def PlainItems : List Json → Prop
  | [] => True
  | item :: rest => item.Plain ∧ PlainItems rest

/-- The value of every member is plain. -/
def PlainMembers : List (String × Json) → Prop
  | [] => True
  | (_, value) :: rest => value.Plain ∧ PlainMembers rest

end

theorem plainItems_iff {items : List Json} : PlainItems items ↔ ∀ item ∈ items, item.Plain := by
  induction items with
  | nil => simp [PlainItems]
  | cons item rest ih => simp [PlainItems, ih]

theorem plainMembers_iff {members : List (String × Json)} :
    PlainMembers members ↔ ∀ member ∈ members, member.2.Plain := by
  induction members with
  | nil => simp [PlainMembers]
  | cons member rest ih => simp [PlainMembers, ih]

/-! ## Reading from the middle of a text -/

namespace Tree

/-- The document that is read if the reader is at this place, with this text before it. -/
def resume (place : Stage × List Frame) (cs : List Char) : Tree :=
  ofTokens (Token.all cs) place.1 place.2

/-- Where a value may stand. -/
def Awaits (stage : Stage) : Prop :=
  stage = .value ∨ stage = .firstItem

/-- Where the name of a member may stand. -/
def AwaitsName (stage : Stage) : Prop :=
  stage = .name ∨ stage = .firstName

theorem resume_token {cs rest : List Char} {token : Token} {stage : Stage} {stack : List Frame}
    {place : Stage × List Frame} (hall : Token.all cs = token :: Token.all rest)
    (hstep : step token stage stack = some place) :
    resume (stage, stack) cs = resume place rest := by
  simp only [resume, hall, ofTokens, hstep]

/-- Where a value may stand, a token that opens or is one is taken as such. -/
theorem step_of_awaits {token : Token} {stage : Stage} {stack : List Frame} (hstage : Awaits stage)
    (hclose : token ≠ .closeArray) : step token stage stack = takeValue token stack := by
  rcases hstage with rfl | rfl
  · rfl
  · cases token with
    | closeArray => exact absurd rfl hclose
    | _ => rfl

theorem step_name {name : String} {stage : Stage} {members : List (Option String × Node)}
    {held : Option String} {stack : List Frame} (hstage : AwaitsName stage) :
    step (.string (some name)) stage (.object members held :: stack) =
      some (.colon, .object members (some name) :: stack) := by
  rcases hstage with rfl | rfl <;> rfl

end Tree

open Json.Tree

theorem ends_comma (rest : List Char) : Ends (',' :: rest) :=
  Or.inr ⟨',', rest, rfl, Or.inl rfl⟩

theorem ends_closeArray (rest : List Char) : Ends (']' :: rest) :=
  Or.inr ⟨']', rest, rfl, Or.inr (Or.inl rfl)⟩

theorem ends_closeObject (rest : List Char) : Ends ('\x7d' :: rest) :=
  Or.inr ⟨'\x7d', rest, rfl, Or.inr (Or.inr rfl)⟩

/-- Behind a name and its colon a value is awaited. -/
theorem resume_quote {stage : Stage} (hstage : AwaitsName stage) (name : String)
    (members : List (Option String × Node)) (held : Option String) (stack : List Frame)
    (rest : List Char) :
    resume (stage, .object members held :: stack) (quote name ++ ':' :: rest) =
      resume (.value, .object members (some name) :: stack) rest :=
  (resume_token (all_quote name _) (step_name hstage)).trans (resume_token (all_colon rest) rfl)

theorem renderItems_cons (item next : Json) (more : List Json) :
    renderItems (item :: next :: more) = item.render ++ ',' :: renderItems (next :: more) := by
  rw [renderItems]
  simp

theorem renderMembers_cons (name : String) (value : Json) (next : String × Json)
    (more : List (String × Json)) :
    renderMembers ((name, value) :: next :: more) =
      quote name ++ ':' :: value.render ++ ',' :: renderMembers (next :: more) := by
  rw [renderMembers]
  simp

/--
The text of the part gives the part to what is open around it, whatever stands behind it.  It has to
be a comma, a closing mark or the end, since a number would take digits that follow.
-/
def ReadsBack (value : Json) : Prop :=
  ∀ ⦃stage : Stage⦄, Awaits stage → ∀ (stack : List Frame) ⦃rest : List Char⦄, Ends rest →
    resume (stage, stack) (value.render ++ rest) = resume (deliver value.node stack) rest

theorem readsBack_of_token {value : Json} {token : Token} (hclose : token ≠ .closeArray)
    (hall : ∀ {rest}, Ends rest → Token.all (value.render ++ rest) = token :: Token.all rest)
    (htake : ∀ stack, takeValue token stack = some (deliver value.node stack)) : ReadsBack value :=
  fun _ hstage stack _ hrest =>
    resume_token (hall hrest) ((step_of_awaits hstage hclose).trans (htake stack))

/-- The text of the items that are left completes the array that is open. -/
theorem resume_renderItems {item : Json} {more : List Json}
    (h : ∀ value ∈ item :: more, ReadsBack value) {stage : Stage} (hstage : Awaits stage)
    (done : List Node) (stack : List Frame) (rest : List Char) :
    resume (stage, .array done :: stack) (renderItems (item :: more) ++ rest) =
      resume (deliver (.array (done.reverse ++ itemNodes (item :: more))) stack) rest := by
  have hitem := h item List.mem_cons_self
  induction more generalizing item stage done with
  | nil =>
      rw [renderItems, List.append_assoc, List.singleton_append,
        hitem hstage _ (ends_closeArray rest)]
      refine resume_token (all_closeArray rest) ?_
      simp [deliver, step, itemNodes]
  | cons next more ih =>
      have hmore : ∀ value ∈ next :: more, ReadsBack value := fun value hvalue =>
        h value (List.mem_cons_of_mem _ hvalue)
      rw [renderItems_cons, List.append_assoc, List.cons_append, hitem hstage _ (ends_comma _)]
      refine (resume_token (all_comma _) rfl).trans ?_
      rw [ih hmore (Or.inl rfl) (item.node :: done) (hmore next List.mem_cons_self)]
      simp [itemNodes]

/-- The text of the members that are left completes the object that is open. -/
theorem resume_renderMembers {member : String × Json} {more : List (String × Json)}
    (h : ∀ entry ∈ member :: more, ReadsBack entry.2) {stage : Stage} (hstage : AwaitsName stage)
    (done : List (Option String × Node)) (held : Option String) (stack : List Frame)
    (rest : List Char) :
    resume (stage, .object done held :: stack) (renderMembers (member :: more) ++ rest) =
      resume (deliver (.object (done.reverse ++ memberNodes (member :: more))) stack) rest := by
  have hvalue := h member List.mem_cons_self
  obtain ⟨name, value⟩ := member
  induction more generalizing name value stage done held with
  | nil =>
      rw [renderMembers, List.append_assoc, List.append_assoc, List.cons_append,
        List.singleton_append, resume_quote hstage,
        hvalue (Or.inl rfl) _ (ends_closeObject rest)]
      refine resume_token (all_closeObject rest) ?_
      simp [deliver, step, memberNodes]
  | cons next more ih =>
      have hmore : ∀ entry ∈ next :: more, ReadsBack entry.2 := fun entry hentry =>
        h entry (List.mem_cons_of_mem _ hentry)
      rw [renderMembers_cons, List.append_assoc, List.cons_append, List.append_assoc,
        List.cons_append, resume_quote hstage, hvalue (Or.inl rfl) _ (ends_comma _)]
      refine (resume_token (all_comma _) rfl).trans ?_
      rw [ih (Or.inl rfl) ((some name, value.node) :: done) none next.1 next.2 hmore
        (hmore next List.mem_cons_self)]
      simp [memberNodes]

/-- Every plain value is read back. -/
theorem readsBack (value : Json) (hplain : value.Plain) : ReadsBack value := by
  induction value using inductionOnParts with
  | null => exact readsBack_of_token (by simp) (fun _ => all_null _) fun _ => rfl
  | bool value => exact readsBack_of_token (by simp) (fun _ => all_bool value _) fun _ => rfl
  | integer value =>
      rw [Plain] at hplain
      exact readsBack_of_token (by simp) (all_integer hplain) fun _ => rfl
  | float value => exact absurd hplain (by simp [Plain])
  | string value =>
      have htoken : Token.string (some value) ≠ .closeArray := by simp
      refine readsBack_of_token htoken (fun _ => ?_) fun _ => rfl
      rw [render_string, all_quote]
  | array items ih =>
      rw [Plain, plainItems_iff] at hplain
      intro stage hstage stack rest hrest
      rw [render, List.cons_append, node]
      refine (resume_token (all_openArray _) (step_of_awaits hstage (by simp))).trans ?_
      cases items with
      | nil => exact resume_token (all_closeArray rest) rfl
      | cons item more =>
          exact resume_renderItems (fun value hvalue => ih value hvalue (hplain value hvalue))
            (Or.inr rfl) [] stack rest
  | object members ih =>
      rw [Plain, plainMembers_iff] at hplain
      intro stage hstage stack rest hrest
      rw [render, List.cons_append, node]
      refine (resume_token (all_openObject _) (step_of_awaits hstage (by simp))).trans ?_
      cases members with
      | nil => exact resume_token (all_closeObject rest) rfl
      | cons member more =>
          exact resume_renderMembers (fun entry hentry => ih entry hentry (hplain entry hentry))
            (Or.inr rfl) [] none stack rest

/-! ## Whole texts -/

/-- The text of a plain value is read as the document that the value describes. -/
theorem read_text {value : Json} (h : value.Plain) : Tree.read value.text = ⟨value.node, false⟩ := by
  have hresume := readsBack value h (Or.inl rfl) [] (Or.inl rfl)
  rw [List.append_nil] at hresume
  rw [Tree.read, Json.text, String.toList_ofList]
  refine hresume.trans ?_
  rw [resume, all_nil]
  rfl

/-- Reading the text of a plain value is reading the document it describes. -/
theorem decode_text {α : Type} (reader : Reader α) {value : Json} (h : value.Plain) :
    decode reader value.text = reader value.node := by
  rw [decode, read_text h]
  cases reader value.node <;> rfl

end Json
end RunnerFleet
